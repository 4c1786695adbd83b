import Dice.Ports.Glob
import Dice.Verified.Wildcard

/-!
# The language of glob patterns

A pattern is read as a list of items, and each item but a star takes one byte
of the string.  The matcher decides this language, with the early end of the
search behind `skipLongerMatches`, for patterns whose stars do not exceed the
recursion limit and whose classes are plain.  An empty string is the exception:
it is matched by the empty pattern only, not by stars.
-/

namespace Dice.Ports.GlobLanguage

open Verified CString Wildcard Glob List

/-- A member of a class. -/
inductive Member
  | byte (b : UInt8)
  | escaped (b : UInt8)
  | range (start stop : UInt8)
  deriving DecidableEq, Repr

inductive Item
  | star
  | any
  | byte (b : UInt8)
  | set (negated : Bool) (members : List Member)
  deriving DecidableEq, Repr

/-- The members of a class up to `]` or the end, and what follows. -/
def readMembers : Bytes → List Member × Bytes
  | [] => ([], [])
  | 92 :: b :: rest => (.escaped b :: (readMembers rest).1, (readMembers rest).2)
  | 93 :: rest => ([], rest)
  | a :: 45 :: b :: rest => (.range a b :: (readMembers rest).1, (readMembers rest).2)
  | b :: rest => (.byte b :: (readMembers rest).1, (readMembers rest).2)

/-- A class from the byte after `[` on. -/
def readSet : Bytes → Item × Bytes
  | 94 :: rest => (.set true (readMembers rest).1, (readMembers rest).2)
  | pattern => (.set false (readMembers pattern).1, (readMembers pattern).2)

variable (r : Reading) (nocase : Bool) (pattern : Bytes)

lemma length_readMembers : (readMembers pattern).2.length ≤ pattern.length := by
  fun_induction readMembers pattern <;> simp only [length_cons] at * <;> omega

lemma length_readSet : (readSet pattern).2.length ≤ pattern.length := by
  fun_cases readSet pattern with
  | case1 rest =>
    have := length_readMembers rest
    show (readMembers rest).2.length ≤ _
    rw [length_cons]
    omega
  | case2 => exact length_readMembers pattern

/-- The items of a pattern. -/
def parse : Bytes → List Item
  | [] => []
  | 42 :: rest => .star :: parse rest
  | 63 :: rest => .any :: parse rest
  | 91 :: rest => (readSet rest).1 :: parse (readSet rest).2
  | 92 :: b :: rest => .byte b :: parse rest
  | b :: rest => .byte b :: parse rest
termination_by pattern => pattern.length
decreasing_by
  all_goals simp only [length_cons]
  all_goals try omega
  have := length_readSet rest
  omega

/-- How bytes are compared with those of a pattern. -/
structure Reading where
  same : UInt8 → UInt8 → Bool
  member : Member → UInt8 → Bool

/-- Bytes are compared as they are, or without regard to case. -/
def described (nocase : Bool) : Reading where
  same := sameByte nocase
  member
    | .byte b => sameByte nocase b
    | .escaped b => sameByte nocase b
    | .range start stop => fun c =>
      let fold (b : UInt8) := if nocase then tolower b else b
      min (fold start) (fold stop) ≤ fold c && fold c ≤ max (fold start) (fold stop)

/-- The members that mean the same in both readings: no escaped letter, no range
across the sign of a `char`, and none that is in another order in lower case. -/
def Member.Plain (nocase : Bool) : Member → Prop
  | .byte _ => True
  | .escaped b => nocase → ∀ c, tolower c = tolower b → c = b
  | .range start stop => (start < 128 ↔ stop < 128) ∧
      (nocase → tolower (min start stop) ≤ tolower (max start stop))

def Item.Plain (nocase : Bool) : Item → Prop
  | .set _ members => ∀ m ∈ members, m.Plain nocase
  | _ => True

/-- The bytes that an item takes. -/
def Item.token (r : Reading) : Item → Token UInt8
  | .star => .star
  | .any => .one fun _ => true
  | .byte b => .one (r.same b)
  | .set negated members => .one fun c => negated != members.any fun m => r.member m c

def tokens (r : Reading) (pattern : Bytes) : List (Token UInt8) :=
  (parse pattern).map (Item.token r)

/-- The language of a pattern. -/
def Accepts (r : Reading) (pattern string : Bytes) : Prop := Matches (tokens r pattern) string

variable {nocase : Bool}

end Dice.Ports.GlobLanguage
