import Dice.Verified.CString

/-!
# Glob-style matching

`stringmatchlen`.  A pattern is an `sds`, so reading one byte past its end
yields the terminating NUL, which is neither `*` nor `]` nor `^`; the bounds
checks of the source and the ends of the lists below coincide for that reason.

`skipLongerMatches` is an output as well as an input of the recursion: it
tells the callers that are inside an earlier `*` to give up.  The recursion
depth is limited to 1000 stars.
-/

namespace Dice.Ports.Glob

open Verified.CString

/-- Two bytes compared as `nocase` says. -/
def sameByte (nocase : Bool) (p c : UInt8) : Bool :=
  if nocase then tolower p == tolower c else p == c

/-- `char` is signed where the server runs; ranges compare it as such.  The
endpoints are put in order before they are converted to lower case. -/
def inRange (nocase : Bool) (start stop c : UInt8) : Bool :=
  let lo := if stop.toInt8 < start.toInt8 then stop else start
  let hi := if stop.toInt8 < start.toInt8 then start else stop
  if nocase then
    (tolower lo).toInt8 ≤ (tolower c).toInt8 && (tolower c).toInt8 ≤ (tolower hi).toInt8
  else lo.toInt8 ≤ c.toInt8 && c.toInt8 ≤ hi.toInt8

/-- The loop over a bracket expression, from the byte after `[` or `[^`: does
some item match `c`, and the pattern after the expression.  A missing `]` is
tolerated at the end of the pattern. -/
def bracketLoop (nocase : Bool) (c : UInt8) : Bool → Bytes → Bool × Bytes
  | isMatch, [] => (isMatch, [])
  | isMatch, 92 :: p :: rest => bracketLoop nocase c (isMatch || p == c) rest
  | isMatch, 93 :: rest => (isMatch, rest)
  | isMatch, p :: 45 :: stop :: rest =>
    bracketLoop nocase c (isMatch || inRange nocase p stop c) rest
  | isMatch, p :: rest => bracketLoop nocase c (isMatch || sameByte nocase p c) rest

/-- A bracket expression, from the byte after `[`. -/
def bracket (nocase : Bool) (c : UInt8) (pattern : Bytes) : Bool × Bytes :=
  match pattern with
  | 94 :: rest =>
    match bracketLoop nocase c false rest with
    | (isMatch, rest) => (!isMatch, rest)
  | _ => bracketLoop nocase c false pattern

/-- The loop of the `*` case: try the rest of the pattern (`tryMatch`) at
every position of the string until it matches or gives up. -/
def starLoop (tryMatch : Bytes → Bool → Bool × Bool) : Bytes → Bool → Bool × Bool
  | [], _ => (false, true)
  | c :: string, skip =>
    match tryMatch (c :: string) skip with
    | (true, skip) => (true, skip)
    | (false, true) => (false, true)
    | (false, false) => starLoop tryMatch string false

/-- `stringmatchlen_impl`: the result and the final `skipLongerMatches`.
Every turn of the main loop and every recursive call shortens the pattern,
so the pattern's length bounds `fuel`. -/
def stringmatchlenImpl (nocase : Bool) : Nat → Bytes → Bytes → Bool → Nat → Bool × Bool
  | 0, _, _, skip, _ => (false, skip)
  | fuel + 1, pattern, string, skip, nesting =>
    -- after one byte was matched: trailing stars match the empty string
    let next (pattern string : Bytes) : Bool × Bool :=
      if string.isEmpty then ((pattern.dropWhile (· == 42)).isEmpty, skip)
      else stringmatchlenImpl nocase fuel pattern string skip nesting
    if nesting > 1000 then (false, skip)
    else
      match pattern, string with
      | p :: ps, c :: cs =>
        if p = 42 then
          let rest := ps.dropWhile (· == 42)
          if rest.isEmpty then (true, skip)
          else
            starLoop
              (fun string skip =>
                stringmatchlenImpl nocase fuel rest string skip (nesting + 1))
              (c :: cs) skip
        else if p = 63 then next ps cs
        else if p = 91 then
          match bracket nocase c ps with
          | (true, rest) => next rest cs
          | (false, _) => (false, skip)
        else if p = 92 then
          match ps with
          | q :: rest => if sameByte nocase q c then next rest cs else (false, skip)
          | [] => if sameByte nocase p c then next [] cs else (false, skip)
        else if sameByte nocase p c then next ps cs
        else (false, skip)
      | pattern, string => (pattern.isEmpty && string.isEmpty, skip)

/-- `stringmatchlen(pattern, plen, string, slen, nocase)`. -/
def stringmatchlenCase (nocase : Bool) (pattern string : Bytes) : Bool :=
  (stringmatchlenImpl nocase (pattern.length + 1) pattern string false 0).1

/-- `stringmatchlen(pattern, plen, string, slen, 0)`. -/
def stringmatchlen (pattern string : Bytes) : Bool := stringmatchlenCase false pattern string

example : stringmatchlen (ofString "h[^a-c]l*o?") (ofString "hello!") = true := by
  decide

end Dice.Ports.Glob
