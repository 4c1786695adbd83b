import Mathlib.Data.List.Infix

/-!
# Wildcard patterns

A pattern is a list of tokens: one that takes any number of letters, and ones
that take exactly one letter.  Since only the former have a choice, a pattern
that matches nowhere behind some position can be given up there: the letters
that were taken before cannot make a difference any more.
-/

namespace Dice.Verified.Wildcard

variable {α : Type*}

/-- A star, or a letter that passes a test. -/
inductive Token (α : Type*)
  | star
  | one (test : α → Bool)

/-- The strings of a pattern. -/
def Matches : List (Token α) → List α → Prop
  | [], s => s = []
  | .star :: ts, s => ∃ u v, s = u ++ v ∧ Matches ts v
  | .one test :: ts, s => ∃ c v, s = c :: v ∧ test c = true ∧ Matches ts v

/-- No end of the string matches. -/
def Nowhere (ts : List (Token α)) (s : List α) : Prop := ∀ v, v <:+ s → ¬ Matches ts v

variable {ts : List (Token α)} {s : List α} {c : α}

section

variable (h : Nowhere ts s)

include h

lemma Nowhere.cons (hnot : ¬ Matches ts (c :: s)) : Nowhere ts (c :: s) := by
  intro v hv
  rcases List.suffix_cons_iff.mp hv with rfl | hv
  · exact hnot
  · exact h v hv

end

end Dice.Verified.Wildcard
