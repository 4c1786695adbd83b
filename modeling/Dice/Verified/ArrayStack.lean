import Mathlib.Data.List.Basic

/-!
# Stacks in an array

An array of which the first cells are in use.  Taking cells out of use does not
erase them, so going back to an old size brings the old contents back as long
as nothing was pushed in between.
-/

namespace Dice.Verified.ArrayStack

/-- The cells in use, and what is left in the cells behind them. -/
structure Stack (α : Type) where
  used : List α
  beyond : List α

variable {α : Type}

namespace Stack

def cells (s : Stack α) : List α := s.used ++ s.beyond

def push (s : Stack α) (xs : List α) : Stack α := ⟨s.used ++ xs, s.beyond.drop xs.length⟩

/-- Uses that many cells. -/
def resize (s : Stack α) (n : Nat) : Stack α := ⟨s.cells.take n, s.cells.drop n⟩

/-- Takes the last cells out of use. -/
def drop (s : Stack α) (n : Nat) : Option (Stack α) :=
  if n ≤ s.used.length then some (s.resize (s.used.length - n)) else none

@[simp] lemma used_push (s : Stack α) (xs : List α) : (s.push xs).used = s.used ++ xs := rfl

@[simp] lemma cells_resize (s : Stack α) (n : Nat) : (s.resize n).cells = s.cells :=
  List.take_append_drop n s.cells

lemma drop_append {s : Stack α} {xs ys : List α} (h : s.used = xs ++ ys) :
    ∃ s', s.drop ys.length = some s' ∧ s'.used = xs ∧ s'.cells = s.cells := by
  refine ⟨s.resize xs.length, ?_, ?_, cells_resize ..⟩
  · rw [drop, if_pos (by rw [h, List.length_append]; omega), h, List.length_append,
      Nat.add_sub_cancel]
  · rw [resize, cells, h, List.append_assoc, List.take_left]

/-- What was taken out of use comes back. -/
theorem resize_eq {s t : Stack α} (h : s.cells = t.cells) : s.resize t.used.length = t := by
  rw [resize, h, cells, List.take_left, List.drop_left]

end Stack

end Dice.Verified.ArrayStack
