import Mathlib.Data.List.Chain

/-!
# Walks

A move takes a position of a sequence to the next one, to nothing at the end,
or fails.  The positions it visits determine every loop over the sequence: the
list of positions seen, and what is reached after some steps.  A walk backwards
is a walk over the reversed positions.
-/

namespace Dice.Verified.Walk

open List Option

variable {α : Type*}

/-- `move` takes each of the positions to the next one and the last to nothing. -/
def Walks (move : α → Option (Option α)) : List α → Prop
  | [] => True
  | p :: ps => move p = some ps.head? ∧ Walks move ps

/-- `n` moves, unless the sequence ends before. -/
def advance (move : α → Option (Option α)) : Nat → Option α → Option (Option α)
  | 0, p => some p
  | _ + 1, none => some none
  | n + 1, some p => (move p).bind (advance move n)

/-- The positions that fewer than `n` moves visit up to the end. -/
def collect (move : α → Option (Option α)) : Nat → Option α → Option (List α)
  | 0, _ => none
  | _ + 1, none => some []
  | n + 1, some p => ((move p).bind (collect move n)).map (p :: ·)

variable {move : α → Option (Option α)}

variable {ps : List α}

lemma walks_of_isChain (h : ps.IsChain fun p q => move p = some (some q))
    (hlast : ∀ p ∈ ps.getLast?, move p = some none) : Walks move ps := by
  induction ps with
  | nil => trivial
  | cons p ps ih =>
    rw [isChain_cons] at h
    cases ps with
    | nil => exact ⟨hlast p rfl, trivial⟩
    | cons q ps =>
      refine ⟨h.1 q rfl, ih h.2 fun r hr => hlast r ?_⟩
      rwa [getLast?_cons_cons]

lemma Walks.move_eq (h : Walks move ps) {i : Nat} {p : α}
    (hp : ps[i]? = some p) : move p = some ps[i + 1]? := by
  induction ps generalizing i with
  | nil => simp at hp
  | cons q ps ih =>
    cases i with
    | zero =>
      rw [getElem?_cons_zero, some.injEq] at hp
      rw [← hp, h.1, getElem?_cons_succ, head?_eq_getElem?]
    | succ i => exact ih h.2 hp

lemma Walks.advance_eq (h : Walks move ps) (n : Nat) : advance move n ps.head? = some ps[n]? := by
  induction n generalizing ps with
  | zero => rw [advance, head?_eq_getElem?]
  | succ n ih =>
    cases ps with
    | nil => rfl
    | cons p ps => rw [head?_cons, advance, h.1, bind_some, ih h.2, getElem?_cons_succ]

lemma Walks.collect_eq (h : Walks move ps) {n : Nat} (hn : ps.length < n) :
    collect move n ps.head? = some ps := by
  induction ps generalizing n with
  | nil =>
    cases n with
    | zero => omega
    | succ n => rfl
  | cons p ps ih =>
    cases n with
    | zero => omega
    | succ n =>
      rw [length_cons] at hn
      rw [head?_cons, collect, h.1, bind_some, ih h.2 (by omega), map_some]

end Dice.Verified.Walk
