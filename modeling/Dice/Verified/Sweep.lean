import Dice.Verified.Table

/-!
# Sweeping over a list of connections

A sweep visits every element once, closes those a predicate selects and keeps
the others as they are.  Closing may remove an element or leave a marked one
behind.  Two questions about the result are answered: which elements are still
open afterwards, and which ones were left alone.

The predicate is often looked up in a table that is filled during the sweep;
`memo` is such a table in front of a function.
-/

namespace Dice.Verified.Sweep

open Table List

section Sweep

variable {C : Type}

/-- Close the elements selected by `closes`, keep the others. -/
def sweep (closes : C → Bool) (close : C → Option C) (cs : List C) : List C :=
  cs.filterMap fun c => if closes c then close c else some c

lemma sweep_cons (closes : C → Bool) (close : C → Option C) (c : C) (cs : List C) :
    sweep closes close (c :: cs) =
    (if closes c then (close c).toList else [c]) ++ sweep closes close cs := by
  unfold sweep
  rw [filterMap_cons]
  cases closes c with
  | false => rfl
  | true => cases close c <;> simp

variable {closes : C → Bool} {close : C → Option C} {cs : List C}

/-- A sweep that selects nothing changes nothing. -/
theorem sweep_eq_self (h : ∀ c ∈ cs, closes c = false) : sweep closes close cs = cs := by
  induction cs with
  | nil => rfl
  | cons c cs ih =>
    rw [sweep_cons, h c (by simp), ih fun c' hc' => h c' (by simp [hc'])]
    rfl

/-- Only the selection of the elements at hand matters. -/
theorem sweep_congr {closes' : C → Bool} {close' : C → Option C}
    (hcloses : ∀ c ∈ cs, closes c = closes' c)
    (hclose : ∀ c ∈ cs, closes c → close c = close' c) :
    sweep closes close cs = sweep closes' close' cs := by
  apply filterMap_congr
  intro c hc
  rw [← hcloses c hc]
  split
  · next hsel => exact hclose c hc hsel
  · rfl

/-- Where an element of the result comes from. -/
theorem mem_sweep {c' : C} : c' ∈ sweep closes close cs ↔ (c' ∈ cs ∧ closes c' = false) ∨
      ∃ c ∈ cs, closes c ∧ close c = some c' := by
  unfold sweep
  rw [mem_filterMap]
  constructor
  · rintro ⟨c, hc, hkeep⟩
    split at hkeep
    · next hsel => exact .inr ⟨c, hc, hsel, hkeep⟩
    next hsel =>
      cases hkeep
      exact .inl ⟨hc, by simpa using hsel⟩
  · rintro (⟨hc, hsel⟩ | ⟨c, hc, hsel, hclose⟩)
    · exact ⟨c', hc, by simp [hsel]⟩
    · exact ⟨c, hc, by simp [hsel, hclose]⟩

/-- If closing leaves nothing open, the open elements of the result are the
open elements that were not selected. -/
theorem forall_open_sweep_iff (closes : C → Bool) (close : C → Option C) (cs : List C)
    (isOpen P : C → Prop) (hclose : ∀ c c', close c = some c' → ¬ isOpen c') :
    (∀ c ∈ sweep closes close cs, isOpen c → P c) ↔ ∀ c ∈ cs, isOpen c → ¬ P c → closes c := by
  constructor
  · intro h c hc hopen hP
    by_contra hsel
    exact hP (h c (mem_sweep.mpr (.inl ⟨hc, by simpa using hsel⟩)) hopen)
  intro h c' hc' hopen
  rcases mem_sweep.mp hc' with ⟨hc, hsel⟩ | ⟨c, _, _, hcl⟩
  · by_contra hP
    rw [h c' hc hopen hP] at hsel
    cases hsel
  · exact absurd hopen (hclose c c' hcl)

/-- A key by which the elements are told apart disappears exactly when its
element is selected and removed. -/
theorem key_notMem_sweep_iff {K : Type} {key : C → K} (closes : C → Bool)
    (close : C → Option C) (hnodup : (cs.map key).Nodup)
    (hkey : ∀ c c', close c = some c' → key c' = key c) {c : C} (hc : c ∈ cs) :
    (∀ c' ∈ sweep closes close cs, key c' ≠ key c) ↔ closes c ∧ close c = none := by
  constructor
  · intro h
    have hsel : closes c := by
      by_contra hsel
      exact h c (mem_sweep.mpr (.inl ⟨hc, by simpa using hsel⟩)) rfl
    refine ⟨hsel, ?_⟩
    cases hcl : close c with
    | none => rfl
    | some c' => exact absurd (hkey c c' hcl) (h c' (mem_sweep.mpr (.inr ⟨c, hc, hsel, hcl⟩)))
  rintro ⟨hsel, hnone⟩ c' hc' heq
  rcases mem_sweep.mp hc' with ⟨hmem, hsel'⟩ | ⟨c1, hmem, _, hcl⟩
  · rw [inj_on_of_nodup_map hnodup hmem hc heq, hsel] at hsel'
    cases hsel'
  have hsame : c1 = c := inj_on_of_nodup_map hnodup hmem hc ((hkey c1 c' hcl).symm.trans heq)
  rw [hsame, hnone] at hcl
  cases hcl

/-- Keys stay distinct. -/
theorem nodup_map_sweep {K : Type} {key : C → K} (hnodup : (cs.map key).Nodup)
    (hkey : ∀ c c', close c = some c' → key c' = key c) :
    ((sweep closes close cs).map key).Nodup := by
  refine List.Nodup.sublist ?_ hnodup
  clear hnodup
  induction cs with
  | nil => exact List.Sublist.refl _
  | cons c cs ih =>
    rw [sweep_cons]
    cases closes c with
    | false => exact ih.cons_cons _
    | true =>
      cases hcl : close c with
      | none => exact ih.cons _
      | some c' =>
        rw [if_pos rfl, Option.toList_some, singleton_append, map_cons, map_cons, hkey c c' hcl]
        exact ih.cons_cons _

end Sweep

section Memo

variable {K V : Type} [DecidableEq K]

/-- Look `k` up in the table, computing and recording it the first time. -/
def memo (f : K → V) (cache : Dict K V) (k : K) : V × Dict K V :=
  match cache.lookup k with
  | some v => (v, cache)
  | none => (f k, cache.insert k (f k))

/-- Everything recorded is what the function yields. -/
def Sound (f : K → V) (cache : Dict K V) : Prop := ∀ k v, cache.lookup k = some v → v = f k

lemma sound_empty (f : K → V) : Sound f ∅ := by
  intro k v h
  simp at h

section

variable {f : K → V} {cache : Dict K V} (h : Sound f cache) (k : K)

include h

lemma memo_fst : (memo f cache k).1 = f k := by
  unfold memo
  cases hk : cache.lookup k with
  | none => rfl
  | some v => exact h k v hk

lemma sound_memo : Sound f (memo f cache k).2 := by
  unfold memo
  cases hk : cache.lookup k with
  | some v => exact h
  | none =>
    intro k' v hlook
    rw [lookup_insert_eq] at hlook
    split at hlook
    · next heq =>
        rw [heq]
        exact (Option.some.inj hlook).symm
    · exact h k' v hlook

end

end Memo

end Dice.Verified.Sweep
