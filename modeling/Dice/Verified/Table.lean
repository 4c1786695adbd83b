import Mathlib.Algebra.GroupWithZero.Nat
import Mathlib.Data.List.AList

/-!
# Dictionaries

The hash tables of the server are used through their map interface.  A
dictionary is Mathlib's association list without duplicate keys, so
"one entry per key" is part of the type.  Iteration order is not specified by
the source and no result below depends on it.

What is added here is the accounting a counter kept beside a table needs:
how `countValues` and `sumValues` react to replacing and removing one entry.
-/

namespace Dice.Verified.Table

open List AList

/-- A finite map with at most one entry per key. -/
abbrev Dict (K V : Type) := AList (fun _ : K => V)

variable {K V : Type} [DecidableEq K]

/-- Number of entries whose value satisfies `p`. -/
def countValues (p : V → Bool) (d : Dict K V) : Nat := d.entries.countP fun e => p e.2

/-- The sum of `f` over the stored values. -/
def sumValues (f : V → Nat) (d : Dict K V) : Nat := (d.entries.map fun e => f e.2).sum

omit [DecidableEq K] in
lemma countValues_eq_sumValues (p : V → Bool) (d : Dict K V) :
    countValues p d = sumValues (fun v => if p v then 1 else 0) d := by
  rw [countValues, sumValues]
  induction d.entries with
  | nil => rfl
  | cons e l ih => rw [countP_cons, map_cons, sum_cons, ih, Nat.add_comm]

lemma sumValues_insert (f : V → Nat) (d : Dict K V) (k : K) (v : V) :
    sumValues f (d.insert k v) = sumValues f (d.erase k) + f v := by
  rw [sumValues, entries_insert, map_cons, Nat.add_comm]
  rfl

variable {k : K} {v : V} {d : Dict K V}

/-- The stored values. -/
def values (d : Dict K V) : List V := d.entries.map Sigma.snd

/-- Removing a key takes out its value once. -/
theorem values_erase (h : d.lookup k = some v) : (values d).Perm (v :: values (d.erase k)) := by
  have hmem : (⟨k, v⟩ : Sigma fun _ : K => V) ∈ d.entries := mem_lookup_iff.mp h
  obtain ⟨v', l1, l2, hout, hsplit, herase⟩ := exists_of_kerase (mem_keys_of_mem hmem)
  have hv : d.lookup k = some v' := mem_lookup_iff.mpr (by rw [hsplit]; simp)
  rw [h, Option.some.injEq] at hv
  show (d.entries.map Sigma.snd).Perm (v :: (kerase k d.entries).map Sigma.snd)
  rw [herase, hsplit, hv, map_append, map_append]
  exact perm_middle

section

variable (p : V → Bool) (d : Dict K V)

/-- An entry contributes exactly its own value to the sum. -/
theorem sumValues_erase (f : V → Nat) (d : Dict K V) (k : K) :
    sumValues f d = sumValues f (d.erase k) + ((d.lookup k).map f).getD 0 := by
  cases h : d.lookup k with
  | none =>
    have hnotMem : k ∉ d.entries.keys := lookup_eq_none.mp h
    show _ = ((kerase k d.entries).map _).sum + 0
    rw [kerase_of_notMem_keys hnotMem]
    rfl
  | some v =>
    have hsum := ((values_erase h).map f).sum_nat
    simpa [values, sumValues, Function.comp_def, Nat.add_comm] using hsum

lemma countValues_erase (h : d.lookup k = some v) :
    countValues p d = countValues p (d.erase k) + (if p v then 1 else 0) := by
  rw [countValues_eq_sumValues, countValues_eq_sumValues, sumValues_erase _ d k, h]
  rfl

/-- Predicates that agree on the stored values give the same count. -/
theorem countValues_congr {p q : V → Bool} {d : Dict K V}
    (h : ∀ k v, d.lookup k = some v → p v = q v) : countValues p d = countValues q d := by
  refine countP_congr ?_
  intro e he
  have hlook : d.lookup e.1 = some e.2 := mem_lookup_iff.mpr he
  rw [h e.1 e.2 hlook]

/-- The count is the length of any list that names each counted key once. -/
theorem countValues_eq_length {p : V → Bool} {d : Dict K V} {l : List K} (hnd : l.Nodup)
    (h : ∀ k, k ∈ l ↔ ∃ v, d.lookup k = some v ∧ p v) : countValues p d = l.length := by
  have hkeys : ((d.entries.filter fun e => p e.2).map Sigma.fst).Nodup :=
    d.nodupKeys.sublist filter_sublist
  have hperm : ((d.entries.filter fun e => p e.2).map Sigma.fst).Perm l := by
    rw [perm_ext_iff_of_nodup hkeys hnd]
    intro k
    rw [h, mem_map]
    constructor
    · rintro ⟨⟨k', v⟩, he, rfl⟩
      rw [mem_filter] at he
      exact ⟨v, mem_lookup_iff.mpr he.1, he.2⟩
    · rintro ⟨v, hv, hp⟩
      exact ⟨⟨k, v⟩, mem_filter.mpr ⟨mem_lookup_iff.mp hv, hp⟩, rfl⟩
  rw [← hperm.length_eq, length_map, countValues, countP_eq_length_filter]

/-- Looking up any key after an insertion. -/
@[grind =] theorem lookup_insert_eq (k k' : K) (v : V) :
    (d.insert k v).lookup k' = if k' = k then some v else d.lookup k' := by
  by_cases h : k' = k
  · subst h; simp
  · simp [h]

/-- Looking up any key after a removal. -/
@[grind =] theorem lookup_erase_eq (k k' : K) :
    (d.erase k).lookup k' = if k' = k then none else d.lookup k' := by
  by_cases h : k' = k
  · subst h; simp
  · simp [h]

lemma countValues_ext {d d' : Dict K V} (h : ∀ k, d'.lookup k = d.lookup k) :
    countValues p d' = countValues p d :=
  (lookup_ext d'.nodupKeys d.nodupKeys fun k _ => by
    rw [show d'.entries.dlookup k = d.entries.dlookup k from h k]).countP_eq _

/-- One entry appears, changes or goes. -/
theorem countValues_change {d' : Dict K V} {new : Option V}
    (h : ∀ k', d'.lookup k' = if k' = k then new else d.lookup k') :
    countValues p d' + ((d.lookup k).any p).toNat = countValues p d + (new.any p).toNat := by
  have hrest : countValues p (d'.erase k) = countValues p (d.erase k) :=
    countValues_ext p (by grind)
  have hsplit : ∀ d : Dict K V, countValues p d =
    countValues p (d.erase k) + ((d.lookup k).any p).toNat := by
    intro d
    rw [countValues_eq_sumValues, countValues_eq_sumValues, sumValues_erase _ d k]
    cases d.lookup k with
    | none => rfl
    | some v => cases hp : p v <;> simp [hp]
  rw [hsplit d', hsplit d, hrest, h k, if_pos rfl]
  omega

end

/-- A loop over the keys that changes the entry of each key. -/
theorem lookup_foldl_keys {f : Dict K V → K → Dict K V} {g : K → V → V}
    (hf : ∀ t p k, (f t p).lookup k = if k = p then (t.lookup k).map (g k) else t.lookup k)
    (t : Dict K V) (k : K) : (t.keys.foldl f t).lookup k = (t.lookup k).map (g k) := by
  have hloop : ∀ (ps : List K), ps.Nodup → ∀ t, (ps.foldl f t).lookup k =
    if k ∈ ps then (t.lookup k).map (g k) else t.lookup k := by
    intro ps
    induction ps with
    | nil => simp
    | cons p ps ih =>
      intro hnd t
      grind
  rw [hloop _ t.keys_nodup]
  split
  · rfl
  · next hnot => rw [lookup_eq_none.mpr hnot, Option.map_none]

end Dice.Verified.Table
