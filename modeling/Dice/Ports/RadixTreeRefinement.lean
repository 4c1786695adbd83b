import Dice.Ports.RadixTreeRemove
import Dice.Verified.Table

/-!
# The radix tree as a finite map

The same calls are made on the radix tree and on a finite map from strings to
pointers.  Every call on the tree answers what the map answers, and the two
counters and the order of the children are right after every call.
-/

namespace Dice.Ports.RadixTreeRefinement

open List
open Prod (fst)

open Verified CString Run SortedList PrefixTree RadixTree RadixTreeWalk
open RadixTreeInsert RadixTreeRemove

variable {V : Type}

inductive Call (V : Type)
  | insert (s : Bytes) (data : Option V)
  | tryInsert (s : Bytes) (data : Option V)
  | remove (s : Bytes)
  | find (s : Bytes)

/-- A call on the radix tree. -/
def call (rax : Rax V) : Call V → Option (Rax V × Reply V)
  | .insert s data => raxInsert rax s data
  | .tryInsert s data => raxTryInsert rax s data
  | .remove s => some (raxRemove rax s)
  | .find s => some (rax, raxFind rax s)

/-- A call, its reply kept with those before. -/
def step (st : Rax V × List (Reply V)) (c : Call V) : Option (Rax V × List (Reply V)) :=
  (call st.1 c).map fun (rax, reply) => (rax, st.2 ++ [reply])

/-- A finite map from strings to pointers. -/
abbrev Map (V : Type) := Verified.Table.Dict Bytes (Option V)

/-- The calls on a finite map.  Inserting tells whether the key is new; the others tell
whether there was one.  The pointer of a key that was there is returned. -/
def mapCall (m : Map V) : Call V → Map V × Reply V
  | .insert s data => (m.insert s data, ⟨(m.lookup s).isNone, m.lookup s⟩)
  | .tryInsert s data =>
    (if (m.lookup s).isSome then m else m.insert s data, ⟨(m.lookup s).isNone, m.lookup s⟩)
  | .remove s => (m.erase s, ⟨(m.lookup s).isSome, m.lookup s⟩)
  | .find s => (m, ⟨(m.lookup s).isSome, m.lookup s⟩)

def mapStep (st : Map V × List (Reply V)) (c : Call V) : Map V × List (Reply V) :=
  ((mapCall st.1 c).1, st.2 ++ [(mapCall st.1 c).2])

/-- The entries are those of the map. -/
def Represents (m : Map V) (es : List (Bytes × Option V)) : Prop :=
  ∀ s v, (s, v) ∈ es ↔ m.lookup s = some v

section Represents

variable {m : Map V} {es mid new : List (Bytes × Option V)} {s : Bytes} {v : Option V}

section

variable (h : Represents m es)

include h

lemma Represents.lookup_none (hs : s ∉ es.map fst) : m.lookup s = none := by
  cases hlook : m.lookup s with
  | none => rfl
  | some v => exact absurd (mem_map_of_mem ((h s v).mpr hlook)) hs

section

variable (hadds : Adds (s, v) mid es)

include hadds

lemma Represents.lookup_some : m.lookup s = some v := (h s v).mp (hadds.mem_iff.mpr (.inl rfl))

lemma Represents.mem_mid {k : Bytes} (hk : k ≠ s) (w : Option V) :
    (k, w) ∈ mid ↔ m.lookup k = some w := by
  rw [← h k w, hadds.mem_iff]
  simp [hk]
omit h in
lemma not_mem_mid (hes : Sorted (es.map fst)) (w : Option V) : (s, w) ∉ mid :=
  fun hmem => (hadds.map fst).not_mem hes (mem_map.mpr ⟨_, hmem, rfl⟩)

omit hadds in
omit h in
lemma represents_insert (hmid : ∀ k w, k ≠ s → ((k, w) ∈ mid ↔ m.lookup k = some w))
    (hadds : Adds (s, v) mid new) (hnew : Sorted (new.map fst)) :
    Represents (m.insert s v) new := by
  intro k w
  rw [hadds.mem_iff]
  by_cases hk : k = s
  · subst hk
    simp [not_mem_mid hadds hnew w, eq_comm]
  · rw [AList.lookup_insert_ne hk, ← hmid k w hk]
    simp [hk]

lemma Represents.erase (hes : Sorted (es.map fst)) : Represents (m.erase s) mid := by
  intro k w
  by_cases hk : k = s
  · subst hk
    simp [not_mem_mid hadds hes w]
  · rw [AList.lookup_erase_ne hk, h.mem_mid hadds hk]

end

lemma Represents.length (hes : Sorted (es.map fst)) : es.length = m.keys.length := by
  have hnodup : (es.map fst).Nodup := hes.imp fun hlt => ne_of_lt hlt
  rw [← length_map (f := fst)]
  apply List.Perm.length_eq
  rw [perm_ext_iff_of_nodup hnodup m.keys_nodup]
  intro s
  rw [mem_map, ← AList.mem_keys, ← AList.lookup_isSome, Option.isSome_iff_exists]
  constructor
  · rintro ⟨⟨k, w⟩, hmem, rfl⟩
    exact ⟨w, (h k w).mp hmem⟩
  · rintro ⟨w, hw⟩
    exact ⟨(s, w), (h s w).mpr hw, rfl⟩

end

end Represents

/-- The tree and the map after the same calls. -/
structure Matches (m : Map V) (rax : Rax V) : Prop where
  valid : Valid rax
  represents : Represents m (contents rax.head)

variable {m : Map V} {rax : Rax V}

lemma Matches.insert {rax' : Rax V} {s : Bytes} {data : Option V}
    {overwrite : Bool} {reply : Reply V} (h : Matches m rax) (hv : Valid rax')
    (hputs : Puts s data overwrite (contents rax.head) (contents rax'.head) reply) :
    reply = ⟨(m.lookup s).isNone, m.lookup s⟩ ∧
    Matches (if !overwrite && (m.lookup s).isSome then m else m.insert s data) rax' := by
  have hnew := sorted_contents hv.shaped
  rcases hputs with ⟨rfl, hadds⟩ | ⟨v, mid, rfl, hadds, hadds'⟩
  · have hs : s ∉ (contents rax.head).map fst := (hadds.map fst).not_mem hnew
    rw [h.represents.lookup_none hs]
    refine ⟨rfl, hv, ?_⟩
    rw [Option.isSome_none, Bool.and_false]
    exact represents_insert (fun k w _ => h.represents k w) hadds hnew
  rw [h.represents.lookup_some hadds]
  refine ⟨rfl, hv, ?_⟩
  cases overwrite with
  | true => exact represents_insert (fun k w hk => h.represents.mem_mid hadds hk w) hadds' hnew
  | false =>
    have hadds' : Adds (s, v) mid (contents rax'.head) := hadds'
    intro k w
    rw [hadds'.mem_iff, ← hadds.mem_iff]
    exact h.represents k w

lemma Matches.find (h : Matches m rax) (s : Bytes) :
    raxFind rax s = ⟨(m.lookup s).isSome, m.lookup s⟩ := by
  rcases raxFind_spec h.valid s with ⟨heq, hs⟩ | ⟨v, mid, heq, hadds⟩
  · rw [heq, h.represents.lookup_none hs]
    rfl
  · rw [heq, h.represents.lookup_some hadds]
    rfl

lemma Matches.remove (h : Matches m rax) (s : Bytes) :
    (raxRemove rax s).2 = ⟨(m.lookup s).isSome, m.lookup s⟩ ∧
    Matches (m.erase s) (raxRemove rax s).1 := by
  have hsorted := sorted_contents h.valid.shaped
  obtain ⟨hv, ⟨heq, hs, hsame⟩ | ⟨v, heq, hadds⟩⟩ := raxRemove_spec h.valid s
  · rw [heq, h.represents.lookup_none hs]
    refine ⟨rfl, hv, ?_⟩
    intro k w
    rw [hsame]
    by_cases hk : k = s
    · subst hk
      rw [AList.lookup_erase]
      simp only [reduceCtorEq, iff_false]
      exact fun hmem => hs (mem_map_of_mem hmem)
    · rw [AList.lookup_erase_ne hk]
      exact h.represents k w
  · rw [heq, h.represents.lookup_some hadds]
    exact ⟨rfl, hv, h.represents.erase hadds hsorted⟩

/-- Every call does to the tree what it does to the map. -/
lemma call_spec (h : Matches m rax) (c : Call V) :
    ∃ rax', call rax c = some (rax', (mapCall m c).2) ∧ Matches (mapCall m c).1 rax' := by
  cases c with
  | insert s data =>
    obtain ⟨rax', reply, heq, hv, hputs⟩ := raxGenericInsert_spec h.valid s data true
    obtain ⟨rfl, hm⟩ := h.insert hv hputs
    exact ⟨rax', heq, hm⟩
  | tryInsert s data =>
    obtain ⟨rax', reply, heq, hv, hputs⟩ := raxGenericInsert_spec h.valid s data false
    obtain ⟨rfl, hm⟩ := h.insert hv hputs
    exact ⟨rax', heq, hm⟩
  | remove s =>
    obtain ⟨heq, hm⟩ := h.remove s
    exact ⟨_, by rw [call, mapCall, ← heq], hm⟩
  | find s => exact ⟨rax, by rw [call, mapCall, h.find s], h⟩

lemma matches_new : Matches (∅ : Map V) (raxNew : Rax V) := by
  refine ⟨⟨shaped_newNode, rfl, rfl⟩, ?_⟩
  intro s v
  simp [raxNew, raxNewNode, entries, edgesEntries, own, keyData, newHeader]

/-- What a radix tree that stands for a map is like. -/
structure Refines (m : Map V) (rax : Rax V) : Prop where
  find : ∀ s, raxFind rax s = ⟨(m.lookup s).isSome, m.lookup s⟩
  numele : rax.numele = m.keys.length
  numnodes : rax.numnodes = count rax.head
  increasing : All (fun _ header labels => header.iscompr = false →
    ∃ bytes : List UInt8, labels = bytes.map ([·]) ∧ Sorted bytes) true rax.head

lemma sorted_bytes {labels : List Bytes} (hpair : labels.Pairwise HeadLt)
    (hone : ∀ l ∈ labels, l.length = 1) :
    ∃ bytes : List UInt8, labels = bytes.map ([·]) ∧ Sorted bytes := by
  induction labels with
  | nil => exact ⟨[], rfl, List.Pairwise.nil⟩
  | cons l labels ih =>
    rw [pairwise_cons] at hpair
    obtain ⟨bytes, rfl, hsorted⟩ := ih hpair.2 fun l' hl' => hone l' (mem_cons_of_mem _ hl')
    obtain ⟨b, rfl⟩ := length_eq_one_iff.mp (hone l (mem_cons_self ..))
    refine ⟨b :: bytes, rfl, pairwise_cons.mpr ⟨?_, hsorted⟩⟩
    exact fun b' hb' => hpair.1 [b'] (mem_map_of_mem hb')

lemma Matches.refines (h : Matches m rax) : Refines m rax where
  find := h.find
  numele := h.valid.numele.trans (h.represents.length (sorted_contents h.valid.shaped))
  numnodes := h.valid.numnodes
  increasing := h.valid.shaped.mono fun _ _ _ hok hnormal =>
    sorted_bytes hok.ordered.2 (hok.normal hnormal)

lemma run_matches (calls : List (Call V)) :
    ∃ rax, run step (raxNew, []) calls = some (rax, (calls.foldl mapStep (∅, [])).2) ∧
    Matches (calls.foldl mapStep (∅, [])).1 rax := by
  have hstep : ∀ (a : Map V × List (Reply V)) (st : Rax V × List (Reply V)) c,
    (Matches a.1 st.1 ∧ a.2 = st.2) → ∃ st', step st c = some st' ∧
      (Matches (mapStep a c).1 st'.1 ∧ (mapStep a c).2 = st'.2) := by
    rintro ⟨m, replies⟩ ⟨rax, _⟩ c ⟨hm, rfl⟩
    obtain ⟨rax', hcall, hm'⟩ := call_spec hm c
    exact ⟨(rax', replies ++ [(mapCall m c).2]), by rw [step, hcall]; rfl, hm', rfl⟩
  obtain ⟨⟨rax, replies⟩, hrun, hm, hreplies⟩ :=
    run_simulation_total hstep (a := (∅, [])) (s := (raxNew, [])) ⟨matches_new, rfl⟩ calls
  exact ⟨rax, by rw [hrun, hreplies], hm⟩

/-- Any calls on a new radix tree: every one of them answers what it answers on a
finite map from strings to pointers, and in the end the tree stands for that map. -/
theorem rax_refines_map (calls : List (Call V)) :
    ∃ rax, run step (raxNew, []) calls = some (rax, (calls.foldl mapStep (∅, [])).2) ∧
      Refines (calls.foldl mapStep (∅, [])).1 rax := by
  obtain ⟨rax, hrun, hm⟩ := run_matches calls
  exact ⟨rax, hrun, hm.refines⟩

end Dice.Ports.RadixTreeRefinement
