import Dice.Verified.Run
import Dice.Ports.DictTable
import Dice.Verified.Chains

/-!
# The invariant of the hash table

Every key is in one entry of one table, in the bucket its hash gives; the
counters count; and what has been passed over in table 0 is empty.  Rehashing
and resizing only rearrange the entries: each function below that moves
entries is shown to succeed, to keep the invariant and to leave the entries
the same up to their order.
-/

namespace Dice.Ports.DictInvariant

open List Verified Run Chains DictTable Option
open Prod (fst)

variable {K V : Type}

/-- The bucket an entry belongs to in a table of the given size. -/
def position (type : DictType K) (exp : Int) (de : K × V) : Nat :=
  bucketIndex (type.dictHashKey de.1) exp

/-- What holds of each of the two tables. -/
structure TableOk (type : DictType K) (t : HashTable K V) : Prop where
  exp_ge : -1 ≤ t.sizeExp
  exp_le : t.sizeExp ≤ 63
  length_eq : t.table.length = dicthtSize t.sizeExp
  used_eq : t.used = t.entries.length
  placed : Placed (position type t.sizeExp) t.table

/-- What holds of a dict between operations. -/
structure DictOk (type : DictType K) (d : Dict K V) : Prop where
  ht0 : TableOk type d.ht0
  ht1 : TableOk type d.ht1
  keys_nodup : (d.entries.map fst).Nodup
  below_empty : ∀ (i : Nat) (chain : List (K × V)), (i : Int) < d.rehashidx →
    d.ht0.table[i]? = some chain → chain = []
  rehashidx_iff : d.rehashidx = -1 ↔ d.ht1.table = []
  rehashidx_ge : -1 ≤ d.rehashidx
  allocated : d.rehashidx ≠ -1 → d.ht0.table ≠ []
  autoResize : d.pauseAutoResize = 0

variable {exp : Int} {type : DictType K} {t : HashTable K V} {d : Dict K V} {idx : Nat}
  {chain : List (K × V)}

lemma dicthtSize_pos (h : exp ≠ -1) : 0 < dicthtSize exp := by
  rw [dicthtSize, if_neg h]
  exact Nat.two_pow_pos _

lemma bucketIndex_eq_mod (h : exp ≠ -1) (hash : Nat) :
    bucketIndex hash exp = hash % 2 ^ exp.toNat := by
  rw [bucketIndex, dicthtSizeMask, if_neg h, dicthtSize, if_neg h, Nat.and_two_pow_sub_one_eq_mod]

lemma bucketIndex_lt (h : exp ≠ -1) (hash : Nat) : bucketIndex hash exp < dicthtSize exp := by
  rw [bucketIndex_eq_mod h, dicthtSize, if_neg h]
  exact Nat.mod_lt _ (Nat.two_pow_pos _)

/-- The bucket in a smaller table is a function of the bucket in a larger one. -/
lemma bucketIndex_bucketIndex {exp₀ exp₁ : Int} (h0 : exp₀ ≠ -1) (h1 : exp₁ ≠ -1)
    (hle : exp₁ ≤ exp₀) (hash : Nat) :
    bucketIndex (bucketIndex hash exp₀) exp₁ = bucketIndex hash exp₁ := by
  rw [bucketIndex_eq_mod h0, bucketIndex_eq_mod h1, bucketIndex_eq_mod h1]
  apply Nat.mod_mod_of_dvd
  exact Nat.pow_dvd_pow 2 (by omega)

lemma TableOk.table_eq_nil_iff (h : TableOk type t) : t.table = [] ↔ t.sizeExp = -1 := by
  rw [← length_eq_zero_iff, h.length_eq, dicthtSize]
  split
  · simp [*]
  · simp [*]

lemma tableOk_reset (type : DictType K) : TableOk type (dictReset : HashTable K V) where
  exp_ge := Int.le_refl _
  exp_le := by
    show (-1 : Int) ≤ 63
    decide
  length_eq := rfl
  used_eq := rfl
  placed := placed_nil _

lemma tableOk_fresh (type : DictType K) (h : 0 ≤ exp) (hle : exp ≤ 63) :
    TableOk type (⟨replicate (dicthtSize exp) [], 0, exp⟩ : HashTable K V) where
  exp_ge := by
    show -1 ≤ exp
    omega
  exp_le := hle
  length_eq := by simp
  used_eq := by simp [HashTable.entries]
  placed := placed_replicate _ _

lemma TableOk.bucket (h : TableOk type t) (hexp : t.sizeExp ≠ -1) (hash : Nat) :
    ∃ chain, t.table[bucketIndex hash t.sizeExp]? = some chain := by
  have hlt : bucketIndex hash t.sizeExp < t.table.length := by
    rw [h.length_eq]
    exact bucketIndex_lt hexp hash
  exact ⟨_, getElem?_eq_getElem hlt⟩

lemma DictOk.exp₀_ne (h : DictOk type d) (hr : d.rehashidx ≠ -1) : d.ht0.sizeExp ≠ -1 :=
  fun he => h.allocated hr (h.ht0.table_eq_nil_iff.mpr he)

lemma DictOk.exp₁_ne (h : DictOk type d) (hr : d.rehashidx ≠ -1) : d.ht1.sizeExp ≠ -1 :=
  fun he => hr (h.rehashidx_iff.mpr (h.ht1.table_eq_nil_iff.mpr he))

/-- Replacing the chain of a bucket by one of the same position. -/
lemma TableOk.set (h : TableOk type t) {used : Nat}
    (hchain : ∀ de ∈ chain, position type t.sizeExp de = idx)
    (hused : used = (t.table.set idx chain).flatten.length) :
    TableOk type { t with table := t.table.set idx chain, used := used } where
  exp_ge := h.exp_ge
  exp_le := h.exp_le
  length_eq := by rw [length_set, h.length_eq]
  used_eq := hused
  placed := h.placed.set hchain

lemma insertHead_spec (h : TableOk type t) (hexp : t.sizeExp ≠ -1) (de : K × V)
    (hidx : idx = position type t.sizeExp de) :
    ∃ t', t.insertHead idx de = some t' ∧ TableOk type t' ∧
    t'.sizeExp = t.sizeExp ∧ t'.entries.Perm (de :: t.entries) := by
  obtain ⟨chain, hchain⟩ := h.bucket hexp (type.dictHashKey de.1)
  change t.table[position type t.sizeExp de]? = some chain at hchain
  rw [← hidx] at hchain
  have hperm := flatten_set_append hchain [de]
  have heq : t.insertHead idx de = some
    { t with table := t.table.set idx (de :: chain), used := t.used + 1 } := by
    rw [HashTable.insertHead, hchain]
    rfl
  refine ⟨_, heq, h.set ?_ ?_, rfl, hperm⟩
  · intro e he
    rcases mem_cons.mp he with rfl | he
    · exact hidx.symm
    · exact h.placed idx chain hchain e he
  · rw [h.used_eq]
    exact hperm.length_eq.symm

/-- A table in which the empty buckets of `t` are empty still. -/
def KeepsEmpty (t t' : HashTable K V) : Prop :=
  ∀ i : Nat, t.table[i]? = some [] → t'.table[i]? = some []

lemma keepsEmpty_set {used : Nat} {chain' : List (K × V)}
    (hchain : t.table[idx]? = some chain) (hne : chain ≠ []) :
    KeepsEmpty t { t with table := t.table.set idx chain', used := used } := by
  intro i hi
  rw [getElem?_set_ne, hi]
  intro hidx
  rw [hidx, hi] at hchain
  exact hne (some.inj hchain).symm

section Keys

variable [DecidableEq K]

variable {key : K} {chain : List (K × V)} {he : K × V}

/-- The chain around the entry of a key. -/
lemma findInChain_split (h : findInChain key chain = some he) :
    he.1 = key ∧ ∃ pre post, chain = pre ++ he :: post ∧ ∀ e ∈ pre, e.1 ≠ key := by
  obtain ⟨hkey, pre, post, hsplit, hpre⟩ := find?_eq_some_iff_append.mp h
  refine ⟨by simpa using hkey, pre, post, hsplit, ?_⟩
  intro e he
  simpa using hpre e he

lemma eraseP_key {pre post : List (K × V)} (hkey : he.1 = key) (hpre : ∀ e ∈ pre, e.1 ≠ key) :
    (pre ++ he :: post).eraseP (fun e => e.1 = key) = pre ++ post := by
  rw [eraseP_append_right _ (by simpa using hpre)]
  simp [hkey]

lemma unlink_spec (h : TableOk type t)
    (hchain : t.table[idx]? = some chain) (hfind : findInChain key chain = some he) :
    ∃ t', t.unlink idx key = some t' ∧ TableOk type t' ∧ t'.sizeExp = t.sizeExp ∧
    KeepsEmpty t t' ∧ t.entries.Perm (he :: t'.entries) := by
  obtain ⟨hkey, pre, post, rfl, hpre⟩ := findInChain_split hfind
  have heq : t.unlink idx key = some
    { t with table := t.table.set idx (pre ++ post), used := t.used - 1 } := by
    rw [HashTable.unlink, hchain]
    simp [eraseP_key hkey hpre]
  have hperm : t.entries.Perm (he :: (t.table.set idx (pre ++ post)).flatten) := by
    have hout := flatten_perm hchain
    have hin := flatten_set_perm hchain (pre ++ post)
    refine hout.trans ((perm_middle.append_right _).trans ?_)
    exact hin.symm.cons he
  refine ⟨_, heq, h.set ?_ ?_, rfl, keepsEmpty_set hchain (by simp), hperm⟩
  · intro e hmem
    apply h.placed idx _ hchain e
    simp only [mem_append, mem_cons] at hmem ⊢
    exact hmem.imp_right .inr
  · rw [h.used_eq, hperm.length_eq]
    rfl

lemma map_setVal {val : V} (h : ∀ e ∈ chain, e.1 ≠ key) :
    chain.map (fun de => if de.1 = key then (de.1, val) else de) = chain := by
  conv_rhs => rw [← map_id chain]
  apply map_congr_left
  intro e he
  rw [if_neg (h e he), id]

/-- Setting the value of an entry whose key is in no other. -/
lemma setVal_spec (h : TableOk type t) (hnodup : (t.entries.map fst).Nodup) (val : V)
    (hchain : t.table[idx]? = some chain) (hfind : findInChain key chain = some he) :
    ∃ t' rest, t.setVal idx key val = some t' ∧ TableOk type t' ∧
    t'.sizeExp = t.sizeExp ∧ KeepsEmpty t t' ∧ t.entries.Perm (he :: rest) ∧
    t'.entries.Perm ((key, val) :: rest) := by
  obtain ⟨hkey, pre, post, rfl, hpre⟩ := findInChain_split hfind
  have hout : t.entries.Perm (he :: (pre ++ post ++ (t.table.eraseIdx idx).flatten)) :=
    (flatten_perm hchain).trans (perm_middle.append_right _)
  have hpost : ∀ e ∈ post, e.1 ≠ key := by
    intro e hmem heq
    have hnd := (hout.map fst).nodup_iff.mp hnodup
    rw [map_cons, nodup_cons] at hnd
    apply hnd.1
    rw [hkey, ← heq]
    exact mem_map_of_mem (by simp [hmem])
  have hmap : (pre ++ he :: post).map
    (fun de => if de.1 = key then (de.1, val) else de) = pre ++ (key, val) :: post := by
    rw [map_append, map_cons, map_setVal hpre, map_setVal hpost, if_pos hkey, hkey]
  have hin := (flatten_set_perm hchain (pre ++ (key, val) :: post)).trans
    (perm_middle.append_right _)
  have heq : t.setVal idx key val = some
    { t with table := t.table.set idx (pre ++ (key, val) :: post) } := by
    rw [HashTable.setVal, hchain]
    simp [hmap]
  refine ⟨_, _, heq, h.set ?_ ?_, rfl, keepsEmpty_set hchain (by simp), hout, hin⟩
  · intro e hmem
    simp only [mem_append, mem_cons] at hmem
    rcases hmem with hmem | rfl | hmem
    · exact h.placed idx _ hchain e (by simp [hmem])
    · have := h.placed idx _ hchain he (by simp)
      rwa [position, hkey] at this
    · exact h.placed idx _ hchain e (by simp [hmem])
  · rw [h.used_eq, hout.length_eq, hin.length_eq]
    rfl

end Keys

/-! ## Rehashing -/

/-- `d'` holds the entries of `d`, arranged in another way. -/
structure Rearranged (type : DictType K) (d d' : Dict K V) : Prop where
  ok : DictOk type d'
  entries : d'.entries.Perm d.entries
  pauserehash : d'.pauserehash = d.pauserehash
  allocated : d.ht0.table ≠ [] → d'.ht0.table ≠ []
  index : d'.rehashidx ≤ 0 ∨ d'.ht0.sizeExp = d.ht0.sizeExp

lemma Rearranged.refl (h : DictOk type d) : Rearranged type d d :=
  ⟨h, List.Perm.refl _, rfl, id, .inr rfl⟩

lemma Rearranged.trans {d' d'' : Dict K V}
    (h : Rearranged type d d') (hexp : d'.ht0.sizeExp = d.ht0.sizeExp)
    (h' : Rearranged type d' d'') : Rearranged type d d'' where
  ok := h'.ok
  entries := h'.entries.trans h.entries
  pauserehash := h'.pauserehash.trans h.pauserehash
  allocated := fun hne => h'.allocated (h.allocated hne)
  index := h'.index.imp_right fun he => he.trans hexp

/-- The entries of a bucket go to the buckets of table 1 they belong to, whether
the table grows or shrinks. -/
lemma moveEntries_spec {es : List (K × V)} (hexp0 : d.ht0.sizeExp ≠ -1) (hok : TableOk type d.ht1)
    (hexp1 : d.ht1.sizeExp ≠ -1) (hpos : ∀ de ∈ es, position type d.ht0.sizeExp de = idx) :
    ∃ ht1, es.foldlM (moveEntry type idx) d = some
      { d with ht0 := { d.ht0 with used := d.ht0.used - es.length }, ht1 := ht1 } ∧
    TableOk type ht1 ∧ ht1.sizeExp = d.ht1.sizeExp ∧
    ht1.entries.Perm (es ++ d.ht1.entries) := by
  induction es generalizing d with
  | nil => exact ⟨d.ht1, rfl, hok, rfl, List.Perm.refl _⟩
  | cons de es ih =>
    have hidx : (if d.ht1.sizeExp > d.ht0.sizeExp then
      bucketIndex (type.dictHashKey de.1) d.ht1.sizeExp
      else bucketIndex idx d.ht1.sizeExp) = position type d.ht1.sizeExp de := by
      split
      · rfl
      · rw [← hpos de (by simp)]
        exact bucketIndex_bucketIndex hexp0 hexp1 (by omega) _
    obtain ⟨t, hins, htok, hexp, hperm⟩ := insertHead_spec hok hexp1 de hidx
    have hmove : moveEntry type idx d de = some
      { d with ht0 := { d.ht0 with used := d.ht0.used - 1 }, ht1 := t } := by
      simp [moveEntry, hins]
    obtain ⟨ht1, hrun, hok', hexp', hperm'⟩ :=
      @ih { d with ht0 := { d.ht0 with used := d.ht0.used - 1 }, ht1 := t } hexp0 htok
        (by rwa [hexp]) (fun e he => hpos e (by simp [he]))
    refine ⟨ht1, ?_, hok', hexp'.trans hexp, ?_⟩
    · rw [foldlM_cons, hmove]
      simp only [some_bind, hrun, length_cons]
      congr 3
      omega
    · refine hperm'.trans ((hperm.append_left es).trans ?_)
      exact perm_middle

section

variable (h : DictOk type d) (hr : d.rehashidx ≠ -1)

include h hr

lemma rehashEntries_spec (hchain : d.ht0.table[idx]? = some chain) :
    ∃ d', rehashEntriesInBucketAtIndex type d idx = some d' ∧ Rearranged type d d' ∧
    d'.rehashidx = d.rehashidx ∧ d'.ht0.sizeExp = d.ht0.sizeExp ∧
    d'.ht1.sizeExp = d.ht1.sizeExp ∧ d'.ht0.table = d.ht0.table.set idx [] := by
  obtain ⟨ht1, hrun, hok, hexp, hperm⟩ :=
    moveEntries_spec (h.exp₀_ne hr) h.ht1 (h.exp₁_ne hr) (h.ht0.placed idx chain hchain)
  have hout : d.ht0.entries.Perm (chain ++ (d.ht0.table.set idx []).flatten) :=
    flatten_set_nil hchain
  have hentries : ((d.ht0.table.set idx []).flatten ++ ht1.entries).Perm d.entries := by
    refine (hperm.append_left _).trans ?_
    rw [← append_assoc]
    exact (perm_append_comm.trans hout.symm).append_right _
  have heq : rehashEntriesInBucketAtIndex type d idx = some
    { d with
      ht0 := { d.ht0 with
        table := d.ht0.table.set idx [], used := d.ht0.used - chain.length }
      ht1 := ht1 } := by
    simp [rehashEntriesInBucketAtIndex, hchain, hrun]
  have hne : d.ht0.table.set idx [] ≠ [] := by simpa using h.allocated hr
  refine ⟨_, heq, ⟨?_, hentries, rfl, fun _ => hne, .inr rfl⟩, rfl, rfl, hexp, rfl⟩
  refine ⟨h.ht0.set (by simp) ?_, hok, ?_, ?_, ?_, h.rehashidx_ge, fun _ => hne, h.autoResize⟩
  · rw [h.ht0.used_eq, hout.length_eq, length_append]
    omega
  · exact ((hentries.map fst).nodup_iff).mpr h.keys_nodup
  · intro i c hi hc
    rcases getElem?_set_cases hc with ⟨_, hc⟩ | ⟨_, hc⟩
    · exact hc
    · exact h.below_empty i c hi hc
  · rw [hok.table_eq_nil_iff, hexp, ← h.ht1.table_eq_nil_iff]
    exact h.rehashidx_iff

/-- The tables change places when nothing is left in table 0. -/
lemma checkRehashingCompleted_spec : Rearranged type d (dictCheckRehashingCompleted d).2 ∧
    ((dictCheckRehashingCompleted d).1 → (dictCheckRehashingCompleted d).2.rehashidx = -1) ∧
    ((dictCheckRehashingCompleted d).1 = false →
      (dictCheckRehashingCompleted d).2 = d ∧ d.ht0.used ≠ 0) := by
  rw [dictCheckRehashingCompleted]
  split
  next hused => exact ⟨Rearranged.refl h, by simp, fun _ => ⟨rfl, hused⟩⟩
  next hused =>
    have hempty : d.ht0.entries = [] := by
      rw [← length_eq_zero_iff, ← h.ht0.used_eq]
      omega
    have hentries : (d.ht1.entries ++ (dictReset : HashTable K V).entries) = d.entries := by
      show d.ht1.entries ++ [] = d.ht0.entries ++ d.ht1.entries
      rw [hempty, append_nil, nil_append]
    have hne : d.ht1.table ≠ [] := fun he => hr (h.rehashidx_iff.mpr he)
    refine ⟨⟨?_, ?_, rfl, fun _ => hne, .inl (by simp)⟩, by simp, by simp⟩
    · refine ⟨h.ht1, tableOk_reset type, ?_, ?_, ?_, ?_, ?_, h.autoResize⟩
      · show ((d.ht1.entries ++ (dictReset : HashTable K V).entries).map fst).Nodup
        rw [hentries]
        exact h.keys_nodup
      · intro i c hi
        exact absurd hi (by simp only; omega)
      · simp [dictReset]
      · simp
      · simp
    · show (d.ht1.entries ++ (dictReset : HashTable K V).entries).Perm d.entries
      rw [hentries]
omit h hr in
lemma skipEmptyBuckets_spec {j : Nat} {e : K × V}
    (hj : t.table[j]? = some (e :: chain)) (visits idx : Nat) (hle : idx ≤ j) :
    ∃ idx' left, skipEmptyBuckets t visits idx = some (idx', left) ∧
    idx ≤ idx' ∧ idx' ≤ j ∧ (∀ i, idx ≤ i → i < idx' → t.table[i]? = some []) ∧
    (left = 0 → visits ≠ 0 → idx < idx') := by
  induction visits generalizing idx with
  | zero => exact ⟨idx, 0, rfl, Nat.le_refl _, hle, fun i _ _ => by omega, by simp⟩
  | succ visits ih =>
    have hlt : idx < t.table.length := by
      have := (List.getElem?_eq_some_iff.mp hj).1
      omega
    have hget := getElem?_eq_getElem hlt
    cases hchain : t.table[idx] with
    | nil =>
      rw [hchain] at hget
      have hne : idx ≠ j := by
        intro hij
        rw [hij, hj] at hget
        cases hget
      obtain ⟨idx', left, hskip, hle1, hle2, hempty, _⟩ := ih (idx + 1) (by omega)
      refine ⟨idx', left, ?_, by omega, hle2, ?_, by omega⟩
      · simp [skipEmptyBuckets, hget, hskip]
      intro i hi hi'
      rcases Nat.eq_or_lt_of_le hi with rfl | hi
      · exact hget
      · exact hempty i hi hi'
    | cons e' chain' =>
      rw [hchain] at hget
      refine ⟨idx, visits + 1, ?_, Nat.le_refl _, hle, fun i _ _ => by omega, by omega⟩
      simp [skipEmptyBuckets, hget]

omit hr in
/-- While table 0 has entries, one is in a bucket not passed over yet. -/
lemma DictOk.exists_remaining (hused : d.ht0.used ≠ 0) :
    ∃ (j : Nat) (e : K × V) (chain : List (K × V)),
    d.ht0.table[j]? = some (e :: chain) ∧ d.rehashidx ≤ j := by
  have hne : d.ht0.table.flatten ≠ [] := by
    intro hnil
    apply hused
    rw [h.ht0.used_eq, HashTable.entries, hnil]
    rfl
  obtain ⟨e, he⟩ := exists_mem_of_ne_nil _ hne
  obtain ⟨chain, hchain, hmem⟩ := mem_flatten.mp he
  obtain ⟨j, hj⟩ := getElem?_of_mem hchain
  cases chain with
  | nil => simp at hmem
  | cons e' chain =>
    refine ⟨j, e', chain, hj, ?_⟩
    apply Int.not_lt.mp
    intro hlt
    cases h.below_empty j _ hlt hj

/-- `rehashidx` may be moved over empty buckets. -/
lemma DictOk.advance (hempty : ∀ (i : Nat) (chain : List (K × V)), d.rehashidx ≤ i → i < idx →
    d.ht0.table[i]? = some chain → chain = []) :
    Rearranged type d { d with rehashidx := idx } := by
  refine ⟨⟨h.ht0, h.ht1, h.keys_nodup, ?_, ?_, ?_, fun _ => h.allocated hr, h.autoResize⟩,
    List.Perm.refl _, rfl, id, .inr rfl⟩
  · intro i chain hi hchain
    by_cases hlt : (i : Int) < d.rehashidx
    · exact h.below_empty i chain hlt hchain
    · exact hempty i chain (by omega) (by simpa using hi) hchain
  · show (idx : Int) = -1 ↔ _
    rw [← h.rehashidx_iff]
    constructor
    · omega
    · exact fun he => absurd he hr
  · show -1 ≤ (idx : Int)
    omega

end

/-- What is left of a rehash that is not over. -/
structure Unfinished (d d' : Dict K V) : Prop where
  rehashing : d'.rehashidx ≠ -1
  exp₀ : d'.ht0.sizeExp = d.ht0.sizeExp
  exp₁ : d'.ht1.sizeExp = d.ht1.sizeExp
  used : d'.ht0.used ≠ 0

lemma rehashEnd_spec (h : DictOk type d) (hr : d.rehashidx ≠ -1) :
    ∃ more d', ((dictCheckRehashingCompleted d).1 = !more ∧
      (dictCheckRehashingCompleted d).2 = d') ∧ Rearranged type d d' ∧
    (more = false → d'.rehashidx = -1) ∧ (more → d' = d ∧ Unfinished d d') := by
  obtain ⟨hre, hdone, hnot⟩ := checkRehashingCompleted_spec h hr
  refine ⟨!(dictCheckRehashingCompleted d).1, _, ⟨by simp, rfl⟩, hre, ?_, ?_⟩
  · intro hm
    exact hdone (by simpa using hm)
  · intro hm
    obtain ⟨heq, hused⟩ := hnot (by simpa using hm)
    exact ⟨heq, by rw [heq]; exact ⟨hr, rfl, rfl, hused⟩⟩

section

variable (policy : Policy)

/-- `dictRehash` moves entries, and unless it is done it has moved on. -/
lemma rehashLoop_spec (n visits : Nat)
    (h : DictOk type d) (hr : d.rehashidx ≠ -1) (hvisits : n ≠ 0 → visits ≠ 0) :
    ∃ more d', rehashLoop type n visits d = some (more, d') ∧ Rearranged type d d' ∧
    (more = false → d'.rehashidx = -1) ∧
    (more → Unfinished d d' ∧ d.rehashidx ≤ d'.rehashidx ∧
      (n ≠ 0 → d.rehashidx < d'.rehashidx)) := by
  induction n generalizing visits d with
  | zero =>
    obtain ⟨more, d', ⟨hfst, hsnd⟩, hre, hdone, hnot⟩ := rehashEnd_spec h hr
    refine ⟨more, d', ?_, hre, hdone, ?_⟩
    · simp [rehashLoop, hfst, hsnd]
    · intro hm
      obtain ⟨heq, hun⟩ := hnot hm
      exact ⟨hun, by rw [heq], by simp⟩
  | succ n ih =>
    by_cases hused : d.ht0.used = 0
    · obtain ⟨more, d', ⟨hfst, hsnd⟩, hre, hdone, hnot⟩ := rehashEnd_spec h hr
      refine ⟨more, d', ?_, hre, hdone, ?_⟩
      · simp [rehashLoop, hused, hfst, hsnd]
      · intro hm
        obtain ⟨heq, hun⟩ := hnot hm
        exact absurd (heq ▸ hused) hun.used
    obtain ⟨j, e, chain, hj, hle⟩ := h.exists_remaining hused
    have hlen : j < dicthtSize d.ht0.sizeExp := by
      rw [← h.ht0.length_eq]
      exact (List.getElem?_eq_some_iff.mp hj).1
    obtain ⟨idx, left, hskip, hle1, hle2, hempty, hmoved⟩ :=
      skipEmptyBuckets_spec hj visits d.rehashidx.toNat (by omega)
    have hassert : ¬ (dicthtSize d.ht0.sizeExp : Int) ≤ d.rehashidx := by omega
    have hempty' : ∀ (i : Nat) (c : List (K × V)), d.rehashidx ≤ i → i < idx →
      d.ht0.table[i]? = some c → c = [] := by
      intro i c hi hi' hc
      rw [hempty i (by omega) hi'] at hc
      exact (some.inj hc).symm
    by_cases hleft : left = 0
    · -- the visits ran out on empty buckets
      refine ⟨true, { d with rehashidx := idx }, ?_, h.advance hr hempty', by simp, ?_⟩
      · simp [rehashLoop, hused, hassert, hskip, hleft]
      intro _
      refine ⟨⟨?_, rfl, rfl, hused⟩, ?_, fun _ => ?_⟩
      · show (idx : Int) ≠ -1
        omega
      · show d.rehashidx ≤ (idx : Int)
        omega
      · show d.rehashidx < (idx : Int)
        omega
    have hlt : idx < d.ht0.table.length := by
      rw [h.ht0.length_eq]
      omega
    obtain ⟨d1, hmove, hre, hidx1, hexp0, hexp1, htable⟩ :=
      rehashEntries_spec h hr (getElem?_eq_getElem hlt)
    have hr1 : d1.rehashidx ≠ -1 := by rwa [hidx1]
    have hadv : Rearranged type d1 { d1 with rehashidx := ((idx + 1 : Nat) : Int) } := by
      apply hre.ok.advance hr1
      intro i c hi hi' hc
      rw [htable] at hc
      rcases getElem?_set_cases hc with ⟨_, hc⟩ | ⟨hne, hc⟩
      · exact hc
      · exact hempty' i c (by omega) (by omega) hc
    obtain ⟨more, d', hloop, hre', hdone, hnot⟩ := @ih
      { d1 with rehashidx := ((idx + 1 : Nat) : Int) } left hadv.ok (by simp only; omega)
      (fun _ => hleft)
    refine ⟨more, d', ?_, (hre.trans hexp0 hadv).trans hexp0 hre', hdone, ?_⟩
    · simp only [rehashLoop, if_neg hused, if_neg hassert, hskip, some_bind, if_neg hleft, hmove]
      exact hloop
    intro hm
    obtain ⟨hun, hle', _⟩ := hnot hm
    simp only at hle'
    exact ⟨⟨hun.rehashing, hun.exp₀.trans hexp0, hun.exp₁.trans hexp1, hun.used⟩,
      by omega, fun _ => by omega⟩

lemma isRehashing_iff : d.isRehashing ↔ d.rehashidx ≠ -1 := by
  simp [Dict.isRehashing]

lemma rehashing_of_not_refused {policy : Policy}
    (h : rehashRefused policy d = false) : d.rehashidx ≠ -1 := by
  simp only [rehashRefused, Bool.or_eq_false_iff] at h
  rw [← isRehashing_iff]
  simpa using h.1.2

section

variable (h : DictOk type d)

include h

lemma dictRehash_spec (n : Nat) :
    ∃ more d', dictRehash type policy d n = some (more, d') ∧ Rearranged type d d' := by
  rw [dictRehash]
  cases href : rehashRefused policy d with
  | true => exact ⟨false, d, rfl, Rearranged.refl h⟩
  | false =>
    obtain ⟨more, d', hloop, hre, _⟩ :=
      rehashLoop_spec n (n * 10) h (rehashing_of_not_refused href) (by omega)
    exact ⟨more, d', hloop, hre⟩

lemma dictRehashStep_spec :
    ∃ d', dictRehashStep type policy d = some d' ∧ Rearranged type d d' := by
  rw [dictRehashStep]
  split
  · obtain ⟨more, d', heq, hre⟩ := dictRehash_spec policy h 1
    exact ⟨d', by rw [heq]; rfl, hre⟩
  · exact ⟨d, rfl, Rearranged.refl h⟩

lemma dictBucketRehash_spec (hchain : d.ht0.table[idx]? = some chain) :
    ∃ d', dictBucketRehash type policy d idx = some d' ∧ Rearranged type d d' := by
  rw [dictBucketRehash]
  split
  · exact ⟨d, rfl, Rearranged.refl h⟩
  cases href : rehashRefused policy d with
  | true => exact ⟨d, rfl, Rearranged.refl h⟩
  | false =>
    obtain ⟨d1, hmove, hre, hidx, hexp, _⟩ :=
      rehashEntries_spec h (rehashing_of_not_refused href) hchain
    have hre' := (checkRehashingCompleted_spec hre.ok
      (by rw [hidx]; exact rehashing_of_not_refused href)).1
    refine ⟨_, ?_, hre.trans hexp hre'⟩
    simp only [hmove]
    rfl

lemma rehashOnLookup_spec (hash : Nat) :
    ∃ d', rehashOnLookup type policy d (bucketIndex hash d.ht0.sizeExp) = some d' ∧
    Rearranged type d d' := by
  rw [rehashOnLookup]
  split
  next hr =>
    split
    · obtain ⟨chain, hchain⟩ := h.ht0.bucket (h.exp₀_ne (isRehashing_iff.mp hr)) hash
      simp only [hchain]
      cases chain with
      | nil => exact dictRehashStep_spec policy h
      | cons e chain => exact dictBucketRehash_spec policy h hchain
    · exact dictRehashStep_spec policy h
  next => exact ⟨d, rfl, Rearranged.refl h⟩

lemma rehashOnLookup_paused (hpause : d.pauserehash ≠ 0) (hash : Nat) :
    rehashOnLookup type policy d (bucketIndex hash d.ht0.sizeExp) = some d := by
  have hstep : dictRehashStep type policy d = some d := by rw [dictRehashStep, if_neg hpause]
  rw [rehashOnLookup]
  split
  next hr =>
    split
    · obtain ⟨chain, hchain⟩ := h.ht0.bucket (h.exp₀_ne (isRehashing_iff.mp hr)) hash
      simp only [hchain]
      cases chain with
      | nil => exact hstep
      | cons e chain => exact if_pos hpause
    · exact hstep
  next => rfl

/-! ## Resizing -/

omit h in
/-- The rehash of a type without incremental rehashing runs to its end. -/
lemma rehashAll_spec {policy : Policy} (fuel : Nat)
    (h : DictOk type d) (href : rehashRefused policy d = false) (hused : d.ht0.used ≠ 0)
    (hfuel : (dicthtSize d.ht0.sizeExp : Int) - d.rehashidx < fuel) :
    ∃ d', rehashAll type policy fuel d = some d' ∧ Rearranged type d d' ∧ d'.rehashidx = -1 := by
  induction fuel generalizing d with
  | zero =>
    obtain ⟨j, e, chain, hj, hle⟩ := h.exists_remaining hused
    have hlt := (List.getElem?_eq_some_iff.mp hj).1
    rw [h.ht0.length_eq] at hlt
    omega
  | succ fuel ih =>
    have hr := rehashing_of_not_refused href
    obtain ⟨more, d1, hloop, hre, hdone, hnot⟩ := rehashLoop_spec 1000 (1000 * 10) h hr (by omega)
    have hround : dictRehash type policy d 1000 = some (more, d1) := by
      rw [dictRehash, href]
      exact hloop
    cases more with
    | false =>
      refine ⟨d1, ?_, hre, hdone rfl⟩
      simp [rehashAll, hround]
    | true =>
      obtain ⟨hun, _, hmoved⟩ := hnot rfl
      have href1 : rehashRefused policy d1 = false := by
        rw [← href]
        simp [rehashRefused, hun.exp₀, hun.exp₁, isRehashing_iff.mpr hun.rehashing,
          isRehashing_iff.mpr hr]
      obtain ⟨d', hall, hre', hend⟩ := ih hre.ok href1 hun.used
        (by rw [hun.exp₀]; push_cast at hfuel; omega)
      refine ⟨d', ?_, hre.trans hun.exp₀ hre', hend⟩
      simp [rehashAll, hround, hall]

omit h in
lemma dictNextExp_nonneg (size : Nat) : 0 ≤ dictNextExp size := by
  rw [dictNextExp]
  split
  · decide
  · split
    · decide
    · omega

omit h in
lemma dictNextExp_le (size : Nat) : dictNextExp size ≤ 63 := by
  rw [dictNextExp]
  split
  · decide
  split
  · decide
  next hsize =>
    have hpos : 0 < dictHtInitialSize := by decide
    have hlog : (size - 1).log2 < 63 := by
      rw [Nat.log2_lt (by omega)]
      omega
    omega

omit h in
lemma fresh_ne_nil (h : 0 ≤ exp) : replicate (dicthtSize exp) ([] : List (K × V)) ≠ [] := by
  have := dicthtSize_pos (show exp ≠ -1 by omega)
  simp only [ne_eq, replicate_eq_nil_iff]
  omega

lemma DictOk.renew (hr : d.rehashidx = -1) (hused : d.ht0.used = 0) (hexp : 0 ≤ exp)
    (hle : exp ≤ 63) :
    Rearranged type d { d with
    ht0 := ⟨replicate (dicthtSize exp) [], 0, exp⟩, ht1 := dictReset
    rehashidx := -1 } := by
  have hnil : d.entries = [] := by
    have h0 : d.ht0.entries = [] := by rw [← length_eq_zero_iff, ← h.ht0.used_eq, hused]
    rw [Dict.entries, h0, HashTable.entries, h.rehashidx_iff.mp hr]
    rfl
  have hentries : (replicate (dicthtSize exp) ([] : List (K × V))).flatten ++
    (dictReset : HashTable K V).entries = [] := by
    simp [HashTable.entries, dictReset]
  have hne : replicate (dicthtSize exp) ([] : List (K × V)) ≠ [] := fresh_ne_nil hexp
  refine ⟨⟨tableOk_fresh type hexp hle, tableOk_reset type, ?_, ?_, ?_, ?_, ?_,
    h.autoResize⟩, ?_, rfl, fun _ => hne, .inl (by simp)⟩
  · show (((replicate _ _).flatten ++ _).map fst).Nodup
    rw [hentries]
    exact nodup_nil
  · intro i c hi
    exact absurd hi (by simp only; omega)
  · simp [dictReset]
  · simp
  · simp
  · show ((replicate _ _).flatten ++ _).Perm d.entries
    rw [hentries, hnil]

/-- A second table is prepared for the entries of the first. -/
lemma DictOk.startRehash (hr : d.rehashidx = -1) (hne : d.ht0.table ≠ []) (hexp : 0 ≤ exp)
    (hle : exp ≤ 63) :
    Rearranged type d { d with
    ht1 := ⟨replicate (dicthtSize exp) [], 0, exp⟩, rehashidx := 0 } := by
  have hentries : (⟨replicate (dicthtSize exp) [], 0, exp⟩ : HashTable K V).entries =
    d.ht1.entries := by
    simp [HashTable.entries, h.rehashidx_iff.mp hr]
  have hsame : d.ht0.entries ++
    (⟨replicate (dicthtSize exp) [], 0, exp⟩ : HashTable K V).entries = d.entries := by
    rw [hentries, Dict.entries]
  have hne1 : replicate (dicthtSize exp) ([] : List (K × V)) ≠ [] := fresh_ne_nil hexp
  refine ⟨⟨h.ht0, tableOk_fresh type hexp hle, ?_, ?_, ?_, ?_, fun _ => hne,
    h.autoResize⟩, ?_, rfl, id, .inl (by simp)⟩
  · show ((d.ht0.entries ++ _).map fst).Nodup
    rw [hsame]
    exact h.keys_nodup
  · intro i c hi
    exact absurd hi (by simp only; omega)
  · simp only [hne1, iff_false]
    omega
  · simp
  · show (d.ht0.entries ++ _).Perm d.entries
    rw [hsame]

lemma dictResize_spec (hr : d.rehashidx = -1) (size : Nat) :
    ∃ resized d', dictResize type policy d size = some (resized, d') ∧
    Rearranged type d d' ∧ d'.rehashidx ≤ 0 := by
  have hnot : ¬ (d.isRehashing) := by simp [Dict.isRehashing, hr]
  have hsame : d.rehashidx ≤ 0 := by omega
  rw [dictResize, if_neg hnot]
  dsimp only
  split
  · exact ⟨false, d, rfl, Rearranged.refl h, hsame⟩
  split
  · exact ⟨false, d, rfl, Rearranged.refl h, hsame⟩
  have hexp := dictNextExp_nonneg size
  have hle := dictNextExp_le size
  split
  next hempty =>
    have hused : d.ht0.used = 0 := by
      simp only [Bool.or_eq_true, List.isEmpty_iff, decide_eq_true_eq] at hempty
      rcases hempty with hempty | hused
      · rw [h.ht0.used_eq, HashTable.entries, hempty]
        rfl
      · exact hused
    exact ⟨true, _, rfl, h.renew hr hused hexp hle, by simp⟩
  next hempty =>
    simp only [Bool.or_eq_true, List.isEmpty_iff, decide_eq_true_eq, not_or] at hempty
    have hstart := h.startRehash hr hempty.1 hexp hle
    split
    · cases href : rehashRefused policy { d with
        ht1 := ⟨List.replicate (dicthtSize (dictNextExp size)) [], 0, dictNextExp size⟩
        rehashidx := 0 } with
      | true =>
        refine ⟨true, _, ?_, hstart, by simp⟩
        simp [rehashAll, dictRehash, href]
      | false =>
        obtain ⟨d', hall, hre, hend⟩ := rehashAll_spec
          (dicthtSize d.ht0.sizeExp + 1) hstart.ok href hempty.2
          (by simp only; push_cast; omega)
        refine ⟨true, d', by rw [hall]; rfl, hstart.trans rfl hre, by omega⟩
    · exact ⟨true, _, rfl, hstart, by simp⟩

lemma dictExpand_spec (size : Nat) :
    ∃ resized d', dictExpand type policy d size = some (resized, d') ∧
    Rearranged type d d' ∧ (d.rehashidx = -1 → d'.rehashidx ≤ 0) := by
  rw [dictExpand]
  split
  · exact ⟨false, d, rfl, Rearranged.refl h, by omega⟩
  next hno =>
    simp only [Bool.or_eq_true, not_or, isRehashing_iff, not_not] at hno
    obtain ⟨resized, d', heq, hre, hidx⟩ := dictResize_spec policy h hno.1.1 size
    exact ⟨resized, d', heq, hre, fun _ => hidx⟩

lemma dictShrink_spec (size : Nat) :
    ∃ resized d', dictShrink type policy d size = some (resized, d') ∧ Rearranged type d d' := by
  rw [dictShrink]
  split
  · exact ⟨false, d, rfl, Rearranged.refl h⟩
  next hno =>
    simp only [Bool.or_eq_true, not_or, isRehashing_iff, not_not] at hno
    obtain ⟨resized, d', heq, hre, _⟩ := dictResize_spec policy h hno.1.1 size
    exact ⟨resized, d', heq, hre⟩

/-- Before an insertion the table is there, and has not moved its buckets unless
it was rehashing before. -/
lemma dictExpandIfAutoResizeAllowed_spec :
    ∃ d', dictExpandIfAutoResizeAllowed type policy d = some d' ∧ Rearranged type d d' ∧
    (d' = d ∨ d'.rehashidx ≤ 0) ∧ d'.ht0.table ≠ [] := by
  rw [dictExpandIfAutoResizeAllowed, if_neg (by rw [h.autoResize]; omega), dictExpandIfNeeded]
  split
  next hr => exact ⟨d, rfl, Rearranged.refl h, .inl rfl, h.allocated (isRehashing_iff.mp hr)⟩
  next hr =>
    rw [isRehashing_iff, not_not] at hr
    split
    next hsize =>
      have hexp : d.ht0.sizeExp = -1 := by
        apply Classical.byContradiction
        intro hne
        have := dicthtSize_pos hne
        omega
      have htable := h.ht0.table_eq_nil_iff.mpr hexp
      have hused : d.ht0.used = 0 := by
        rw [h.ht0.used_eq, HashTable.entries, htable]
        rfl
      have hfirst : dictExpand type policy d dictHtInitialSize = some (true, { d with
        ht0 := ⟨replicate (dicthtSize dictHtInitialExp) [], 0, dictHtInitialExp⟩
        ht1 := dictReset, rehashidx := -1 }) := by
        simp [dictExpand, dictResize, Dict.isRehashing, hr, hexp, hused, dictNextExp, dicthtSize,
          dictHtInitialSize, dictHtInitialExp]
      refine ⟨_, by rw [hfirst]; rfl, h.renew hr hused (by decide) (by decide), .inr (by simp), ?_⟩
      exact fresh_ne_nil (by decide)
    next hsize =>
      have hne : d.ht0.table ≠ [] := by
        intro hnil
        rw [← h.ht0.length_eq, hnil] at hsize
        exact hsize rfl
      split
      · split
        · obtain ⟨resized, d', heq, hre, hidx⟩ := dictExpand_spec policy h (d.ht0.used + 1)
          exact ⟨d', by rw [heq]; rfl, hre, .inr (hidx hr), hre.allocated hne⟩
        · exact ⟨d, rfl, Rearranged.refl h, .inl rfl, hne⟩
      · exact ⟨d, rfl, Rearranged.refl h, .inl rfl, hne⟩

lemma dictShrinkIfAutoResizeAllowed_spec :
    ∃ d', dictShrinkIfAutoResizeAllowed type policy d = some d' ∧ Rearranged type d d' := by
  have hsame : ∃ d', some d = some d' ∧ Rearranged type d d' := ⟨d, rfl, Rearranged.refl h⟩
  rw [dictShrinkIfAutoResizeAllowed]
  split
  · exact hsame
  rw [dictShrinkIfNeeded]
  split
  · exact hsame
  split
  · exact hsame
  split
  · split
    · obtain ⟨resized, d', heq, hre⟩ := dictShrink_spec policy h d.ht0.used
      exact ⟨d', by rw [heq]; rfl, hre⟩
    · exact hsame
  · exact hsame

end

end

section

variable (h : DictOk type d)

include h

lemma DictOk.ht_ok (second : Bool) : TableOk type (d.ht second) := by
  cases second with
  | false => exact h.ht0
  | true => exact h.ht1
omit h in
lemma setHt_pauserehash (d : Dict K V) (second : Bool) (t : HashTable K V) :
    (d.setHt second t).pauserehash = d.pauserehash := by
  cases second with
  | false => rfl
  | true => rfl

lemma DictOk.setPause (n : Int) : DictOk type { d with pauserehash := n } := { h with }
omit h in
lemma entries_perm_ht (d : Dict K V) (second : Bool) :
    d.entries.Perm ((d.ht second).entries ++ (d.ht !second).entries) := by
  cases second with
  | false => exact List.Perm.refl _
  | true => exact perm_append_comm
omit h in
lemma entries_setHt_perm (d : Dict K V) (second : Bool) (t : HashTable K V) :
    (d.setHt second t).entries.Perm (t.entries ++ (d.ht !second).entries) := by
  cases second with
  | false => exact List.Perm.refl _
  | true => exact perm_append_comm

/-- A dict stays in order when one of its tables is replaced by another of the
same size, in which no bucket that was passed over gets an entry. -/
lemma DictOk.setHt {second : Bool} (ht : TableOk type t) (hexp : t.sizeExp = (d.ht second).sizeExp)
    (hkeys : ((d.setHt second t).entries.map fst).Nodup)
    (hempty : d.rehashidx = -1 ∨ second ∨ KeepsEmpty (d.ht second) t) :
    DictOk type (d.setHt second t) := by
  cases second with
  | true =>
    refine { h with ht1 := ht, keys_nodup := hkeys, rehashidx_iff := ?_ }
    show d.rehashidx = -1 ↔ t.table = []
    rw [ht.table_eq_nil_iff, hexp, h.rehashidx_iff]
    exact h.ht1.table_eq_nil_iff
  | false =>
    refine ⟨ht, h.ht1, hkeys, ?_, h.rehashidx_iff, h.rehashidx_ge, ?_, h.autoResize⟩
    · intro i chain hi hchain
      change (i : Int) < d.rehashidx at hi
      change t.table[i]? = some chain at hchain
      have hkeep : KeepsEmpty d.ht0 t := by
        rcases hempty with hempty | hempty | hempty
        · omega
        · cases hempty
        · exact hempty
      have hlt : i < d.ht0.table.length := by
        have := (List.getElem?_eq_some_iff.mp hchain).1
        rw [ht.length_eq, hexp] at this
        rw [h.ht0.length_eq]
        exact this
      have hget := getElem?_eq_getElem hlt
      rw [h.below_empty i _ hi hget] at hget
      rw [hkeep i hget] at hchain
      exact (some.inj hchain).symm
    · intro hr hnil
      apply h.allocated hr
      rw [h.ht0.table_eq_nil_iff]
      rw [← ht.table_eq_nil_iff.mp hnil]
      exact hexp.symm

lemma DictOk.size_eq : d.size = d.entries.length := by
  rw [Dict.size, Dict.entries, length_append, h.ht0.used_eq, h.ht1.used_eq]

lemma DictOk.not_mem_of_size (hsize : d.size = 0) (key : K) (val : V) : (key, val) ∉ d.entries := by
  rw [h.size_eq, length_eq_zero_iff] at hsize
  simp [hsize]

lemma DictOk.allocated_of_size (hsize : d.size ≠ 0) : d.ht0.table ≠ [] := by
  intro hnil
  by_cases hr : d.rehashidx = -1
  · apply hsize
    rw [h.size_eq, Dict.entries, HashTable.entries, HashTable.entries, hnil, h.rehashidx_iff.mp hr]
    rfl
  · exact h.allocated hr hnil

end

/-- The index computed before the rehashing of a lookup is good enough after it. -/
lemma Rearranged.lookup_index {d' : Dict K V} (h : Rearranged type d d') (hash : Nat)
    (hlt : (bucketIndex hash d.ht0.sizeExp : Int) < d'.rehashidx) :
    bucketIndex hash d.ht0.sizeExp = bucketIndex hash d'.ht0.sizeExp := by
  rcases h.index with hidx | hexp
  · omega
  · rw [hexp]

end Dice.Ports.DictInvariant
