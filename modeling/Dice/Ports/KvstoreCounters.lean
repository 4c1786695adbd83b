import Dice.Ports.DictRefinement
import Dice.Ports.KvstoreDicts
import Dice.Verified.Fenwick

/-!
# The counters of the key-value store

The number of keys, the binary indexed tree and the number of dicts agree with
the dicts after every operation.  The number of dicts with keys is adjusted
from the size a dict has after the change alone: a dict that is left with one
key is taken for one that has just got its first.
-/

namespace Dice.Ports.KvstoreCounters

open Verified Run Fenwick DictTable DictInvariant DictRefinement KvstoreDicts List

variable {K V : Type}

lemma lowestBit_eq {idx : Nat} (hpos : 0 < idx) (hlt : idx < 2 ^ 32) :
    lowestBit idx = lowbit idx := by
  have hnat : (BitVec.ofNat 32 idx).toNat = idx := by rw [BitVec.toNat_ofNat, Nat.mod_eq_of_lt hlt]
  rw [lowestBit, toNat_and_neg _ (by rw [hnat]; exact hpos), hnat]

/-- The loop adds to the nodes that contain its first position. -/
lemma addLoop_spec {n : Nat} (hn : n ≤ 2 ^ 16) (delta : Int) (fuel p : Nat)
    (index : Nat → Int) (hp : 0 < p) (hfuel : n < p + fuel)
    (hassert : delta < 0 → ∀ i, i ≤ n → Covers i p → -delta ≤ index i) :
    ∃ index', addLoop n delta fuel p index = some index' ∧
    ∀ i, 0 < i → i ≤ n → index' i = index i + if Covers i p then delta else 0 := by
  have hdone : ∀ (p : Nat) (index : Nat → Int), n < p → ∀ i, 0 < i → i ≤ n →
    index i = index i + if Covers i p then delta else 0 := by
    intro p index hlt i _ hi
    rw [if_neg fun hc => by have := hc.2; omega, add_zero]
  induction fuel generalizing p index with
  | zero =>
    refine ⟨index, ?_, hdone p index (by omega)⟩
    rw [addLoop, if_neg (by omega)]
  | succ fuel ih =>
    by_cases hle : p ≤ n
    · have hlow : lowestBit p = lowbit p := lowestBit_eq hp (by omega)
      have hlowpos := lowbit_pos p
      have hself : Covers p p := by exact ⟨by omega, Nat.le_refl _⟩
      have hnot : ¬ Covers p (p + lowbit p) := by
        intro hc
        have := hc.2
        omega
      obtain ⟨index', hloop, hindex⟩ := ih (p + lowbit p)
        (fun i => if i = p then index p + delta else index i) (by omega) (by omega)
        (by
          intro hneg i hi hc
          have hne : i ≠ p := by
            intro he
            exact hnot (he ▸ hc)
          rw [if_neg hne]
          exact hassert hneg i hi ((covers_step hp i (by have := hc.2; omega)).mpr (.inr hc)))
      refine ⟨index', ?_, fun i hpos hi => ?_⟩
      · have hok : ¬ (delta < 0 ∧ index p < -delta) := by
          rintro ⟨hneg, hlt⟩
          have := hassert hneg p hle hself
          omega
        rw [addLoop, if_pos hle, if_neg hok, hlow]
        exact hloop
      · have hstep := covers_step hp i hpos
        rw [hindex i hpos hi]
        grind
    · refine ⟨index, ?_, hdone p index (by omega)⟩
      rw [addLoop, if_neg hle]

/-- The loop sums up the positions up to its first one. -/
lemma readLoop_spec {n : Nat} (hn : n ≤ 2 ^ 16) {f : Nat → Int} {index : Nat → Int}
    (htree : IsTree n (cumulative f) index) (fuel idx : Nat) (sum : Int) (hidx : idx ≤ n)
    (hfuel : idx ≤ fuel) : readLoop index fuel idx sum = some (sum + cumulative f idx) := by
  induction fuel generalizing idx sum with
  | zero =>
    have : idx = 0 := by omega
    subst this
    simp [readLoop]
  | succ fuel ih =>
    rcases Nat.eq_zero_or_pos idx with rfl | hpos
    · simp [readLoop]
    have hlow := lowbit_pos idx
    rw [readLoop, if_pos hpos, lowestBit_eq hpos (by omega),
      ih _ _ (by omega) (by omega), htree idx hpos hidx]
    congr 1
    omega

/-- The sizes of the dicts. -/
def sizes (kvs : Kvstore K V) (j : Nat) : Int := kvstoreDictSize kvs j

/-- The dicts are in order and counted. -/
structure DictsOk (type : DictType K) (kvs : Kvstore K V) : Prop where
  bits_le : kvs.numDictsBits ≤ 16
  dict_ok : ∀ j d, kvs.dicts j = some d → DictOk type d ∧ d.pauserehash = 0
  allocated_eq : kvs.allocatedDicts = (range kvs.numDicts).countP fun j => (kvs.dicts j).isSome

/-- The keys are counted. -/
structure KeysOk (kvs : Kvstore K V) : Prop where
  keyCount_eq : kvs.keyCount = cumulative (sizes kvs) kvs.numDicts
  index_tree : kvs.numDicts ≠ 1 → IsTree kvs.numDicts (cumulative (sizes kvs)) kvs.dictSizeIndex

/-- The dicts with keys are counted. -/
def NonEmptyOk (kvs : Kvstore K V) : Prop :=
  kvs.nonEmptyDicts = (range kvs.numDicts).countP fun j => kvstoreDictSize kvs j ≠ 0

variable {type : DictType K} {kvs kvs' : Kvstore K V} {didx bits : Nat} {d d' : Dict K V}

lemma numDicts_congr (hbits : kvs'.numDictsBits = kvs.numDictsBits) :
    kvs'.numDicts = kvs.numDicts := by
  rw [Kvstore.numDicts, hbits, Kvstore.numDicts]

lemma DictsOk.numDicts_le (h : DictsOk type kvs) : kvs.numDicts ≤ 2 ^ 16 :=
  Nat.pow_le_pow_right (by decide) h.bits_le

/-! ## Replacing a dict -/

lemma setDict_self (kvs : Kvstore K V) (didx : Nat) (d : Option (Dict K V)) :
    (kvs.setDict didx d).dicts didx = d := if_pos rfl

section

variable (kvs : Kvstore K V) {j : Nat} (d : Option (Dict K V))

lemma setDict_ne (h : j ≠ didx) : (kvs.setDict didx d).dicts j = kvs.dicts j := if_neg h

lemma dictSize_setDict_ne (h : j ≠ didx) :
    kvstoreDictSize (kvs.setDict didx d) j = kvstoreDictSize kvs j := by
  rw [kvstoreDictSize, kvstoreDictSize, setDict_ne kvs d h]

lemma dictSize_setDict_some (didx : Nat) (d : Dict K V) :
    kvstoreDictSize (kvs.setDict didx (some d)) didx = d.size := by
  rw [kvstoreDictSize, setDict_self]

end

lemma dictSize_of_some (h : kvs.dicts didx = some d) : kvstoreDictSize kvs didx = d.size := by
  rw [kvstoreDictSize, h]

/-- A change of one dict, and of the number of dicts accordingly. -/
lemma DictsOk.change (h : DictsOk type kvs) (hdidx : didx < kvs.numDicts)
    (hbits : kvs'.numDictsBits = kvs.numDictsBits)
    (hdicts : ∀ j, j ≠ didx → kvs'.dicts j = kvs.dicts j)
    (hdict : ∀ d, kvs'.dicts didx = some d → DictOk type d ∧ d.pauserehash = 0)
    (hcount : kvs'.allocatedDicts = kvs.allocatedDicts +
    ((if (kvs'.dicts didx).isSome then 1 else 0) -
      (if (kvs.dicts didx).isSome then 1 else 0))) : DictsOk type kvs' := by
  have hnum := numDicts_congr hbits
  refine ⟨hbits ▸ h.bits_le, ?_, ?_⟩
  · intro j d hj
    by_cases hjd : j = didx
    · subst hjd
      exact hdict d hj
    · exact h.dict_ok j d (hdicts j hjd ▸ hj)
  rw [hcount, h.allocated_eq, hnum, countP_range, countP_range]
  have hchange := cumulative_change (a := didx) (fun j => if (kvs.dicts j).isSome then 1 else 0)
    (fun j => if (kvs'.dicts j).isSome then 1 else 0)
    (fun j hj => by simp [hdicts j hj]) kvs.numDicts
  rw [hchange, if_pos (show didx + 1 ≤ kvs.numDicts by omega)]

lemma KeysOk.congr (h : KeysOk kvs)
    (hbits : kvs'.numDictsBits = kvs.numDictsBits) (hkey : kvs'.keyCount = kvs.keyCount)
    (hindex : kvs'.dictSizeIndex = kvs.dictSizeIndex)
    (hsizes : ∀ j, kvstoreDictSize kvs' j = kvstoreDictSize kvs j) : KeysOk kvs' := by
  have hsame : sizes kvs' = sizes kvs := by
    funext j
    rw [sizes, sizes, hsizes j]
  have hnum := numDicts_congr hbits
  refine ⟨by rw [hkey, h.keyCount_eq, hsame, hnum], fun hne => ?_⟩
  rw [hsame, hnum, hindex]
  exact h.index_tree (hnum ▸ hne)

lemma NonEmptyOk.congr (h : NonEmptyOk kvs) (hbits : kvs'.numDictsBits = kvs.numDictsBits)
    (hcount : kvs'.nonEmptyDicts = kvs.nonEmptyDicts)
    (hsizes : ∀ j, kvstoreDictSize kvs' j = kvstoreDictSize kvs j) : NonEmptyOk kvs' := by
  have hnum := numDicts_congr hbits
  rw [NonEmptyOk, hcount, h, hnum]
  simp [hsizes]

/-- The dicts and the keys are counted. -/
structure StoreOk (type : DictType K) (kvs : Kvstore K V) : Prop where
  dicts : DictsOk type kvs
  keys : KeysOk kvs

/-- A change of the store after which all is counted that was counted before. -/
structure Kept (type : DictType K) (kvs kvs' : Kvstore K V) : Prop where
  ok : StoreOk type kvs'
  bits_eq : kvs'.numDictsBits = kvs.numDictsBits
  nonEmpty : NonEmptyOk kvs → NonEmptyOk kvs'

section

variable (h : StoreOk type kvs)

include h

lemma Kept.refl : Kept type kvs kvs := ⟨h, rfl, id⟩

omit h in
lemma Kept.numDicts_eq (h : Kept type kvs kvs') : kvs'.numDicts = kvs.numDicts := by
  rw [Kvstore.numDicts, h.bits_eq, Kvstore.numDicts]

omit h in
lemma Kept.trans {kvs'' : Kvstore K V}
    (h : Kept type kvs kvs') (h' : Kept type kvs' kvs'') : Kept type kvs kvs'' :=
  ⟨h'.ok, h'.bits_eq.trans h.bits_eq, fun hn => h'.nonEmpty (h.nonEmpty hn)⟩

section

variable (hdidx : didx < kvs.numDicts)

include hdidx

/-- A change of one dict that keeps its size, with the number of dicts. -/
lemma kept_of_size (od : Option (Dict K V)) {a : Int}
    (hdict : ∀ d, od = some d → DictOk type d ∧ d.pauserehash = 0)
    (hcount : a = kvs.allocatedDicts +
    ((if od.isSome then 1 else 0) - (if (kvs.dicts didx).isSome then 1 else 0)))
    (hsize : kvstoreDictSize (kvs.setDict didx od) didx = kvstoreDictSize kvs didx) :
    Kept type kvs { kvs.setDict didx od with allocatedDicts := a } := by
  have hself : (kvs.setDict didx od).dicts didx = od := setDict_self ..
  have hsizes : ∀ j, kvstoreDictSize { kvs.setDict didx od with allocatedDicts := a } j =
    kvstoreDictSize kvs j := by
    intro j
    show kvstoreDictSize (kvs.setDict didx od) j = _
    by_cases hj : j = didx
    · rw [hj, hsize]
    · exact dictSize_setDict_ne kvs od hj
  refine ⟨⟨h.dicts.change hdidx rfl (fun j hj => setDict_ne kvs od hj) ?_ ?_,
    h.keys.congr rfl rfl rfl hsizes⟩, rfl, fun hn => hn.congr rfl rfl hsizes⟩
  · intro d hd
    exact hdict d (hself ▸ hd)
  · rw [hcount]
    rw [hself]

lemma kept_setDict (hd : kvs.dicts didx = some d) (hok : DictOk type d')
    (hpause : d'.pauserehash = 0) (hsize : d'.size = d.size) :
    Kept type kvs (kvs.setDict didx (some d')) := by
  apply kept_of_size h hdidx (some d') (a := kvs.allocatedDicts)
  · intro e he
    cases he
    exact ⟨hok, hpause⟩
  · simp [hd]
  · rw [dictSize_setDict_some, dictSize_of_some hd, hsize]

omit hdidx in
omit h in
lemma dictOk_create (type : DictType K) : DictOk type (dictCreate : Dict K V) :=
  ⟨tableOk_reset type, tableOk_reset type, nodup_nil, by simp [dictCreate],
    by simp [dictCreate, dictReset], by simp [dictCreate], by simp [dictCreate], rfl⟩

lemma createDictIfNeeded_spec :
    ∃ d kvs', createDictIfNeeded kvs didx = (d, kvs') ∧ Kept type kvs kvs' ∧
    kvs'.dicts didx = some d := by
  rw [createDictIfNeeded]
  cases hd : kvs.dicts didx with
  | some d => exact ⟨d, kvs, rfl, Kept.refl h, hd⟩
  | none =>
    refine ⟨dictCreate, _, rfl, kept_of_size h hdidx (some dictCreate) ?_ ?_ ?_, setDict_self ..⟩
    · intro e he
      cases he
      exact ⟨dictOk_create type, rfl⟩
    · simp [hd]
    · rw [dictSize_setDict_some, kvstoreDictSize, hd]
      rfl

lemma freeDictIfNeeded_spec : Kept type kvs (freeDictIfNeeded kvs didx) := by
  rw [freeDictIfNeeded]
  cases hd : kvs.dicts didx with
  | none => exact Kept.refl h
  | some d =>
    dsimp only
    split
    · exact Kept.refl h
    next hfree =>
      simp only [Bool.or_eq_true, decide_eq_true_eq, not_or, not_not] at hfree
      apply kept_of_size h hdidx none
      · simp
      · simp [hd]
        omega
      · rw [hfree.1.2, kvstoreDictSize, setDict_self]

omit hdidx in
omit h in
lemma cumulativeKeyCountAdd_spec (delta : Int) (h : StoreOk type kvs) (hdidx : didx < kvs.numDicts)
    (hd : (kvs.dicts didx).isSome) (hok : DictOk type d) (hpause : d.pauserehash = 0)
    (hsize : (d.size : Int) = kvstoreDictSize kvs didx + delta) :
    ∃ kvs', cumulativeKeyCountAdd (kvs.setDict didx (some d)) didx delta = some kvs' ∧
    StoreOk type kvs' ∧ kvs'.numDictsBits = kvs.numDictsBits ∧
    kvs'.dicts = (kvs.setDict didx (some d)).dicts ∧
    kvs'.nonEmptyDicts = kvs.nonEmptyDicts +
      (if d.size = 1 then 1 else if d.size = 0 then -1 else 0) := by
  have hself : (kvs.setDict didx (some d)).dicts didx = some d := setDict_self ..
  have hsizes : ∀ j, j ≠ didx → sizes (kvs.setDict didx (some d)) j = sizes kvs j := by
    intro j hj
    rw [sizes, sizes, dictSize_setDict_ne kvs _ hj]
  have hdelta : sizes (kvs.setDict didx (some d)) didx - sizes kvs didx = delta := by
    rw [sizes, sizes, dictSize_setDict_some]
    omega
  have hcum : ∀ i, cumulative (sizes (kvs.setDict didx (some d))) i =
    cumulative (sizes kvs) i + if didx + 1 ≤ i then delta else 0 := by
    intro i
    rw [cumulative_change _ _ hsizes i, hdelta]
  have hdicts : DictsOk type (kvs.setDict didx (some d)) := by
    refine h.dicts.change hdidx rfl (fun j hj => setDict_ne kvs (some d) hj) ?_ ?_
    · intro e he
      rw [hself] at he
      cases he
      exact ⟨hok, hpause⟩
    · rw [hd]
      simp [Kvstore.setDict]
  have hcount : kvs.keyCount + delta =
    cumulative (sizes (kvs.setDict didx (some d))) kvs.numDicts := by
    rw [hcum, if_pos (show didx + 1 ≤ kvs.numDicts by omega), h.keys.keyCount_eq]
  by_cases hone : kvs.numDicts = 1
  · have heq : cumulativeKeyCountAdd (kvs.setDict didx (some d)) didx delta = some
      { kvs.setDict didx (some d) with
        keyCount := kvs.keyCount + delta
        nonEmptyDicts := kvs.nonEmptyDicts +
          (if d.size = 1 then 1 else if d.size = 0 then -1 else 0) } := by
      rw [cumulativeKeyCountAdd, hself]
      exact if_pos hone
    exact ⟨_, heq, ⟨{ hdicts with }, ⟨hcount, fun hne => absurd hone hne⟩⟩, rfl, rfl, rfl⟩
  have htree := h.keys.index_tree hone
  obtain ⟨index, hloop, hindex⟩ := addLoop_spec h.dicts.numDicts_le delta kvs.numDicts
    (didx + 1) kvs.dictSizeIndex (by omega) (by omega) (by
      -- a node that contains the dict counts the key that is going
      intro hneg i hi hc
      rw [htree i (by have := hc.2; omega) hi]
      have hle := le_cumulative_sub (f := sizes kvs) (fun j => Int.natCast_nonneg _)
        (show i - lowbit i ≤ didx by have := hc.1; omega)
        (show didx < i by have := hc.2; omega)
      have : sizes kvs didx = kvstoreDictSize kvs didx := rfl
      omega)
  have heq : cumulativeKeyCountAdd (kvs.setDict didx (some d)) didx delta = some
    { kvs.setDict didx (some d) with
      keyCount := kvs.keyCount + delta
      nonEmptyDicts := kvs.nonEmptyDicts +
        (if d.size = 1 then 1 else if d.size = 0 then -1 else 0)
      dictSizeIndex := index } := by
    rw [cumulativeKeyCountAdd, hself]
    show (if kvs.numDicts = 1 then _ else
      (addLoop kvs.numDicts delta kvs.numDicts (didx + 1) kvs.dictSizeIndex).bind _) = _
    rw [if_neg hone, hloop]
    rfl
  exact ⟨_, heq, ⟨{ hdicts with }, ⟨hcount, fun _ => htree.update hcum hindex⟩⟩, rfl, rfl, rfl⟩

omit hdidx in
omit h in
/-- The number of dicts with keys after a dict has changed. -/
lemma nonEmptyOk_change (h : NonEmptyOk kvs) (hdidx : didx < kvs.numDicts)
    (hbits : kvs'.numDictsBits = kvs.numDictsBits)
    (hdicts : kvs'.dicts = (kvs.setDict didx (some d)).dicts)
    (hcount : kvs'.nonEmptyDicts = kvs.nonEmptyDicts +
    ((if d.size ≠ 0 then 1 else 0) - (if kvstoreDictSize kvs didx ≠ 0 then 1 else 0))) :
    NonEmptyOk kvs' := by
  have hnum := numDicts_congr hbits
  have hsizes : ∀ j, kvstoreDictSize kvs' j = kvstoreDictSize (kvs.setDict didx (some d)) j := by
    intro j
    rw [kvstoreDictSize, kvstoreDictSize, hdicts]
  rw [NonEmptyOk] at h ⊢
  rw [hcount, h, hnum, countP_range, countP_range]
  have hchange := cumulative_change (a := didx)
    (fun j => if decide (kvstoreDictSize kvs j ≠ 0) then 1 else 0)
    (fun j => if decide (kvstoreDictSize kvs' j ≠ 0) then 1 else 0)
    (fun j hj => by simp [hsizes j, dictSize_setDict_ne kvs _ hj]) kvs.numDicts
  rw [hchange, if_pos (show didx + 1 ≤ kvs.numDicts by omega)]
  simp [hsizes didx, dictSize_setDict_some]

section

variable (hd : (kvs.dicts didx).isSome) (hok : DictOk type d) (hpause : d.pauserehash = 0)

include hd hok hpause

lemma keyAdded_spec (hsize : d.size = kvstoreDictSize kvs didx + 1) :
    ∃ kvs', cumulativeKeyCountAdd (kvs.setDict didx (some d)) didx 1 = some kvs' ∧
    Kept type kvs kvs' := by
  obtain ⟨kvs', heq, hstore, hbits, hdicts, hcount⟩ := cumulativeKeyCountAdd_spec 1 h
    hdidx hd hok hpause (by omega)
  refine ⟨kvs', heq, hstore, hbits, fun hn => nonEmptyOk_change hn hdidx hbits hdicts ?_⟩
  rw [hcount, hsize]
  congr 1
  by_cases hzero : kvstoreDictSize kvs didx = 0
  · simp [hzero]
  · simp [hzero]

lemma entryRemoved_spec (hsize : kvstoreDictSize kvs didx = d.size + 1) :
    ∃ kvs', entryRemoved (kvs.setDict didx (some d)) didx = some kvs' ∧ StoreOk type kvs' ∧
    kvs'.numDictsBits = kvs.numDictsBits ∧
    (kvstoreDictSize kvs didx ≠ 2 → NonEmptyOk kvs → NonEmptyOk kvs') := by
  obtain ⟨kvs1, heq, hstore, hbits, hdicts, hcount⟩ :=
    cumulativeKeyCountAdd_spec (-1) h hdidx hd hok hpause (by omega)
  have hdidx1 : didx < kvs1.numDicts := by
    rw [Kvstore.numDicts, hbits]
    exact hdidx
  have hfree := freeDictIfNeeded_spec hstore hdidx1
  refine ⟨freeDictIfNeeded kvs1 didx, ?_, hfree.ok, hfree.bits_eq.trans hbits, ?_⟩
  · rw [entryRemoved, heq]
    rfl
  intro htwo hn
  apply hfree.nonEmpty
  apply nonEmptyOk_change hn hdidx hbits hdicts
  rw [hcount, hsize]
  congr 1
  have hone : d.size ≠ 1 := by omega
  by_cases hzero : d.size = 0
  · simp [hzero]
  · simp [hzero, hone]

end

end

end

/-! ## The operations -/

lemma keysOk_of_sizes (hkey : kvs.keyCount = 0) (hindex : kvs.dictSizeIndex = fun _ => 0)
    (hsizes : ∀ j < kvs.numDicts, kvstoreDictSize kvs j = 0) : KeysOk kvs := by
  have hzero : ∀ j < kvs.numDicts, sizes kvs j = 0 := by
    intro j hj
    rw [sizes, hsizes j hj]
    rfl
  refine ⟨?_, fun _ i _ hi => ?_⟩
  · rw [hkey, cumulative_eq_zero hzero (Nat.le_refl _)]
  · rw [hindex, cumulative_eq_zero hzero hi, cumulative_eq_zero hzero (by omega)]
    rfl

lemma nonEmptyOk_of_sizes (hcount : kvs.nonEmptyDicts = 0)
    (hsizes : ∀ j < kvs.numDicts, kvstoreDictSize kvs j = 0) : NonEmptyOk kvs := by
  have hnone : (range kvs.numDicts).countP (fun j => decide (kvstoreDictSize kvs j ≠ 0)) = 0 := by
    rw [countP_eq_zero]
    intro j hj
    simp [hsizes j (mem_range.mp hj)]
  rw [NonEmptyOk, hcount, hnone]
  rfl

lemma kvstoreCreate_spec (type : DictType K) {onDemand freeEmpty : Bool}
    (h : kvstoreCreate bits onDemand freeEmpty = some kvs) :
    StoreOk type kvs ∧ NonEmptyOk kvs ∧ kvs.numDictsBits = bits := by
  rw [kvstoreCreate] at h
  split at h
  · cases h
  next hbits =>
    have hstart : StoreOk type
      (⟨freeEmpty, fun _ => none, bits, 0, 0, 0, fun _ => 0⟩ : Kvstore K V) :=
      ⟨⟨Nat.not_lt.mp hbits, by simp, by simp⟩, keysOk_of_sizes rfl rfl (fun _ _ => rfl)⟩
    have hnonEmpty : NonEmptyOk
      (⟨freeEmpty, fun _ => none, bits, 0, 0, 0, fun _ => 0⟩ : Kvstore K V) :=
      nonEmptyOk_of_sizes rfl (fun _ _ => rfl)
    split at h
    · cases h
      exact ⟨hstart, hnonEmpty, rfl⟩
    cases h
    have hfold : ∀ (js : List Nat) (kvs : Kvstore K V), StoreOk type kvs →
      (∀ j ∈ js, j < kvs.numDicts) →
      Kept type kvs (js.foldl (fun kvs i => (createDictIfNeeded kvs i).2) kvs) := by
      intro js
      induction js with
      | nil => exact fun kvs hok _ => Kept.refl hok
      | cons j js ih =>
        intro kvs hok hjs
        obtain ⟨d, kvs', heq, hkept, _⟩ := createDictIfNeeded_spec hok (hjs j (by simp))
        rw [foldl_cons, heq]
        refine hkept.trans (ih kvs' hkept.ok ?_)
        intro i hi
        rw [hkept.numDicts_eq]
        exact hjs i (by simp [hi])
    have hkept := hfold (range _) _ hstart (fun j hj => mem_range.mp hj)
    exact ⟨hkept.ok, hkept.nonEmpty hnonEmpty, hkept.bits_eq⟩

lemma emptyDict_spec (h : DictsOk type kvs) (hdidx : didx < kvs.numDicts) :
    DictsOk type (emptyDict kvs didx) ∧ (emptyDict kvs didx).numDictsBits = kvs.numDictsBits ∧
    (∀ j, j ≠ didx → (emptyDict kvs didx).dicts j = kvs.dicts j) ∧
    kvstoreDictSize (emptyDict kvs didx) didx = 0 := by
  rw [emptyDict]
  cases hd : kvs.dicts didx with
  | none => exact ⟨h, rfl, fun _ _ => rfl, by rw [kvstoreDictSize, hd]⟩
  | some d =>
    have hself : (kvs.setDict didx (some (dictEmpty d))).dicts didx = some (dictEmpty d) :=
      setDict_self ..
    have hempty : DictOk type (dictEmpty d) ∧ (dictEmpty d).pauserehash = 0 :=
      ⟨dictOk_create type, rfl⟩
    dsimp only
    rw [freeDictIfNeeded, hself]
    dsimp only
    split
    · refine ⟨h.change hdidx rfl (fun j hj => setDict_ne kvs _ hj) ?_ ?_, rfl,
        fun j hj => setDict_ne kvs _ hj, dictSize_setDict_some ..⟩
      · intro e he
        rw [hself] at he
        cases he
        exact hempty
      · rw [hd]
        simp [Kvstore.setDict]
    have hnone : ((kvs.setDict didx (some (dictEmpty d))).setDict didx none).dicts didx =
      none := setDict_self ..
    have hne : ∀ j, j ≠ didx →
      ((kvs.setDict didx (some (dictEmpty d))).setDict didx none).dicts j = kvs.dicts j := by
      intro j hj
      rw [setDict_ne _ _ hj, setDict_ne _ _ hj]
    refine ⟨h.change hdidx rfl hne ?_ ?_, rfl, hne, ?_⟩
    · intro e he
      rw [show _ = none from hnone] at he
      cases he
    · rw [hd, show _ = none from hnone]
      show kvs.allocatedDicts - 1 = kvs.allocatedDicts + (0 - 1)
      omega
    · rw [kvstoreDictSize, hnone]

lemma kvstoreEmpty_spec (h : DictsOk type kvs) :
    StoreOk type (kvstoreEmpty kvs) ∧ NonEmptyOk (kvstoreEmpty kvs) ∧
    (kvstoreEmpty kvs).numDictsBits = kvs.numDictsBits := by
  -- the dicts up to the one reached are empty
  have hfold : ∀ m ≤ kvs.numDicts, DictsOk type ((range m).foldl emptyDict kvs) ∧
      ((range m).foldl emptyDict kvs).numDictsBits = kvs.numDictsBits ∧
      ∀ j < m, kvstoreDictSize ((range m).foldl emptyDict kvs) j = 0 := by
    intro m hm
    induction m with
    | zero => exact ⟨h, rfl, by simp⟩
    | succ m ih =>
      obtain ⟨hok, hbits, hzero⟩ := ih (by omega)
      have hlt : m < ((range m).foldl emptyDict kvs).numDicts := by
        rw [Kvstore.numDicts, hbits]
        exact hm
      obtain ⟨hok', hbits', hsame, hself⟩ := emptyDict_spec hok hlt
      rw [range_succ, foldl_append, foldl_cons, foldl_nil]
      refine ⟨hok', hbits'.trans hbits, fun j hj => ?_⟩
      by_cases hjm : j = m
      · rw [hjm]
        exact hself
      · rw [kvstoreDictSize, hsame j hjm]
        exact hzero j (by omega)
  obtain ⟨hok, hbits, hzero⟩ := hfold kvs.numDicts (Nat.le_refl _)
  have hnum : (kvstoreEmpty kvs).numDicts = kvs.numDicts := by exact congrArg (2 ^ ·) hbits
  have hsizes : ∀ j < (kvstoreEmpty kvs).numDicts, kvstoreDictSize (kvstoreEmpty kvs) j = 0 := by
    intro j hj
    exact hzero j (hnum ▸ hj)
  exact ⟨⟨{ hok with }, keysOk_of_sizes rfl rfl hsizes⟩, nonEmptyOk_of_sizes rfl hsizes, hbits⟩

variable [DecidableEq K]

/-- The key is in the dict. -/
def hasKey (kvs : Kvstore K V) (didx : Nat) (key : K) : Bool :=
  match kvs.dicts didx with
  | none => false
  | some d => d.entries.any fun de => de.1 = key

/-- Every operation but one that takes one of the two keys of a dict. -/
def KeepsCount {bits : Nat} (kvs : Kvstore K V) : Event bits K V → Prop
  | .onDict didx _ (.delete key) => ¬ (kvstoreDictSize kvs didx = 2 ∧ hasKey kvs didx key)
  | .onDict didx _ (.twoPhaseUnlink key _ _) =>
    ¬ (kvstoreDictSize kvs didx = 2 ∧ hasKey kvs didx key)
  | _ => True

instance instDecidableKeepsCount {bits : Nat} (kvs : Kvstore K V) :
    ∀ event : Event bits K V, Decidable (KeepsCount kvs event)
  | .onDict _ _ (.delete _) => inferInstanceAs (Decidable (¬ _))
  | .onDict _ _ (.twoPhaseUnlink _ _ _) => inferInstanceAs (Decidable (¬ _))
  | .onDict _ _ (.addRaw _ _) => .isTrue trivial
  | .onDict _ _ (.find _) => .isTrue trivial
  | .onDict _ _ (.expand _) => .isTrue trivial
  | .onDict _ _ (.rehash _) => .isTrue trivial
  | .onDict _ _ .release => .isTrue trivial
  | .empty => .isTrue trivial

/-- What every operation does to the counters. -/
structure Counted (type : DictType K) (kvs kvs' : Kvstore K V) (keeps : Prop) : Prop where
  ok : StoreOk type kvs'
  bits_eq : kvs'.numDictsBits = kvs.numDictsBits
  nonEmpty : keeps → NonEmptyOk kvs → NonEmptyOk kvs'

omit [DecidableEq K] in
lemma Kept.counted (h : Kept type kvs kvs') (keeps : Prop) : Counted type kvs kvs' keeps :=
  ⟨h.ok, h.bits_eq, fun _ => h.nonEmpty⟩

omit [DecidableEq K] in
lemma size_eq_of_perm (h : DictOk type d)
    (h' : DictOk type d') (hperm : d'.entries.Perm d.entries) : d'.size = d.size := by
  rw [h.size_eq, h'.size_eq, hperm.length_eq]

section

variable (policy : Policy) (h : StoreOk type kvs) (hdidx : didx < kvs.numDicts) (key : K)

include h hdidx

lemma kvstoreDictAddRaw_spec (val : V) :
    ∃ r kvs', kvstoreDictAddRaw type policy kvs didx key val = some (r, kvs') ∧
    Kept type kvs kvs' := by
  obtain ⟨d, kvs1, hcreate, hkept, hd⟩ := createDictIfNeeded_spec h hdidx
  obtain ⟨hok, hpause⟩ := hkept.ok.dicts.dict_ok didx d hd
  have hdidx1 : didx < kvs1.numDicts := by rwa [hkept.numDicts_eq]
  obtain ⟨existing, d', hadd, hok', hpause', hr⟩ := dictAddRaw_spec policy hok key val
  rw [hpause] at hpause'
  cases existing with
  | some found =>
    refine ⟨false, kvs1.setDict didx (some d'), ?_, hkept.trans
      (kept_setDict hkept.ok hdidx1 hd hok' hpause' (size_eq_of_perm hok hok' hr.2))⟩
    simp [kvstoreDictAddRaw, hcreate, hadd]
  | none =>
    have hsize : d'.size = kvstoreDictSize kvs1 didx + 1 := by
      rw [dictSize_of_some hd, hok'.size_eq, hok.size_eq, hr.2.length_eq, length_cons]
    obtain ⟨kvs', hcount, hkept'⟩ := keyAdded_spec hkept.ok hdidx1 (by rw [hd]; rfl) hok'
      hpause' hsize
    refine ⟨true, kvs', ?_, hkept.trans hkept'⟩
    simp [kvstoreDictAddRaw, hcreate, hadd, hcount]

omit h hdidx in
/-- Taking a key out of a dict, by either of the two ways. -/
lemma removed_spec
    {key : K} {r : Option (K × V)} (h : StoreOk type kvs) (hdidx : didx < kvs.numDicts)
    (hd : kvs.dicts didx = some d) (hr : Removed type d key r d') :
    ∃ kvs', (if r.isSome then entryRemoved (kvs.setDict didx (some d')) didx
      else some (kvs.setDict didx (some d'))) = some kvs' ∧
    Counted type kvs kvs' (¬ (kvstoreDictSize kvs didx = 2 ∧ hasKey kvs didx key)) := by
  obtain ⟨hok, hpause⟩ := h.dicts.dict_ok didx d hd
  have hpause' : d'.pauserehash = 0 := hr.pauserehash.trans hpause
  cases r with
  | none =>
    exact ⟨_, rfl, (kept_setDict h hdidx hd hr.ok hpause'
      (size_eq_of_perm hok hr.ok hr.entries.symm)).counted _⟩
  | some he =>
    have hsize : kvstoreDictSize kvs didx = d'.size + 1 := by
      rw [dictSize_of_some hd, hok.size_eq, hr.ok.size_eq, hr.entries.length_eq]
      simp
    obtain ⟨kvs', hremoved, hstore, hbits, hnonEmpty⟩ :=
      entryRemoved_spec h hdidx (by rw [hd]; rfl) hr.ok hpause' hsize
    refine ⟨kvs', hremoved, hstore, hbits, fun hkeeps => hnonEmpty fun htwo => ?_⟩
    apply hkeeps
    refine ⟨htwo, ?_⟩
    rw [hasKey, hd, any_eq_true]
    exact ⟨he, hr.answers.2, by simpa using hr.answers.1⟩

lemma kvstoreDictDelete_spec :
    ∃ r kvs', kvstoreDictDelete type policy kvs didx key = some (r, kvs') ∧
    Counted type kvs kvs' (¬ (kvstoreDictSize kvs didx = 2 ∧ hasKey kvs didx key)) := by
  rw [kvstoreDictDelete]
  cases hd : kvs.dicts didx with
  | none => exact ⟨false, kvs, rfl, (Kept.refl h).counted _⟩
  | some d =>
    obtain ⟨r, d', hdel, hr⟩ := dictGenericDelete_spec policy (h.dicts.dict_ok didx d hd).1 key
    obtain ⟨kvs', heq, hcounted⟩ := removed_spec h hdidx hd hr
    refine ⟨r.isSome, kvs', ?_, hcounted⟩
    simp only [dictDelete, hdel, Option.map_some, some_bind]
    cases r with
    | none => simpa using heq
    | some he =>
      simp only [Option.isSome_some, if_true] at heq ⊢
      rw [heq]
      rfl

end

lemma kvstoreDictTwoPhaseUnlink_spec (policy atFree : Policy)
    (h : StoreOk type kvs) (hdidx : didx < kvs.numDicts) (key : K) (between : List (Policy × K)) :
    ∃ r kvs', kvstoreDictTwoPhaseUnlink type policy kvs didx key between atFree = some (r, kvs') ∧
    Counted type kvs kvs' (¬ (kvstoreDictSize kvs didx = 2 ∧ hasKey kvs didx key)) := by
  rw [kvstoreDictTwoPhaseUnlink]
  cases hd : kvs.dicts didx with
  | none => exact ⟨false, kvs, rfl, (Kept.refl h).counted _⟩
  | some d =>
    obtain ⟨hok, hpause⟩ := h.dicts.dict_ok didx d hd
    obtain ⟨r, rs, d', hdel, hr, _⟩ := dictTwoPhaseUnlink_spec policy atFree hok hpause key between
    obtain ⟨kvs', heq, hcounted⟩ := removed_spec h hdidx hd hr
    refine ⟨r.isSome, kvs', ?_, hcounted⟩
    simp only [hdel, some_bind]
    cases r with
    | none => simpa using heq
    | some he =>
      simp only [Option.isSome_some, if_true] at heq ⊢
      rw [heq]
      rfl

omit [DecidableEq K] in
lemma kept_rearranged (h : StoreOk type kvs) (hdidx : didx < kvs.numDicts)
    (hd : kvs.dicts didx = some d) (hre : Rearranged type d d') :
    Kept type kvs (kvs.setDict didx (some d')) := by
  obtain ⟨hok, hpause⟩ := h.dicts.dict_ok didx d hd
  exact kept_setDict h hdidx hd hre.ok (hre.pauserehash.trans hpause)
    (size_eq_of_perm hok hre.ok hre.entries)

/-- Every operation on a dict keeps the counters, but for the one exception. -/
lemma onDict_spec (policy : Policy)
    (didx : Fin (2 ^ bits)) (h : StoreOk type kvs) (hbits : kvs.numDictsBits = bits)
    (op : StoreOp K V) :
    ∃ kvs', onDict type policy kvs didx op = some kvs' ∧
    Counted type kvs kvs' (KeepsCount kvs (.onDict didx policy op)) := by
  have hdidx : (didx : Nat) < kvs.numDicts := by
    rw [Kvstore.numDicts, hbits]
    exact didx.isLt
  cases op with
  | addRaw key val =>
    obtain ⟨r, kvs', heq, hkept⟩ := kvstoreDictAddRaw_spec policy h hdidx key val
    exact ⟨kvs', by rw [onDict, heq]; rfl, hkept.counted _⟩
  | delete key =>
    obtain ⟨r, kvs', heq, hcounted⟩ := kvstoreDictDelete_spec policy h hdidx key
    exact ⟨kvs', by rw [onDict, heq]; rfl, hcounted⟩
  | twoPhaseUnlink key between atFree =>
    obtain ⟨r, kvs', heq, hcounted⟩ :=
      kvstoreDictTwoPhaseUnlink_spec policy atFree h hdidx key between
    exact ⟨kvs', by rw [onDict, heq]; rfl, hcounted⟩
  | find key =>
    rw [onDict, kvstoreDictFind]
    cases hd : kvs.dicts didx with
    | none => exact ⟨kvs, rfl, (Kept.refl h).counted _⟩
    | some d =>
      obtain ⟨r, d', hfind, hre, _⟩ := dictFind_spec policy (h.dicts.dict_ok didx d hd).1 key
      refine ⟨kvs.setDict didx (some d'), ?_, (kept_rearranged h hdidx hd hre).counted _⟩
      simp [hfind]
  | expand size =>
    rw [onDict, kvstoreDictExpand]
    split
    · exact ⟨kvs, rfl, (Kept.refl h).counted _⟩
    obtain ⟨d, kvs1, hcreate, hkept, hd⟩ := createDictIfNeeded_spec h hdidx
    have hdidx1 : (didx : Nat) < kvs1.numDicts := by rwa [hkept.numDicts_eq]
    obtain ⟨resized, d', hexpand, hre, _⟩ :=
      dictExpand_spec policy (hkept.ok.dicts.dict_ok didx d hd).1 size
    refine ⟨kvs1.setDict didx (some d'), ?_,
      (hkept.trans (kept_rearranged hkept.ok hdidx1 hd hre)).counted _⟩
    simp [hcreate, hexpand]
  | rehash n =>
    rw [onDict, kvstoreDictRehash]
    cases hd : kvs.dicts didx with
    | none => exact ⟨kvs, rfl, (Kept.refl h).counted _⟩
    | some d =>
      obtain ⟨more, d', hrehash, hre⟩ := dictRehash_spec policy (h.dicts.dict_ok didx d hd).1 n
      refine ⟨kvs.setDict didx (some d'), ?_, (kept_rearranged h hdidx hd hre).counted _⟩
      simp [hrehash]
  | release => exact ⟨_, rfl, (freeDictIfNeeded_spec h hdidx).counted _⟩

lemma storeStep_spec (h : StoreOk type kvs)
    (hbits : kvs.numDictsBits = bits) (event : Event bits K V) :
    ∃ kvs', storeStep type kvs event = some kvs' ∧
    Counted type kvs kvs' (KeepsCount kvs event) := by
  cases event with
  | onDict didx policy op => exact onDict_spec policy didx h hbits op
  | empty =>
    obtain ⟨hok, hnonEmpty, hbits'⟩ := kvstoreEmpty_spec h.dicts
    exact ⟨kvstoreEmpty kvs, rfl, hok, hbits', fun _ _ => hnonEmpty⟩

omit [DecidableEq K] in
/-- The number of keys up to a dict is read off the tree. -/
lemma cumulativeKeyCountRead_spec (h : StoreOk type kvs) (hdidx : didx < kvs.numDicts) :
    cumulativeKeyCountRead kvs didx = some (cumulative (sizes kvs) (didx + 1)) := by
  rw [cumulativeKeyCountRead]
  split
  next hone =>
    have hzero : didx = 0 := by omega
    subst hzero
    rw [if_pos rfl, kvstoreSize, if_neg (by omega), cumulative_succ, cumulative_zero, Int.zero_add]
    rfl
  next hone =>
    rw [readLoop_spec h.dicts.numDicts_le (h.keys.index_tree hone) (didx + 1) (didx + 1) 0
      (by omega) (Nat.le_refl _), Int.zero_add]

/-- What the counters are meant to be. -/
structure Counters (kvs : Kvstore K V) : Prop where
  keyCount_eq : kvs.keyCount = ∑ j ∈ Finset.range kvs.numDicts, (kvstoreDictSize kvs j : Int)
  index_tree : kvs.numDicts ≠ 1 →
    IsTree kvs.numDicts (cumulative fun j => kvstoreDictSize kvs j) kvs.dictSizeIndex
  read_eq : ∀ didx < kvs.numDicts, cumulativeKeyCountRead kvs didx =
    some (∑ j ∈ Finset.range (didx + 1), (kvstoreDictSize kvs j : Int))
  nonEmptyDicts_eq : kvs.nonEmptyDicts =
    (range kvs.numDicts).countP fun j => kvstoreDictSize kvs j ≠ 0
  allocatedDicts_eq : kvs.allocatedDicts = (range kvs.numDicts).countP fun j => (kvs.dicts j).isSome

lemma run_storeOk
    (h : StoreOk type kvs) (hbits : kvs.numDictsBits = bits) (events : List (Event bits K V)) :
    ∃ kvs', run (storeStep type) kvs events = some kvs' ∧ StoreOk type kvs' ∧
    kvs'.numDictsBits = bits := by
  have hstep : ∀ (kvs : Kvstore K V) (event : Event bits K V),
    (StoreOk type kvs ∧ kvs.numDictsBits = bits) →
    ∃ kvs', storeStep type kvs event = some kvs' ∧
      (StoreOk type kvs' ∧ kvs'.numDictsBits = bits) := by
    intro kvs event hok
    obtain ⟨kvs', hse, hcounted⟩ := storeStep_spec hok.1 hok.2 event
    exact ⟨kvs', hse, hcounted.ok, hcounted.bits_eq.trans hok.2⟩
  exact run_total' hstep ⟨h, hbits⟩ events

/-- In a run of operations on a new store in which none takes one of the two
keys of a dict, no assertion fails and all counters agree with the dicts. -/
theorem counters_agree {bits : Nat} (type : DictType K) {onDemand freeEmpty : Bool}
    {kvs₀ : Kvstore K V} (hcreate : kvstoreCreate bits onDemand freeEmpty = some kvs₀)
    (events : List (Event bits K V))
    (hkeeps : Within (storeStep type) KeepsCount kvs₀ events) :
    ∃ kvs, run (storeStep type) kvs₀ events = some kvs ∧ Counters kvs := by
  obtain ⟨hok₀, hnonEmpty₀, hbits₀⟩ := kvstoreCreate_spec type hcreate
  have hstep : ∀ (kvs : Kvstore K V) (event : Event bits K V),
      (StoreOk type kvs ∧ kvs.numDictsBits = bits ∧ NonEmptyOk kvs) →
      KeepsCount kvs event →
      ∃ kvs', storeStep type kvs event = some kvs' ∧
        (StoreOk type kvs' ∧ kvs'.numDictsBits = bits ∧ NonEmptyOk kvs') := by
    intro kvs event hinv hevent
    obtain ⟨kvs', hse, hcounted⟩ := storeStep_spec hinv.1 hinv.2.1 event
    exact ⟨kvs', hse, hcounted.ok, hcounted.bits_eq.trans hinv.2.1,
      hcounted.nonEmpty hevent hinv.2.2⟩
  obtain ⟨kvs, hrun, hok, _, hnonEmpty⟩ := run_total hstep ⟨hok₀, hbits₀, hnonEmpty₀⟩ hkeeps
  exact ⟨kvs, hrun, hok.keys.keyCount_eq, hok.keys.index_tree,
    fun didx hdidx => cumulativeKeyCountRead_spec hok hdidx, hnonEmpty,
    hok.dicts.allocated_eq⟩

/-- A store of two dicts that get keys, lose them and get them again. -/
def refilled : List (Event 1 Nat Nat) :=
  [.onDict 0 ⟨.enable, none⟩ (.addRaw 1 10), .onDict 1 ⟨.enable, none⟩ (.addRaw 2 20),
   .onDict 0 ⟨.enable, none⟩ (.delete 1), .onDict 0 ⟨.avoid, none⟩ (.addRaw 3 30)]

theorem counters_agree_refilled : ∃ kvs₀, kvstoreCreate 1 true true = some kvs₀ ∧
      ∃ kvs, run (storeStep ⟨fun k : Nat => k.toUInt64, false⟩) kvs₀ refilled = some kvs ∧
        Counters kvs :=
  ⟨_, rfl, counters_agree ⟨fun k : Nat => k.toUInt64, false⟩
    (show kvstoreCreate 1 true true = some _ from rfl) refilled (by decide +kernel)⟩

/-- One dict that has had two keys and has one left counts as two dicts with
keys. -/
theorem nonEmptyDicts_overcounted : ((kvstoreCreate 0 false false).bind fun kvs =>
        run (storeStep ⟨fun k : Nat => k.toUInt64, false⟩) kvs
          ([.onDict 0 ⟨.enable, none⟩ (.addRaw 1 10), .onDict 0 ⟨.enable, none⟩ (.addRaw 2 20),
            .onDict 0 ⟨.enable, none⟩ (.delete 1)] : List (Event 0 Nat Nat))).map
        (fun kvs => (kvs.nonEmptyDicts,
          (List.range kvs.numDicts).countP fun j => kvstoreDictSize kvs j ≠ 0)) =
      some (2, 1) := by decide +kernel

end Dice.Ports.KvstoreCounters
