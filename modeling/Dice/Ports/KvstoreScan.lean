import Dice.Ports.DictScan
import Dice.Ports.KvstoreCounters

/-!
# Scanning the key-value store

The cursor of a scan over all dicts holds the index of a dict in its lowest
bits and the cursor of that dict above them.  When a dict is done, or is gone,
the scan goes on with the next dict that has keys, which is found by a search
in the binary indexed tree.  The order of the scan is that of the dict index
first and of the reversed cursor of the dict second.
-/

namespace Dice.Ports.KvstoreScan

open List Nat

open Verified Run Fenwick ReverseCursor DictTable DictInvariant DictRefinement
open DictScan KvstoreDicts KvstoreCounters

variable {K V : Type}

def getAndClearDictIndexFromCursor (kvs : Kvstore K V) (cursor : BitVec 64) : Nat × BitVec 64 :=
  if kvs.numDicts = 1 then (0, cursor)
  else ((cursor &&& BitVec.ofNat 64 (kvs.numDicts - 1)).toNat, cursor >>> kvs.numDictsBits)

/-- `addDictIndexToCursor`, for an index that is not -1. -/
def addDictIndexToCursor (kvs : Kvstore K V) (didx : Nat) (cursor : BitVec 64) : BitVec 64 :=
  if kvs.numDicts = 1 then cursor
  else (cursor <<< kvs.numDictsBits) ||| BitVec.ofNat 64 didx

/-- The loop of `kvstoreFindDictIndexByKeyIndex`, where `i` is `2 ^ n`. -/
def findLoop (index : Nat → Int) : Nat → Nat → Int → Nat
  | 0, result, _ => result
  | n + 1, result, target =>
    let current := result + 2 ^ n
    if target > index current then findLoop index n current (target - index current)
    else findLoop index n result target

def kvstoreFindDictIndexByKeyIndex (kvs : Kvstore K V) (target : Int) : Option Nat :=
  if kvs.numDicts = 1 || kvstoreSize kvs = 0 then some 0
  else if target > kvstoreSize kvs then none
  else some (findLoop kvs.dictSizeIndex (kvs.numDictsBits + 1) 0 target)

/-- `kvstoreGetNextNonEmptyDictIndex`; the inner `none` is -1. -/
def kvstoreGetNextNonEmptyDictIndex (kvs : Kvstore K V) (didx : Nat) : Option (Option Nat) :=
  if kvs.numDicts = 1 then if didx = 0 then some none else none
  else do
    let keys ← cumulativeKeyCountRead kvs didx
    if keys + 1 ≤ kvstoreSize kvs then
      let next ← kvstoreFindDictIndexByKeyIndex kvs (keys + 1)
      some (some next)
    else some none

/-- What a call returns, with the cursor that the dict has returned. -/
structure ScanResult (K V : Type) where
  emitted : List (K × V)
  dictCursor : BitVec 64
  next : BitVec 64

/-- The scan of one dict, unless it is skipped; the first component says so. -/
def scanDict (kvs : Kvstore K V) (didx : Nat) (cursor : BitVec 64) (skipCb : Dict K V → Bool) :
    Option (Bool × List (K × V) × BitVec 64 × Kvstore K V) :=
  match kvs.dicts didx with
  | none => some (true, [], 0, kvs)
  | some d =>
    if skipCb d then some (true, [], 0, kvs)
    else do
      let (es, v) ← dictScan d cursor
      some (false, es, v, freeDictIfNeeded kvs didx)

/-- `kvstoreScan` from the dict it has settled on. -/
def scanFrom (kvs : Kvstore K V) (didx : Nat) (cursor : BitVec 64) (only : Bool)
    (skipCb : Dict K V → Bool) : Option (ScanResult K V × Kvstore K V) := do
  let (skip, es, v, kvs) ← scanDict kvs didx cursor skipCb
  if v = 0 || skip then
    if only then some (⟨es, v, 0⟩, kvs)
    else
      match ← kvstoreGetNextNonEmptyDictIndex kvs didx with
      | none => some (⟨es, v, 0⟩, kvs)
      | some didx => some (⟨es, v, addDictIndexToCursor kvs didx v⟩, kvs)
  else some (⟨es, v, addDictIndexToCursor kvs didx v⟩, kvs)

/-- `kvstoreScan`; no `onlydidx` stands for -1. -/
def kvstoreScan (kvs : Kvstore K V) (cursor : BitVec 64) (onlydidx : Option Nat)
    (skipCb : Dict K V → Bool) : Option (ScanResult K V × Kvstore K V) :=
  let (didx, cursor) := getAndClearDictIndexFromCursor kvs cursor
  match onlydidx with
  | none => scanFrom kvs didx cursor false skipCb
  | some onlydidx =>
    if didx < onlydidx then
      if onlydidx < kvs.numDicts then scanFrom kvs onlydidx 0 true skipCb else none
    else if didx > onlydidx then some (⟨[], 0, 0⟩, kvs)
    else scanFrom kvs didx cursor true skipCb

/-- The search ends at the position where the cumulative sums pass the target. -/
lemma findLoop_spec (bits : Nat) {P index : Nat → Int} (htree : IsTree (2 ^ bits) P index)
    (target : Int) (n result : Nat) (hdvd : 2 ^ n ∣ result) (hle : result + 2 ^ n ≤ 2 ^ bits)
    (hlow : P result < target) (hhigh : target ≤ P (result + 2 ^ n)) :
    ∃ r, findLoop index n result (target - P result) = r ∧ r < 2 ^ bits ∧ P r < target ∧
    target ≤ P (r + 1) := by
  induction n generalizing result with
  | zero => exact ⟨result, rfl, by omega, hlow, hhigh⟩
  | succ n ih =>
    have hpow : 2 ^ (n + 1) = 2 ^ n + 2 ^ n := by omega
    have hnode : index (result + 2 ^ n) = P (result + 2 ^ n) - P result := by
      rw [htree _ (by omega) (by omega), lowbit_add_two_pow hdvd, Nat.add_sub_cancel]
    have hdvd' : 2 ^ n ∣ result := dvd_trans (pow_dvd_pow 2 (by omega)) hdvd
    rw [findLoop]
    split
    next hgt =>
      have hrest : target - P result - index (result + 2 ^ n) = target - P (result + 2 ^ n) := by
        omega
      rw [hrest]
      refine ih (result + 2 ^ n) (dvd_add hdvd' (dvd_refl _)) (by omega) ?_ ?_
      · omega
      · rw [add_assoc, ← hpow]
        exact hhigh
    next hgt =>
      apply ih result hdvd' (by omega) hlow
      omega

variable {type : DictType K} {kvs : Kvstore K V} {didx : Nat} {v cursor : BitVec 64}

lemma sizes_nonneg (kvs : Kvstore K V) (j : Nat) : 0 ≤ sizes kvs j := Int.natCast_nonneg _

lemma kvstoreSize_eq (h : StoreOk type kvs) :
    kvstoreSize kvs = cumulative (sizes kvs) kvs.numDicts := by
  rw [kvstoreSize]
  split
  · exact h.keys.keyCount_eq
  next hone =>
    rw [not_not.mp hone, cumulative_succ, cumulative_zero, Int.zero_add]
    rfl

lemma findDictIndex_spec (h : StoreOk type kvs)
    (hone : kvs.numDicts ≠ 1) {target : Int} (hpos : 0 < target) (hle : target ≤ kvstoreSize kvs) :
    ∃ r, kvstoreFindDictIndexByKeyIndex kvs target = some r ∧ r < kvs.numDicts ∧
    cumulative (sizes kvs) r < target ∧ target ≤ cumulative (sizes kvs) (r + 1) := by
  have htree := h.keys.index_tree hone
  have hsize := kvstoreSize_eq h
  have hroot : kvs.dictSizeIndex (0 + 2 ^ kvs.numDictsBits) =
    cumulative (sizes kvs) kvs.numDicts := by
    have hn : 0 < kvs.numDicts := Nat.two_pow_pos _
    rw [zero_add]
    show kvs.dictSizeIndex kvs.numDicts = _
    rw [htree kvs.numDicts hn (le_refl _)]
    have hlow : lowbit kvs.numDicts = kvs.numDicts := by
      have := lowbit_add_two_pow (r := 0) (j := kvs.numDictsBits) (dvd_zero _)
      rwa [zero_add] at this
    rw [hlow, Nat.sub_self, cumulative_zero, Int.sub_zero]
  obtain ⟨r, hloop, hr⟩ := findLoop_spec kvs.numDictsBits htree target
    kvs.numDictsBits 0 (dvd_zero _) (by omega) (by rw [cumulative_zero]; omega)
    (by rw [zero_add, ← show kvs.numDicts = 2 ^ kvs.numDictsBits from rfl]; omega)
  refine ⟨r, ?_, hr⟩
  have hcond : ¬ (kvs.numDicts = 1 || kvstoreSize kvs = 0) := by
    simp only [Bool.or_eq_true, decide_eq_true_eq, not_or]
    exact ⟨hone, by omega⟩
  rw [kvstoreFindDictIndexByKeyIndex, if_neg hcond, if_neg (by omega), findLoop, if_neg (by omega),
    ← hloop, cumulative_zero, Int.sub_zero]

lemma nextNonEmpty_spec (h : StoreOk type kvs) (hdidx : didx < kvs.numDicts) :
    ∃ r, kvstoreGetNextNonEmptyDictIndex kvs didx = some r ∧
    match r with
    | some after => didx < after ∧ after < kvs.numDicts ∧
        ∀ j, didx < j → j < kvs.numDicts → kvstoreDictSize kvs j ≠ 0 → after ≤ j
    | none => ∀ j, didx < j → j < kvs.numDicts → kvstoreDictSize kvs j = 0 := by
  have hbelow : ∀ {a j b : Nat}, a ≤ j → j < b →
    cumulative (sizes kvs) b ≤ cumulative (sizes kvs) a → kvstoreDictSize kvs j = 0 := by
    intro a j b haj hjb hle
    have := le_cumulative_sub (sizes_nonneg kvs) haj hjb
    have : sizes kvs j = kvstoreDictSize kvs j := rfl
    omega
  rw [kvstoreGetNextNonEmptyDictIndex]
  split
  next hone =>
    have hzero : didx = 0 := by omega
    rw [if_pos hzero]
    exact ⟨none, rfl, fun j hj hlt => by omega⟩
  next hone =>
    have hsize := kvstoreSize_eq h
    rw [cumulativeKeyCountRead_spec h hdidx]
    show ∃ r, (if cumulative (sizes kvs) (didx + 1) + 1 ≤ kvstoreSize kvs then _ else _) =
      some r ∧ _
    split
    next hle =>
      have hstart := cumulative_mono (sizes_nonneg kvs) (zero_le (didx + 1))
      rw [cumulative_zero] at hstart
      obtain ⟨r, hfind, hlt, hlow, hhigh⟩ := findDictIndex_spec h hone (by omega) hle
      refine ⟨some r, by rw [hfind]; rfl, ?_, hlt, ?_⟩
      · apply Classical.byContradiction
        intro hnot
        have := cumulative_mono (sizes_nonneg kvs) (by omega : r + 1 ≤ didx + 1)
        omega
      · intro j hj hjn hne
        apply Classical.byContradiction
        intro hnot
        exact hne (hbelow (a := didx + 1) (b := r) (by omega) (by omega) (by omega))
    next hle =>
      refine ⟨none, rfl, fun j hj hjn => ?_⟩
      exact hbelow (a := didx + 1) (b := kvs.numDicts) (by omega) hjn (by omega)

lemma toNat_packed {w bits : Nat} {v : BitVec w} (hv : v.toNat < 2 ^ (w - bits))
    (hbits : bits ≤ w) (hdidx : didx < 2 ^ bits) :
    (v <<< bits ||| BitVec.ofNat w didx).toNat = v.toNat * 2 ^ bits + didx := by
  have hw : 2 ^ bits ≤ 2 ^ w := Nat.pow_le_pow_right (by decide) hbits
  have hshift : v.toNat * 2 ^ bits < 2 ^ w := by
    rw [two_pow_eq_mul hbits, mul_comm]
    exact Nat.mul_lt_mul_of_pos_left hv (Nat.two_pow_pos _)
  rw [BitVec.toNat_or, BitVec.toNat_shiftLeft, BitVec.toNat_ofNat, shiftLeft_eq,
    mod_eq_of_lt hshift, mod_eq_of_lt (by omega), mul_comm,
    two_pow_add_eq_or_of_lt hdidx]

lemma getAndClear_lt (kvs : Kvstore K V) (cursor : BitVec 64) :
    (getAndClearDictIndexFromCursor kvs cursor).1 < kvs.numDicts := by
  have hn : 0 < kvs.numDicts := Nat.two_pow_pos _
  rw [getAndClearDictIndexFromCursor]
  split
  · exact hn
  · rw [BitVec.toNat_and, BitVec.toNat_ofNat]
    have := and_le_right (n := cursor.toNat) (m := (kvs.numDicts - 1) % 2 ^ 64)
    omega

section

variable (hbits : kvs.numDictsBits ≤ 16) (hdidx : didx < kvs.numDicts)
  (hv : v.toNat < 2 ^ (64 - kvs.numDictsBits))

include hbits hdidx hv

/-- A cursor of a dict that fits in the bits left is read back. -/
lemma getAndClear_add :
    getAndClearDictIndexFromCursor kvs (addDictIndexToCursor kvs didx v) = (didx, v) := by
  rw [getAndClearDictIndexFromCursor, addDictIndexToCursor]
  split
  next hone => rw [show didx = 0 by omega]
  next hone =>
    have hlt : didx < 2 ^ kvs.numDictsBits := hdidx
    have hpacked := toNat_packed hv (by omega) hlt
    have hpow : kvs.numDicts - 1 < 2 ^ 64 := by
      have : kvs.numDicts ≤ 2 ^ 16 := Nat.pow_le_pow_right (by decide) hbits
      omega
    have hn : kvs.numDicts - 1 = 2 ^ kvs.numDictsBits - 1 := rfl
    apply Prod.ext
    · rw [BitVec.toNat_and, hpacked, BitVec.toNat_ofNat, mod_eq_of_lt hpow, hn,
        and_two_pow_sub_one_eq_mod, mul_add_mod_self_right, mod_eq_of_lt hlt]
    · apply BitVec.eq_of_toNat_eq
      rw [BitVec.toNat_ushiftRight, hpacked, shiftRight_eq_div_pow, mul_comm,
        Nat.mul_add_div (Nat.two_pow_pos _), Nat.div_eq_of_lt hlt, Nat.add_zero]
omit hbits hdidx hv in
lemma getAndClear_zero (kvs : Kvstore K V) : getAndClearDictIndexFromCursor kvs 0 = (0, 0) := by
  rw [getAndClearDictIndexFromCursor]
  split <;> simp

/-- A cursor for a dict other than the first, or inside a dict, is not 0. -/
lemma addDictIndex_ne_zero (hne : didx ≠ 0 ∨ v ≠ 0) : addDictIndexToCursor kvs didx v ≠ 0 := by
  intro hzero
  have hread := getAndClear_add hbits hdidx hv
  rw [hzero, getAndClear_zero, Prod.mk.injEq] at hread
  rcases hne with hne | hne
  · exact hne hread.1.symm
  · exact hne hread.2.symm

end

/-- The order of the scan: a cursor is before another. -/
def Before (kvs : Kvstore K V) (cursor cursor' : BitVec 64) : Prop :=
  let (didx, v) := getAndClearDictIndexFromCursor kvs cursor
  let (didx', v') := getAndClearDictIndexFromCursor kvs cursor'
  didx < didx' ∨ didx = didx' ∧ v.reverse < v'.reverse

/-- A key of a dict is still ahead of a cursor. -/
def Ahead (type : DictType K) (kvs : Kvstore K V) (cursor : BitVec 64) (didx : Nat)
    (key : K) : Prop :=
  let (current, v) := getAndClearDictIndexFromCursor kvs cursor
  current < didx ∨ current = didx ∧ rank v ≤ hashRank type key

/-- The entries of a dict, if it exists. -/
def dictEntries (kvs : Kvstore K V) (didx : Nat) : List (K × V) :=
  match kvs.dicts didx with
  | none => []
  | some d => d.entries

lemma freeDictIfNeeded_size (kvs : Kvstore K V) (didx j : Nat) :
    kvstoreDictSize (freeDictIfNeeded kvs didx) j = kvstoreDictSize kvs j := by
  rw [freeDictIfNeeded]
  cases hd : kvs.dicts didx with
  | none => rfl
  | some d =>
    dsimp only
    split
    · rfl
    next hfree =>
      simp only [Bool.or_eq_true, decide_eq_true_eq, not_or, not_not] at hfree
      by_cases hj : j = didx
      · rw [hj, hfree.1.2, kvstoreDictSize, setDict_self]
      · exact dictSize_setDict_ne kvs none hj

lemma scanDict_spec (h : StoreOk type kvs) (hdidx : didx < kvs.numDicts) (v : BitVec 64) :
    ∃ skip es v' kvs' upto, scanDict kvs didx v (fun _ => false) = some (skip, es, v', kvs') ∧
    Kept type kvs kvs' ∧ (∀ j, kvstoreDictSize kvs' j = kvstoreDictSize kvs j) ∧
    Swept type (dictEntries kvs didx) v upto es v' ∧ (skip → v' = 0) := by
  cases hd : kvs.dicts didx with
  | none =>
    refine ⟨true, [], 0, kvs, 2 ^ 64, by rw [scanDict, hd], Kept.refl h, fun _ => rfl,
      ⟨rank_lt v, le_refl _, ?_, ?_⟩, fun _ => rfl⟩
    · exact (rank_eq_zero_iff _).mpr rfl
    · intro key val hmem
      rw [dictEntries, hd] at hmem
      cases hmem
  | some d =>
    obtain ⟨es, v', upto, hscan, hswept, _⟩ := dictScan_swept (h.dicts.dict_ok didx d hd).1 v
    refine ⟨false, es, v', freeDictIfNeeded kvs didx, upto, ?_, freeDictIfNeeded_spec h hdidx,
      freeDictIfNeeded_size kvs didx, ?_, fun hskip => by cases hskip⟩
    · simp [scanDict, hd, hscan]
    · rwa [dictEntries, hd]

variable [DecidableEq K]

lemma hasKey_iff (kvs : Kvstore K V) (didx : Nat) (key : K) :
    hasKey kvs didx key ↔ ∃ val, (key, val) ∈ dictEntries kvs didx := by
  rw [hasKey, dictEntries]
  cases kvs.dicts didx with
  | none => simp
  | some d => simp

lemma size_ne_zero_of_hasKey (h : StoreOk type kvs)
    {key : K} (hkey : hasKey kvs didx key) : kvstoreDictSize kvs didx ≠ 0 := by
  obtain ⟨val, hmem⟩ := (hasKey_iff kvs didx key).mp hkey
  rw [dictEntries] at hmem
  rw [kvstoreDictSize]
  cases hd : kvs.dicts didx with
  | none =>
    rw [hd] at hmem
    cases hmem
  | some d =>
    rw [hd] at hmem
    intro hzero
    exact (h.dicts.dict_ok didx d hd).1.not_mem_of_size hzero key val hmem

/-- What one call does: it goes on, it ends only behind the last dict with
keys, and a key that was ahead of it is passed on or still ahead. -/
structure Visited (type : DictType K) (kvs : Kvstore K V) (cursor : BitVec 64)
    (r : ScanResult K V) : Prop where
  progress : r.next ≠ 0 → Before kvs cursor r.next
  done : r.next = 0 → ∀ j, (getAndClearDictIndexFromCursor kvs cursor).1 < j →
    j < kvs.numDicts → kvstoreDictSize kvs j = 0
  covers : ∀ didx key, didx < kvs.numDicts → hasKey kvs didx key = true →
    Ahead type kvs cursor didx key →
    (∃ val, (key, val) ∈ r.emitted) ∨ (r.next ≠ 0 ∧ Ahead type kvs r.next didx key)

lemma visited_within (hbits : kvs.numDictsBits ≤ 16) {v' : BitVec 64} {upto : Nat}
    {es : List (K × V)} (hpos : getAndClearDictIndexFromCursor kvs cursor = (didx, v))
    (hswept : Swept type (dictEntries kvs didx) v upto es v') (hrank : rank v' = upto)
    (hne : v' ≠ 0) (hfits : v'.toNat < 2 ^ (64 - kvs.numDictsBits)) :
    Visited type kvs cursor ⟨es, v', addDictIndexToCursor kvs didx v'⟩ := by
  have hdidx : didx < kvs.numDicts := by
    have := getAndClear_lt kvs cursor
    rwa [hpos] at this
  have hread := getAndClear_add hbits hdidx hfits
  have hnext := addDictIndex_ne_zero hbits hdidx hfits (.inr hne)
  refine ⟨fun _ => ?_, fun hzero => absurd hzero hnext, ?_⟩
  · rw [Before, hpos, hread]
    exact .inr ⟨rfl, show rank v < rank v' by rw [hrank]; exact hswept.lt⟩
  intro j key hj hkey hahead
  rw [Ahead, hpos] at hahead
  by_cases hnow : didx = j ∧ hashRank type key < upto
  · left
    obtain ⟨val, hmem⟩ := (hasKey_iff kvs j key).mp hkey
    rw [← hnow.1] at hmem
    exact ⟨val, hswept.covers key val hmem (by omega) hnow.2⟩
  · right
    refine ⟨hnext, ?_⟩
    rw [Ahead, hread]
    omega

/-- A call that ends its dict passes on every key of it that was ahead. -/
lemma emitted_or_later {v' : BitVec 64} {es : List (K × V)}
    (hpos : getAndClearDictIndexFromCursor kvs cursor = (didx, v))
    (hswept : Swept type (dictEntries kvs didx) v (2 ^ 64) es v') {j : Nat} {key : K}
    (hkey : hasKey kvs j key) (hahead : Ahead type kvs cursor j key) :
    (∃ val, (key, val) ∈ es) ∨ didx < j := by
  rw [Ahead, hpos] at hahead
  rcases hahead with hlater | ⟨heq, hle⟩
  · exact .inr hlater
  left
  obtain ⟨val, hmem⟩ := (hasKey_iff kvs j key).mp hkey
  have heq' : didx = j := heq
  rw [← heq'] at hmem
  exact ⟨val, hswept.covers key val hmem hle (rank_lt _)⟩

lemma kvstoreScan_spec (h : StoreOk type kvs) (cursor : BitVec 64) :
    ∃ r kvs', kvstoreScan kvs cursor none (fun _ => false) = some (r, kvs') ∧ Kept type kvs kvs' ∧
    (r.dictCursor.toNat < 2 ^ (64 - kvs.numDictsBits) → Visited type kvs cursor r) := by
  have hbits := h.dicts.bits_le
  obtain ⟨⟨didx, v⟩, hpos⟩ : ∃ p, getAndClearDictIndexFromCursor kvs cursor = p := ⟨_, rfl⟩
  have hlt : didx < kvs.numDicts := by
    have := getAndClear_lt kvs cursor
    rwa [hpos] at this
  obtain ⟨skip, es, v', kvs', upto, hscan, hkept, hsizes, hswept, hskip⟩ := scanDict_spec h hlt v
  have hadd : ∀ j, addDictIndexToCursor kvs' j v' = addDictIndexToCursor kvs j v' := by
    intro j
    rw [addDictIndexToCursor, addDictIndexToCursor, hkept.numDicts_eq, hkept.bits_eq]
  rcases hswept.next_cases with ⟨hzero, hupto⟩ | ⟨hne, hrank, _⟩
  · subst hupto hzero
    obtain ⟨next, hnext, hfound⟩ := nextNonEmpty_spec hkept.ok
      (show didx < kvs'.numDicts by rwa [hkept.numDicts_eq])
    rw [hkept.numDicts_eq] at hfound
    simp only [hsizes] at hfound
    have hcall : kvstoreScan kvs cursor none (fun _ => false) =
      some (⟨es, 0, next.elim 0 (fun j => addDictIndexToCursor kvs j 0)⟩, kvs') := by
      rw [kvstoreScan, hpos]
      simp only [scanFrom, hscan, some_bind, hnext, hadd]
      cases next <;> rfl
    cases next with
    | none =>
      refine ⟨⟨es, 0, 0⟩, kvs', hcall, hkept, fun _ => ⟨fun hne => absurd rfl hne, fun _ => ?_, ?_⟩⟩
      · rw [hpos]
        exact hfound
      intro j key hj hkey hahead
      rcases emitted_or_later hpos hswept hkey hahead with hout | hlater
      · exact .inl hout
      · exact absurd (hfound j hlater hj) (size_ne_zero_of_hasKey h hkey)
    | some didx' =>
      obtain ⟨hgt, hlt', hfirst⟩ := hfound
      have hfits : (0 : BitVec 64).toNat < 2 ^ (64 - kvs.numDictsBits) := Nat.two_pow_pos _
      have hread := getAndClear_add hbits hlt' hfits
      have hne := addDictIndex_ne_zero hbits hlt' hfits (.inl (by omega))
      refine ⟨⟨es, 0, addDictIndexToCursor kvs didx' 0⟩, kvs', hcall, hkept,
        fun _ => ⟨fun _ => ?_, fun hz => absurd hz hne, ?_⟩⟩
      · rw [Before, hpos, hread]
        exact .inl hgt
      intro j key hj hkey hahead
      rcases emitted_or_later hpos hswept hkey hahead with hout | hlater
      · exact .inl hout
      refine .inr ⟨hne, ?_⟩
      have hle := hfirst j hlater hj (size_ne_zero_of_hasKey h hkey)
      rw [Ahead, hread]
      have hstart : rank (0 : BitVec 64) = 0 := (rank_eq_zero_iff _).mpr rfl
      omega
  · refine ⟨⟨es, v', addDictIndexToCursor kvs didx v'⟩, kvs', ?_, hkept,
      fun hfits => visited_within hbits hpos hswept hrank hne hfits⟩
    have hskip' : skip = false := by
      cases skip with
      | false => rfl
      | true => exact absurd (hskip rfl) hne
    rw [kvstoreScan, hpos]
    simp only [scanFrom, hscan, some_bind, hne, hskip', decide_false, Bool.or_self,
      Bool.false_eq_true, if_false, hadd]

/-- A call of `kvstoreScan`: the store it finds, its cursor and its result. -/
structure StoreScanCall (K V : Type) where
  store : Kvstore K V
  cursor : BitVec 64
  result : ScanResult K V

/-- Calls of `kvstoreScan` over all dicts, each with the cursor returned by the
one before, until the cursor is 0 or the caller stops; `gaps` is what happens
between the calls.  The result is the calls and the last cursor. -/
def storeScanCalls {bits : Nat} (type : DictType K) :
    List (List (Event bits K V)) → Kvstore K V → BitVec 64 →
      Option (List (StoreScanCall K V) × BitVec 64)
  | [], kvs, cursor => do
      let (r, _) ← kvstoreScan kvs cursor none (fun _ => false)
      some ([⟨kvs, cursor, r⟩], r.next)
  | gap :: gaps, kvs, cursor => do
      let (r, kvs') ← kvstoreScan kvs cursor none (fun _ => false)
      if r.next = 0 then some ([⟨kvs, cursor, r⟩], r.next)
      else
        let kvs'' ← run (storeStep type) kvs' gap
        let (calls, last) ← storeScanCalls type gaps kvs'' r.next
        some (⟨kvs, cursor, r⟩ :: calls, last)

/-- The cursors that the dicts return leave room for the index of the dict. -/
def CursorsFit (bits : Nat) (calls : List (StoreScanCall K V)) : Prop :=
  ∀ c ∈ calls, c.result.dictCursor.toNat < 2 ^ (64 - bits)

/-- What the calls from a cursor on do. -/
structure StoreScanned (type : DictType K) (kvs : Kvstore K V) (cursor : BitVec 64)
    (calls : List (StoreScanCall K V)) (last : BitVec 64) : Prop where
  progress : ∀ c ∈ calls, c.result.next ≠ 0 → Before c.store c.cursor c.result.next
  done : ∀ c ∈ calls, c.result.next = 0 → ∀ j,
    (getAndClearDictIndexFromCursor c.store c.cursor).1 < j → j < kvs.numDicts →
      kvstoreDictSize c.store j = 0
  complete : last = 0 → ∀ didx key, didx < kvs.numDicts → Ahead type kvs cursor didx key →
    (∀ c ∈ calls, hasKey c.store didx key = true) →
    ∃ c ∈ calls, ∃ val, (key, val) ∈ c.result.emitted

lemma storeScanned_single {r : ScanResult K V} (h : Visited type kvs cursor r) :
    StoreScanned type kvs cursor [⟨kvs, cursor, r⟩] r.next where
  progress := by
    intro c hc
    rw [mem_singleton.mp hc]
    exact h.progress
  done := by
    intro c hc
    rw [mem_singleton.mp hc]
    exact h.done
  complete := by
    intro hzero didx key hdidx hahead hpresent
    have hkey := hpresent _ (mem_singleton_self _)
    rcases h.covers didx key hdidx hkey hahead with hout | ⟨hne, _⟩
    · exact ⟨_, mem_singleton_self _, hout⟩
    · exact absurd hzero hne

/-- A call in front of a scan that goes on from its cursor. -/
lemma StoreScanned.cons {kvs' : Kvstore K V}
    {last : BitVec 64} {r : ScanResult K V} {calls : List (StoreScanCall K V)}
    (h : Visited type kvs cursor r) (hbits : kvs'.numDictsBits = kvs.numDictsBits)
    (hrest : StoreScanned type kvs' r.next calls last) :
    StoreScanned type kvs cursor (⟨kvs, cursor, r⟩ :: calls) last := by
  have hnum : kvs'.numDicts = kvs.numDicts := by rw [Kvstore.numDicts, hbits, Kvstore.numDicts]
  have hread : ∀ c, getAndClearDictIndexFromCursor kvs' c =
    getAndClearDictIndexFromCursor kvs c := by
    intro c
    rw [getAndClearDictIndexFromCursor, getAndClearDictIndexFromCursor, hnum, hbits]
  constructor
  · intro c hc
    rcases mem_cons.mp hc with rfl | hc
    · exact h.progress
    · exact hrest.progress c hc
  · intro c hc
    rcases mem_cons.mp hc with rfl | hc
    · exact h.done
    · have := hrest.done c hc
      rwa [hnum] at this
  intro hzero didx key hdidx hahead hpresent
  have hkey := hpresent _ (mem_cons_self ..)
  rcases h.covers didx key hdidx hkey hahead with hout | ⟨_, hlater⟩
  · exact ⟨_, mem_cons_self .., hout⟩
  rw [Ahead, ← hread] at hlater
  obtain ⟨c, hc, hout⟩ := hrest.complete hzero didx key (hnum ▸ hdidx) hlater
    (fun c hc => hpresent c (mem_cons_of_mem _ hc))
  exact ⟨c, mem_cons_of_mem _ hc, hout⟩

lemma storeScanCalls_spec {bits : Nat} (gaps : List (List (Event bits K V))) (h : StoreOk type kvs)
    (hbits : kvs.numDictsBits = bits) (cursor : BitVec 64) :
    ∃ calls last, storeScanCalls type gaps kvs cursor = some (calls, last) ∧
    (CursorsFit bits calls → StoreScanned type kvs cursor calls last) := by
  obtain ⟨r, kvs', hscan, hkept, hvisited⟩ := kvstoreScan_spec h cursor
  rw [hbits] at hvisited
  induction gaps generalizing kvs cursor r kvs' with
  | nil =>
    refine ⟨[⟨kvs, cursor, r⟩], r.next, ?_, fun hfit =>
      storeScanned_single (hvisited (hfit _ (mem_singleton_self _)))⟩
    simp [storeScanCalls, hscan]
  | cons gap gaps ih =>
    by_cases hzero : r.next = 0
    · refine ⟨[⟨kvs, cursor, r⟩], r.next, ?_, fun hfit =>
        storeScanned_single (hvisited (hfit _ (mem_singleton_self _)))⟩
      simp [storeScanCalls, hscan, hzero]
    obtain ⟨kvs'', hgap, hok, hbits'⟩ := run_storeOk hkept.ok (hkept.bits_eq.trans hbits) gap
    obtain ⟨r', kvs3, hscan', hkept', hvisited'⟩ := kvstoreScan_spec hok r.next
    rw [hbits'] at hvisited'
    obtain ⟨calls, last, hcalls, hrest⟩ := ih hok hbits' r.next r' kvs3 hscan' hkept' hvisited'
    refine ⟨⟨kvs, cursor, r⟩ :: calls, last, ?_, fun hfit => StoreScanned.cons
      (hvisited (hfit _ (mem_cons_self ..))) (hbits'.trans hbits.symm)
      (hrest (fun c hc => hfit c (mem_cons_of_mem _ hc)))⟩
    simp only [storeScanCalls, hscan, some_bind, if_neg hzero, hgap, hcalls]

/-- A scan over all dicts of a store with any history, with any operations
between its calls, in which the cursors of the dicts leave room for the index:
each call that does not end the scan moves the cursor on, the scan ends only
when no later dict has keys, and if it has ended, every key that was in its
dict at each call has been passed on. -/
theorem keyspace_scan_complete {bits : Nat} (type : DictType K) {onDemand freeEmpty : Bool}
    {kvs₀ : Kvstore K V} (hcreate : kvstoreCreate bits onDemand freeEmpty = some kvs₀)
    (history : List (Event bits K V)) (gaps : List (List (Event bits K V))) :
    ∃ kvs calls last, run (storeStep type) kvs₀ history = some kvs ∧
      storeScanCalls type gaps kvs 0 = some (calls, last) ∧
      (CursorsFit bits calls →
        (∀ c ∈ calls, c.result.next ≠ 0 → Before c.store c.cursor c.result.next) ∧
        (∀ c ∈ calls, c.result.next = 0 → ∀ j,
          (getAndClearDictIndexFromCursor c.store c.cursor).1 < j → j < 2 ^ bits →
            kvstoreDictSize c.store j = 0) ∧
        (last = 0 → ∀ didx key, didx < 2 ^ bits → (∀ c ∈ calls, hasKey c.store didx key = true) →
          ∃ c ∈ calls, ∃ val, (key, val) ∈ c.result.emitted)) := by
  obtain ⟨hok₀, _, hbits₀⟩ := kvstoreCreate_spec type hcreate
  obtain ⟨kvs, hrun, hok, hbits⟩ := run_storeOk hok₀ hbits₀ history
  obtain ⟨calls, last, hcalls, hscanned⟩ := storeScanCalls_spec gaps hok hbits 0
  refine ⟨kvs, calls, last, hrun, hcalls, fun hfit => ?_⟩
  have hscan := hscanned hfit
  have hnum : kvs.numDicts = 2 ^ bits := by rw [Kvstore.numDicts, hbits]
  refine ⟨hscan.progress, hnum ▸ hscan.done, fun hzero didx key hdidx => ?_⟩
  apply hscan.complete hzero didx key (hnum ▸ hdidx)
  -- everything is ahead of the cursor 0
  rw [Ahead, getAndClear_zero]
  have hstart : rank (0 : BitVec 64) = 0 := (rank_eq_zero_iff _).mpr rfl
  omega

/-- Two dicts with a key each; the second gets another key during the scan and
the key of the first stays. -/
private def twoSlots : List (Event 1 Nat Nat) :=
  [.onDict ⟨0, by decide⟩ ⟨.enable, none⟩ (.addRaw 1 10),
    .onDict ⟨1, by decide⟩ ⟨.enable, none⟩ (.addRaw 2 20)]

private def whileScanning : List (List (Event 1 Nat Nat)) :=
  replicate 9 [.onDict ⟨1, by decide⟩ ⟨.enable, none⟩ (.addRaw 3 30)]

theorem keyspace_scan_complete_twoSlots : ∃ kvs₀, kvstoreCreate 1 true true = some kvs₀ ∧
      ∃ kvs calls last,
        run (storeStep ⟨fun k : Nat => k.toUInt64, false⟩) kvs₀ twoSlots = some kvs ∧
        storeScanCalls ⟨fun k : Nat => k.toUInt64, false⟩ whileScanning kvs 0 = some (calls, last) ∧
        CursorsFit 1 calls ∧ last = 0 ∧
        ∃ c ∈ calls, ∃ val, ((1 : Nat), val) ∈ c.result.emitted := by
  have hcreate : kvstoreCreate 1 true true =
      some (⟨true, fun _ => none, 1, 0, 0, 0, fun _ => 0⟩ : Kvstore Nat Nat) := rfl
  obtain ⟨kvs, calls, last, hrun, hcalls, hscan⟩ := keyspace_scan_complete
    ⟨fun k : Nat => k.toUInt64, false⟩ hcreate twoSlots whileScanning
  have hcomputed : ((run (storeStep ⟨fun k : Nat => k.toUInt64, false⟩)
        (⟨true, fun _ => none, 1, 0, 0, 0, fun _ => 0⟩ : Kvstore Nat Nat) twoSlots).bind
        fun kvs => storeScanCalls ⟨fun k : Nat => k.toUInt64, false⟩ whileScanning kvs 0).map
        (fun r => (r.1.all fun c => decide (c.result.dictCursor.toNat < 2 ^ (64 - 1)) &&
          hasKey c.store 0 1, r.2)) = some (true, 0) := by decide +kernel
  rw [hrun, Option.bind_some, hcalls, Option.map_some, Option.some.injEq, Prod.mk.injEq,
    all_eq_true] at hcomputed
  simp only [Bool.and_eq_true, decide_eq_true_eq] at hcomputed
  have hfit : CursorsFit 1 calls := fun c hc => (hcomputed.1 c hc).1
  exact ⟨_, hcreate, kvs, calls, last, hrun, hcalls, hfit, hcomputed.2,
    (hscan hfit).2.2 hcomputed.2 0 1 (by decide) (fun c hc => (hcomputed.1 c hc).2)⟩

/-- `random` is what `randomULong` returns. -/
def kvstoreGetFairRandomDictIndex (kvs : Kvstore K V) (random : Nat) : Option Nat :=
  kvstoreFindDictIndexByKeyIndex kvs
    (if kvstoreSize kvs = 0 then 0 else random % kvstoreSize kvs + 1)

omit [DecidableEq K] in
lemma randomDict_spec (h : StoreOk type kvs) (r : Nat) : ∃ didx < kvs.numDicts,
    kvstoreGetFairRandomDictIndex kvs r = some didx ∧ (r < kvstoreSize kvs →
      cumulative (sizes kvs) didx ≤ r ∧ r < cumulative (sizes kvs) (didx + 1)) := by
  have hpos : 0 < kvs.numDicts := Nat.two_pow_pos _
  have hsize := kvstoreSize_eq h
  have hnonneg := cumulative_mono (sizes_nonneg kvs) hpos.le
  have hzero := cumulative_zero (sizes kvs)
  rw [kvstoreGetFairRandomDictIndex]
  by_cases hfirst : kvs.numDicts = 1 ∨ kvstoreSize kvs = 0
  · refine ⟨0, hpos, by simp [kvstoreFindDictIndexByKeyIndex, hfirst], fun hr => ?_⟩
    rw [hfirst.resolve_right (by omega)] at hsize
    rw [zero_add]
    omega
  rw [not_or] at hfirst
  have hmod := Int.emod_nonneg r hfirst.2
  have hlt := Int.emod_lt_of_pos r (show 0 < kvstoreSize kvs by omega)
  obtain ⟨didx, hfind, hdidx, hlow, hhigh⟩ :=
    findDictIndex_spec h hfirst.1 (show 0 < (r : Int) % kvstoreSize kvs + 1 by omega) hlt
  rw [if_neg hfirst.2]
  refine ⟨didx, hdidx, hfind, fun hr => ?_⟩
  rw [Int.emod_eq_of_lt (by omega) hr] at hlow hhigh
  omega

/-- Every random number chooses a dict, and of the numbers below the number of
keys each dict is chosen by as many as it has keys. -/
theorem random_dict_fair {bits : Nat} (type : DictType K) {onDemand freeEmpty : Bool}
    {kvs₀ : Kvstore K V} (hcreate : kvstoreCreate bits onDemand freeEmpty = some kvs₀)
    (history : List (Event bits K V)) :
    ∃ kvs, run (storeStep type) kvs₀ history = some kvs ∧
      (∀ r, ∃ didx < kvs.numDicts, kvstoreGetFairRandomDictIndex kvs r = some didx) ∧
      ∀ didx < kvs.numDicts, ∃ a : Nat, a + kvstoreDictSize kvs didx ≤ kvstoreSize kvs ∧
        ∀ r : Nat, r < kvstoreSize kvs → (kvstoreGetFairRandomDictIndex kvs r = some didx ↔
          a ≤ r ∧ r < a + kvstoreDictSize kvs didx) := by
  obtain ⟨hok₀, _, hbits₀⟩ := kvstoreCreate_spec type hcreate
  obtain ⟨kvs, hrun, hok, -⟩ := run_storeOk hok₀ hbits₀ history
  refine ⟨kvs, hrun, fun r => (randomDict_spec hok r).imp fun _ h => ⟨h.1, h.2.1⟩,
    fun didx hdidx => ?_⟩
  have hmono {a b} (h : a < b) : cumulative (sizes kvs) (a + 1) ≤ cumulative (sizes kvs) b :=
    cumulative_mono (sizes_nonneg kvs) h
  have hfirst := cumulative_mono (sizes_nonneg kvs) didx.zero_le
  have hzero := cumulative_zero (sizes kvs)
  have hsucc : cumulative (sizes kvs) (didx + 1) =
    cumulative (sizes kvs) didx + kvstoreDictSize kvs didx := cumulative_succ ..
  have hlast := hmono hdidx
  have hsize := kvstoreSize_eq hok
  refine ⟨(cumulative (sizes kvs) didx).toNat, by omega, fun r hr => ?_⟩
  obtain ⟨i, -, hchosen, hin⟩ := randomDict_spec hok r
  rw [hchosen, Option.some.injEq]
  have hbetween := hin hr
  constructor
  · rintro rfl
    omega
  · have hbelow (h : i < didx) := hmono h
    have habove (h : didx < i) := hmono h
    omega

/-- Both dicts have one key: one of the numbers 0 and 1 chooses the first. -/
theorem random_dict_fair_refilled : ∃ kvs₀ kvs, kvstoreCreate 1 true true = some kvs₀ ∧
    run (storeStep ⟨fun k : Nat => k.toUInt64, false⟩) kvs₀ refilled = some kvs ∧
    ∃ a < 2, ∀ r < 2, kvstoreGetFairRandomDictIndex kvs r = some 0 ↔ r = a := by
  obtain ⟨kvs, hrun, -, hfair⟩ := random_dict_fair ⟨fun k : Nat => k.toUInt64, false⟩
    (show kvstoreCreate 1 true true = some _ from rfl) refilled
  have hsizes : ((kvstoreCreate 1 true true).bind
      (run (storeStep ⟨fun k : Nat => k.toUInt64, false⟩) · refilled)).map
      (fun kvs => (kvstoreSize kvs, kvstoreDictSize kvs 0)) = some (2, 1) := by decide +kernel
  rw [show kvstoreCreate 1 true true = some _ from rfl, Option.bind_some, hrun, Option.map_some,
    Option.some.injEq, Prod.mk.injEq] at hsizes
  obtain ⟨a, ha, hiff⟩ := hfair 0 (Nat.two_pow_pos _)
  exact ⟨_, kvs, rfl, hrun, a, by omega, fun r hr => (hiff r (by omega)).trans (by omega)⟩

end Dice.Ports.KvstoreScan
