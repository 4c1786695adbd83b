import Dice.Ports.DictRefinement
import Dice.Verified.ReverseCursor

/-!
# Scanning the hash table

`dictScan` visits a few buckets for each call and keeps no state but the
cursor the caller passes back.  Between two calls the table may be resized any
number of times.  That nothing is missed rests on the order of the cursors:
in the order of their reversed bits a bucket is an interval of hashes, in a
table of any size, and a call deals with an interval that starts at or below
the cursor and ends where the next cursor is.
-/

namespace Dice.Ports.DictScan

open Verified Run ReverseCursor DictTable DictInvariant DictRefinement List Nat

/-- The loop of `rev`, where `s` is `2 ^ n`. -/
def revLoop : Nat → BitVec 64 → BitVec 64 → BitVec 64
  | 0, _, v => v
  | n + 1, mask, v =>
    let s := 2 ^ n
    let mask := mask ^^^ (mask <<< s)
    revLoop n mask (((v >>> s) &&& mask) ||| ((v <<< s) &&& ~~~mask))

def rev (v : BitVec 64) : BitVec 64 := revLoop 6 (~~~0) v

/-- Increment the reverse cursor on the bits of a mask. -/
def nextCursor (m v : BitVec 64) : BitVec 64 := rev (rev (v ||| ~~~m) + 1)

variable {K V : Type}

/-- The mask of a table. -/
def tableMask (t : HashTable K V) : BitVec 64 := BitVec.ofNat 64 (dicthtSizeMask t.sizeExp)

/-- The entries of the bucket at a cursor. -/
def bucketAt (t : HashTable K V) (v : BitVec 64) : Option (List (K × V)) :=
  t.table[(v &&& tableMask t).toNat]?

/-- The loop over the buckets of the larger table that are expansions of the
bucket in the smaller one; it ends within as many rounds as there are buckets. -/
def scanExpansions (small large : HashTable K V) :
    Nat → BitVec 64 → Option (List (K × V) × BitVec 64)
  | 0, _ => none
  | fuel + 1, v => do
      let chain ← bucketAt large v
      let v := nextCursor (tableMask large) v
      if v &&& (tableMask small ^^^ tableMask large) ≠ 0 then
        let (es, v) ← scanExpansions small large fuel v
        some (chain ++ es, v)
      else some (chain, v)

/-- The two tables, the smaller one first. -/
def orderedTables (d : Dict K V) : HashTable K V × HashTable K V :=
  if dicthtSize d.ht0.sizeExp > dicthtSize d.ht1.sizeExp then (d.ht1, d.ht0)
  else (d.ht0, d.ht1)

/-- `dictScan`: the entries passed to the callback, and the next cursor. -/
def dictScan (d : Dict K V) (v : BitVec 64) : Option (List (K × V) × BitVec 64) :=
  if d.size = 0 then some ([], 0)
  else if !d.isRehashing then do
    let chain ← bucketAt d.ht0 v
    some (chain, nextCursor (tableMask d.ht0) v)
  else do
    let (small, large) := orderedTables d
    let chain ← bucketAt small v
    let (es, v) ← scanExpansions small large (dicthtSize large.sizeExp) v
    some (chain ++ es, v)

/-- One round of `rev` exchanges the bits whose indices differ in bit `n`. -/
lemma swap_getLsbD {n : Nat} (hn : n < 6) {m : BitVec 64}
    (hm : ∀ i < 64, m.getLsbD i = !i.testBit n) (v : BitVec 64) {i : Nat} (hi : i < 64) :
    (((v >>> 2 ^ n) &&& m) ||| ((v <<< 2 ^ n) &&& ~~~m)).getLsbD i = v.getLsbD (i ^^^ 2 ^ n) := by
  have hxor : ∀ n < 6, ∀ i < 64,
    i ^^^ 2 ^ n = if i.testBit n then i - 2 ^ n else 2 ^ n + i := by decide +kernel
  have hge : ∀ n < 6, ∀ i < 64, i.testBit n → ¬ i < 2 ^ n := by decide +kernel
  rw [hxor n hn i hi]
  simp only [BitVec.getLsbD_or, BitVec.getLsbD_and, BitVec.getLsbD_shiftLeft, BitVec.getLsbD_not,
    hm i hi, hi]
  cases hbit : i.testBit n with
  | true => simp [hge n hn i hi hbit]
  | false => simp

lemma xor_lt {n i : Nat} (hn : n < 6) (hi : i < 64) : i ^^^ 2 ^ n < 64 :=
  Nat.xor_lt_two_pow (n := 6) hi (Nat.pow_lt_pow_right (by decide) hn)

lemma rev_eq_reverse (v : BitVec 64) : rev v = v.reverse := by
  apply BitVec.eq_of_getLsbD_eq
  intro i hi
  have h0 := xor_lt (n := 0) (by decide) hi
  have h1 := xor_lt (n := 1) (by decide) h0
  have h2 := xor_lt (n := 2) (by decide) h1
  have h3 := xor_lt (n := 3) (by decide) h2
  have h4 := xor_lt (n := 4) (by decide) h3
  simp only [rev, revLoop]
  rw [swap_getLsbD (by decide) (by decide +kernel) _ hi,
    swap_getLsbD (by decide) (by decide +kernel) _ h0,
    swap_getLsbD (by decide) (by decide +kernel) _ h1,
    swap_getLsbD (by decide) (by decide +kernel) _ h2,
    swap_getLsbD (by decide) (by decide +kernel) _ h3,
    swap_getLsbD (by decide) (by decide +kernel) _ h4,
    BitVec.getLsbD_reverse, BitVec.getMsbD_eq_getLsbD]
  have hall : ∀ i < 64, i ^^^ 2 ^ 0 ^^^ 2 ^ 1 ^^^ 2 ^ 2 ^^^ 2 ^ 3 ^^^ 2 ^ 4 ^^^ 2 ^ 5 =
    64 - 1 - i := by decide +kernel
  rw [hall i hi]
  simp [hi]

/-- The cursor moves to the next bucket of the table. -/
lemma nextCursor_eq (k : Nat) (v : BitVec 64) : nextCursor (mask 64 k) v = next k v := by
  rw [nextCursor, rev_eq_reverse, rev_eq_reverse, Verified.ReverseCursor.next]

/-! ## One call -/

/-- The place of a key in the order of the scan. -/
def hashRank (type : DictType K) (key : K) : Nat := rank (type.hashFunction key).toBitVec

variable {t : HashTable K V} {type : DictType K} {es : List (K × V)} {v v' : BitVec 64} {upto : Nat}
  {d : Dict K V}

lemma tableMask_eq (hexp : t.sizeExp ≠ -1) : tableMask t = mask 64 t.sizeExp.toNat := by
  rw [tableMask, dicthtSizeMask, if_neg hexp, dicthtSize, if_neg hexp, mask]

lemma toNat_and_mask {k : Nat} (hk : k ≤ 63) (v : BitVec 64) :
    (v &&& mask 64 k).toNat = v.toNat % 2 ^ k := by
  have hlt : 2 ^ k - 1 < 2 ^ 64 := by
    have : 2 ^ k ≤ 2 ^ 63 := Nat.pow_le_pow_right (by decide) hk
    omega
  rw [BitVec.toNat_and, mask, BitVec.toNat_ofNat, mod_eq_of_lt hlt, and_two_pow_sub_one_eq_mod]

lemma TableOk.toNat_le (h : TableOk type t) : t.sizeExp.toNat ≤ 63 := by
  have := h.exp_le
  omega

lemma TableOk.size_le (h : TableOk type t) : dicthtSize t.sizeExp ≤ 2 ^ 64 := by
  rw [dicthtSize]
  split
  · omega
  · exact Nat.pow_le_pow_right (by decide) (by have := TableOk.toNat_le h; omega)

/-- The bucket at a cursor holds the entries from the cursor to the end of the block. -/
lemma bucketAt_spec (h : TableOk type t) (hexp : t.sizeExp ≠ -1) (v : BitVec 64) :
    ∃ chain, bucketAt t v = some chain ∧ ∀ key val, (key, val) ∈ t.entries →
    rank v ≤ hashRank type key →
    hashRank type key < blockEnd 64 t.sizeExp.toNat (rank v) → (key, val) ∈ chain := by
  have hk := TableOk.toNat_le h
  obtain ⟨chain, hchain⟩ := h.bucket hexp v.toNat
  have hbucket : bucketAt t v = t.table[bucketIndex v.toNat t.sizeExp]? := by
    rw [bucketAt, tableMask_eq hexp, toNat_and_mask hk, bucketIndex_eq_mod hexp]
  refine ⟨chain, hbucket.trans hchain, ?_⟩
  intro key val hmem hle hlt
  have hpos : position type t.sizeExp (key, val) = bucketIndex v.toNat t.sizeExp := by
    rw [position, bucketIndex_eq_mod hexp, bucketIndex_eq_mod hexp]
    exact (mod_eq_iff_div_eq (by omega) (type.hashFunction key).toBitVec v).mpr
      (div_eq_of_lt_blockEnd hle hlt)
  rw [← hpos] at hchain
  exact (h.placed.mem_flatten hchain).mp hmem

/-- What a call does: it passes on all entries from the rank of its cursor up to
`upto`, which is where the next cursor is. -/
structure Swept (type : DictType K) (entries : List (K × V)) (v : BitVec 64) (upto : Nat)
    (es : List (K × V)) (v' : BitVec 64) : Prop where
  lt : rank v < upto
  le : upto ≤ 2 ^ 64
  next_rank : rank v' = upto % 2 ^ 64
  covers : ∀ key val, (key, val) ∈ entries → rank v ≤ hashRank type key →
    hashRank type key < upto → (key, val) ∈ es

/-- The last interval ends with the cursor 0, the others where the next starts. -/
lemma Swept.next_cases {entries : List (K × V)} (h : Swept type entries v upto es v') :
    (v' = 0 ∧ upto = 2 ^ 64) ∨ (v' ≠ 0 ∧ rank v' = upto ∧ upto < 2 ^ 64) := by
  have hrank := h.next_rank
  rcases eq_or_lt_of_le h.le with heq | hlt
  · rw [heq] at hrank
    exact .inl ⟨(rank_eq_zero_iff v').mp hrank, heq⟩
  rw [mod_eq_of_lt hlt] at hrank
  refine .inr ⟨fun hzero => ?_, hrank, hlt⟩
  have := h.lt
  rw [← rank_eq_zero_iff] at hzero
  omega

lemma Swept.append {entries es' : List (K × V)}
    {v'' : BitVec 64} {upto' : Nat} (h : Swept type entries v upto es v')
    (hrank : rank v' = upto) (h' : Swept type entries v' upto' es' v'') :
    Swept type entries v upto' (es ++ es') v'' where
  lt := lt_trans h.lt (hrank ▸ h'.lt)
  le := h'.le
  next_rank := h'.next_rank
  covers := by
    intro key val hmem hle hlt
    by_cases hfirst : hashRank type key < upto
    · exact mem_append_left _ (h.covers key val hmem hle hfirst)
    · exact mem_append_right _ (h'.covers key val hmem (by omega) hlt)

lemma bucket_swept (h : TableOk type t) (hexp : t.sizeExp ≠ -1) (v : BitVec 64) :
    ∃ chain, bucketAt t v = some chain ∧
    Swept type t.entries v (blockEnd 64 t.sizeExp.toNat (rank v)) chain
      (nextCursor (tableMask t) v) := by
  have hk := TableOk.toNat_le h
  obtain ⟨chain, hchain, hcovers⟩ := bucketAt_spec h hexp v
  refine ⟨chain, hchain, lt_blockEnd _ _, blockEnd_le (by omega) (rank_lt v), ?_, hcovers⟩
  rw [tableMask_eq hexp, nextCursor_eq, rank_next (by omega)]

/-- The expansions of a bucket of the smaller table make up its block. -/
lemma scanExpansions_swept {small large : HashTable K V}
    (hlarge : TableOk type large) (hexp0 : small.sizeExp ≠ -1)
    (hexp1 : large.sizeExp ≠ -1) (hle : small.sizeExp.toNat ≤ large.sizeExp.toNat)
    (fuel : Nat) (v : BitVec 64) (hfuel : blockEnd 64 small.sizeExp.toNat (rank v) ≤
    (rank v / 2 ^ (64 - large.sizeExp.toNat) + fuel) * 2 ^ (64 - large.sizeExp.toNat)) :
    ∃ es v', scanExpansions small large fuel v = some (es, v') ∧
    Swept type large.entries v (blockEnd 64 small.sizeExp.toNat (rank v)) es v' := by
  have hk := TableOk.toNat_le hlarge
  induction fuel generalizing v with
  | zero =>
    have := lt_blockEnd (w := 64) small.sizeExp.toNat (rank v)
    have := div_mul_le_self (rank v) (2 ^ (64 - large.sizeExp.toNat))
    rw [add_zero] at hfuel
    omega
  | succ fuel ih =>
    obtain ⟨chain, hchain, hswept⟩ := bucket_swept hlarge hexp1 v
    have hend := dvd_blockEnd (w := 64) small.sizeExp.toNat (rank v)
    have hend' : 2 ^ (64 - large.sizeExp.toNat) ∣
      blockEnd 64 small.sizeExp.toNat (rank v) := dvd_trans (two_pow_sub_dvd hle) hend
    have hblock := blockEnd_le_of_dvd (lt_blockEnd (w := 64) _ _) hend'
    have hmod : 2 ^ (64 - large.sizeExp.toNat) ∣ rank (nextCursor (tableMask large) v) := by
      rw [hswept.next_rank]
      exact (dvd_mod_iff (pow_dvd_pow 2 (by omega))).mpr (dvd_blockEnd _ _)
    have hstop : nextCursor (tableMask large) v &&& (tableMask small ^^^ tableMask large) = 0 ↔
      2 ^ (64 - small.sizeExp.toNat) ∣ rank (nextCursor (tableMask large) v) := by
      rw [tableMask_eq hexp0, tableMask_eq hexp1] at *
      exact and_xor_mask_eq_zero_iff hle (by omega) hmod
    rcases eq_or_lt_of_le hblock with heq | hlt
    · -- the last of the expansions
      have hzero : nextCursor (tableMask large) v &&&
        (tableMask small ^^^ tableMask large) = 0 := by
        rw [hstop, hswept.next_rank, heq]
        exact (dvd_mod_iff (pow_dvd_pow 2 (by omega))).mpr hend
      refine ⟨chain, _, ?_, heq ▸ hswept⟩
      simp [scanExpansions, hchain, hzero]
    have hrank : rank (nextCursor (tableMask large) v) =
      blockEnd 64 large.sizeExp.toNat (rank v) := by
      rw [hswept.next_rank]
      have := blockEnd_le (w := 64) (k := small.sizeExp.toNat) (by omega) (rank_lt v)
      exact mod_eq_of_lt (by omega)
    have hsame : blockEnd 64 small.sizeExp.toNat (rank (nextCursor (tableMask large) v)) =
      blockEnd 64 small.sizeExp.toNat (rank v) := by
      rw [hrank]
      exact blockEnd_eq_of_lt (le_of_lt hswept.lt) hlt
    have hne : nextCursor (tableMask large) v &&&
      (tableMask small ^^^ tableMask large) ≠ 0 := by
      rw [ne_eq, hstop, hrank]
      intro hdvd
      have := blockEnd_le_of_dvd hswept.lt hdvd
      omega
    have hdiv : rank (nextCursor (tableMask large) v) / 2 ^ (64 - large.sizeExp.toNat) =
      rank v / 2 ^ (64 - large.sizeExp.toNat) + 1 := by
      rw [hrank, blockEnd, Nat.mul_div_cancel _ (Nat.two_pow_pos _)]
    obtain ⟨es, v', hscan, hswept'⟩ := ih (nextCursor (tableMask large) v)
      (by rw [hsame, hdiv, add_assoc, add_comm 1 fuel]; exact hfuel)
    refine ⟨chain ++ es, v', ?_, hsame ▸ hswept.append hrank hswept'⟩
    simp only [scanExpansions, hchain, some_bind, hne, ne_eq, not_false_eq_true, if_true, hscan]

lemma orderedTables_spec (h : DictOk type d) (hr : d.rehashidx ≠ -1) :
    ∃ small large, orderedTables d = (small, large) ∧
    TableOk type small ∧ TableOk type large ∧ small.sizeExp ≠ -1 ∧ large.sizeExp ≠ -1 ∧
    small.sizeExp.toNat ≤ large.sizeExp.toNat ∧
    ((small = d.ht0 ∧ large = d.ht1) ∨ (small = d.ht1 ∧ large = d.ht0)) := by
  have hexp0 := h.exp₀_ne hr
  have hexp1 := h.exp₁_ne hr
  have hsize : ∀ {a b : Int}, a ≠ -1 → b ≠ -1 → dicthtSize a ≤ dicthtSize b →
    a.toNat ≤ b.toNat := by
    intro a b ha hb hle
    rw [dicthtSize, dicthtSize, if_neg ha, if_neg hb] at hle
    exact (Nat.pow_le_pow_iff_right (by decide)).mp hle
  rw [orderedTables]
  split
  next hgt =>
    exact ⟨d.ht1, d.ht0, rfl, h.ht1, h.ht0, hexp1, hexp0, hsize hexp1 hexp0 (by omega),
      .inr ⟨rfl, rfl⟩⟩
  next hgt =>
    exact ⟨d.ht0, d.ht1, rfl, h.ht0, h.ht1, hexp0, hexp1, hsize hexp0 hexp1 (by omega),
      .inl ⟨rfl, rfl⟩⟩

/-- A call sweeps an interval, which ends at a multiple of the block of every
table size that is not exceeded. -/
lemma dictScan_swept (h : DictOk type d) (v : BitVec 64) :
    ∃ es v' upto, dictScan d v = some (es, v') ∧ Swept type d.entries v upto es v' ∧
    ∀ k ≤ 64, dicthtSize d.ht0.sizeExp ≤ 2 ^ k → dicthtSize d.ht1.sizeExp ≤ 2 ^ k →
      2 ^ (64 - k) ∣ upto := by
  have hdvd : ∀ {k : Nat} {exp : Int} {r : Nat}, exp ≠ -1 → dicthtSize exp ≤ 2 ^ k →
    2 ^ (64 - k) ∣ blockEnd 64 exp.toNat r := by
    intro k exp r hexp hle
    rw [dicthtSize, if_neg hexp] at hle
    exact Nat.dvd_trans (two_pow_sub_dvd ((Nat.pow_le_pow_iff_right (by decide)).mp hle))
      (dvd_blockEnd _ _)
  by_cases hsize : d.size = 0
  · refine ⟨[], 0, 2 ^ 64, by rw [dictScan, if_pos hsize], ?_, ?_⟩
    · refine ⟨rank_lt v, le_refl _, ?_, fun key val hmem => ?_⟩
      · exact (rank_eq_zero_iff _).mpr rfl
      · exact absurd hmem (h.not_mem_of_size hsize key val)
    · exact fun k hk _ _ => pow_dvd_pow 2 (by omega)
  cases hr : d.isRehashing with
  | false =>
    have hne : d.ht0.sizeExp ≠ -1 := fun he =>
      h.allocated_of_size hsize (h.ht0.table_eq_nil_iff.mpr he)
    obtain ⟨chain, hchain, hswept⟩ := bucket_swept h.ht0 hne v
    refine ⟨chain, nextCursor (tableMask d.ht0) v,
      blockEnd 64 d.ht0.sizeExp.toNat (rank v), ?_, ?_, fun k hk h0 _ => hdvd hne h0⟩
    · simp [dictScan, hsize, hr, hchain]
    have hnil : d.ht1.table = [] := by
      rw [← h.rehashidx_iff]
      simpa [Dict.isRehashing] using hr
    have hentries : d.entries = d.ht0.entries := by
      rw [Dict.entries, HashTable.entries, HashTable.entries, hnil, flatten_nil, append_nil]
    rwa [hentries]
  | true =>
    obtain ⟨small, large, horder, hsmall, hlarge, hexp0, hexp1, hle, hwhich⟩ :=
      orderedTables_spec h (isRehashing_iff.mp hr)
    obtain ⟨chain, hchain, hfirst⟩ := bucket_swept hsmall hexp0 v
    have hk := TableOk.toNat_le hlarge
    have hfuel : blockEnd 64 small.sizeExp.toNat (rank v) ≤
      (rank v / 2 ^ (64 - large.sizeExp.toNat) + dicthtSize large.sizeExp) *
        2 ^ (64 - large.sizeExp.toNat) := by
      have hend := blockEnd_le (w := 64) (k := small.sizeExp.toNat) (by omega) (rank_lt v)
      rw [add_mul, dicthtSize, if_neg hexp1, ← two_pow_eq_mul (w := 64) (by omega)]
      omega
    obtain ⟨es, v', hscan, hrest⟩ :=
      scanExpansions_swept hlarge hexp0 hexp1 hle (dicthtSize large.sizeExp) v hfuel
    refine ⟨chain ++ es, v', _, ?_, { hrest with covers := ?_ }, ?_⟩
    · simp [dictScan, hsize, hr, horder, hchain, hscan]
    · intro key val hmem hge hlt
      have hor : (key, val) ∈ small.entries ∨ (key, val) ∈ large.entries := by
        rw [Dict.entries, mem_append] at hmem
        rcases hwhich with ⟨rfl, rfl⟩ | ⟨rfl, rfl⟩
        · exact hmem
        · exact hmem.symm
      rcases hor with hin | hin
      · exact mem_append_left _ (hfirst.covers key val hin hge hlt)
      · exact mem_append_right _ (hrest.covers key val hin hge hlt)
    · intro k hk h0 h1
      apply hdvd hexp0
      rcases hwhich with ⟨rfl, rfl⟩ | ⟨rfl, rfl⟩
      · exact h0
      · exact h1

/-- A call of `dictScan`: the dict it finds, its cursor, what it passes to the
callback and the cursor it returns. -/
structure ScanCall (K V : Type) where
  dict : Dict K V
  cursor : BitVec 64
  emitted : List (K × V)
  next : BitVec 64

variable [DecidableEq K]

/-- A call of another operation. -/
def change (type : DictType K) (d : Dict K V) (event : Policy × Op K V) : Option (Dict K V) :=
  (call type d event.1 event.2).map Prod.snd

/-- Calls of `dictScan`, each with the cursor returned by the one before, until
the cursor is 0 or the caller stops; `gaps` is what happens between the calls.
The result is the calls and the last cursor. -/
def scanCalls (type : DictType K) : List (List (Policy × Op K V)) → Dict K V → BitVec 64 →
      Option (List (ScanCall K V) × BitVec 64)
  | [], d, v => do
      let (es, v') ← dictScan d v
      some ([⟨d, v, es, v'⟩], v')
  | gap :: gaps, d, v => do
      let (es, v') ← dictScan d v
      if v' = 0 then some ([⟨d, v, es, v'⟩], v')
      else
        let d' ← run (change type) d gap
        let (calls, last) ← scanCalls type gaps d' v'
        some (⟨d, v, es, v'⟩ :: calls, last)

lemma change_spec {m : Map K V} (h : Matches type m d) (events : List (Policy × Op K V)) :
    ∃ m' d', run (change type) d events = some d' ∧ Matches type m' d' := by
  have hstep : ∀ (m : Map K V) (d : Dict K V) e, Matches type m d →
    ∃ d', change type d e = some d' ∧ Matches type (mapCall m e.2).2 d' := by
    intro m d e hm
    obtain ⟨d', hcall, hm'⟩ := call_spec hm e.1 e.2
    exact ⟨d', by rw [change, hcall]; rfl, hm'⟩
  obtain ⟨d', hrun, hm'⟩ := run_simulation_total hstep h events
  exact ⟨_, d', hrun, hm'⟩

/-- What the calls from a cursor on do. -/
structure Scanned (type : DictType K) (v : BitVec 64) (rounds : Nat)
    (calls : List (ScanCall K V)) (last : BitVec 64) : Prop where
  ok : ∀ c ∈ calls, DictOk type c.dict
  progress : ∀ c ∈ calls, c.next ≠ 0 → rank c.cursor < rank c.next
  complete : last = 0 → ∀ key, (∀ c ∈ calls, ∃ val, (key, val) ∈ c.dict.entries) →
    rank v ≤ hashRank type key → ∃ c ∈ calls, ∃ val, (key, val) ∈ c.emitted
  length_le : ∀ k ≤ 64, 2 ^ (64 - k) ∣ rank v →
    (∀ c ∈ calls, dicthtSize c.dict.ht0.sizeExp ≤ 2 ^ k ∧ dicthtSize c.dict.ht1.sizeExp ≤ 2 ^ k) →
    rank v + calls.length * 2 ^ (64 - k) ≤ 2 ^ 64 ∧
      (last ≠ 0 → rank v + calls.length * 2 ^ (64 - k) < 2 ^ 64)
  rounds_eq : last ≠ 0 → calls.length = rounds

lemma add_block_le {B r s : Nat} (hr : B ∣ r) (hs : B ∣ s) (hlt : r < s) : r + B ≤ s := by
  have hsub : B ∣ s - r := dvd_sub hs hr
  have := le_of_dvd (by omega) hsub
  omega

omit [DecidableEq K] in
lemma scanned_single (h : DictOk type d) {rounds : Nat} (hswept : Swept type d.entries v upto es v')
    (hdvd : ∀ k ≤ 64, dicthtSize d.ht0.sizeExp ≤ 2 ^ k → dicthtSize d.ht1.sizeExp ≤ 2 ^ k →
    2 ^ (64 - k) ∣ upto) (hrounds : v' ≠ 0 → 1 = rounds) :
    Scanned type v rounds [⟨d, v, es, v'⟩] v' where
  ok := by simpa using h
  progress := by
    intro c hc hne
    rw [mem_singleton.mp hc] at hne ⊢
    rcases hswept.next_cases with ⟨hzero, _⟩ | ⟨_, hrank, _⟩
    · exact absurd hzero hne
    · rw [hrank]
      exact hswept.lt
  complete := by
    intro hzero key hpresent hle
    obtain ⟨val, hmem⟩ := hpresent _ (mem_singleton_self _)
    refine ⟨_, mem_singleton_self _, val, hswept.covers key val hmem hle ?_⟩
    rcases hswept.next_cases with ⟨_, hupto⟩ | ⟨hne, _⟩
    · exact hupto ▸ rank_lt _
    · exact absurd hzero hne
  length_le := by
    intro k hk hv hsizes
    obtain ⟨h0, h1⟩ := hsizes _ (mem_singleton_self _)
    have hstep := add_block_le hv (hdvd k hk h0 h1) hswept.lt
    have hle := hswept.le
    simp only [length_singleton]
    refine ⟨by omega, fun hne => ?_⟩
    rcases hswept.next_cases with ⟨hzero, _⟩ | ⟨_, _, hlt⟩
    · exact absurd hzero hne
    · omega
  rounds_eq := hrounds

omit [DecidableEq K] in
/-- A call in front of a scan that goes on from its cursor. -/
lemma Scanned.cons (h : DictOk type d) {last : BitVec 64} {rounds : Nat}
    {calls : List (ScanCall K V)} (hswept : Swept type d.entries v upto es v')
    (hdvd : ∀ k ≤ 64, dicthtSize d.ht0.sizeExp ≤ 2 ^ k → dicthtSize d.ht1.sizeExp ≤ 2 ^ k →
    2 ^ (64 - k) ∣ upto) (hrank : rank v' = upto) (hrest : Scanned type v' rounds calls last) :
    Scanned type v (rounds + 1) (⟨d, v, es, v'⟩ :: calls) last where
  ok := by
    intro c hc
    rcases mem_cons.mp hc with rfl | hc
    · exact h
    · exact hrest.ok c hc
  progress := by
    intro c hc hne
    rcases mem_cons.mp hc with rfl | hc
    · rw [hrank]
      exact hswept.lt
    · exact hrest.progress c hc hne
  complete := by
    intro hzero key hpresent hle
    by_cases hnow : hashRank type key < upto
    · obtain ⟨val, hmem⟩ := hpresent _ (mem_cons_self ..)
      exact ⟨_, mem_cons_self .., val, hswept.covers key val hmem hle hnow⟩
    · obtain ⟨c, hc, hemitted⟩ := hrest.complete hzero key
        (fun c hc => hpresent c (mem_cons_of_mem _ hc)) (by omega)
      exact ⟨c, mem_cons_of_mem _ hc, hemitted⟩
  length_le := by
    intro k hk hv hsizes
    obtain ⟨h0, h1⟩ := hsizes _ (mem_cons_self ..)
    have hstep := add_block_le hv (hdvd k hk h0 h1) hswept.lt
    obtain ⟨hle, hlt⟩ := hrest.length_le k hk (hrank ▸ hdvd k hk h0 h1)
      (fun c hc => hsizes c (mem_cons_of_mem _ hc))
    simp only [length_cons, add_mul]
    refine ⟨by omega, fun hne => ?_⟩
    have := hlt hne
    omega
  rounds_eq := by
    intro hne
    rw [length_cons, hrest.rounds_eq hne]

lemma scanCalls_spec (gaps : List (List (Policy × Op K V)))
    {m : Map K V} (h : Matches type m d) (v : BitVec 64) :
    ∃ calls last, scanCalls type gaps d v = some (calls, last) ∧
    Scanned type v (gaps.length + 1) calls last := by
  induction gaps generalizing m d v with
  | nil =>
    obtain ⟨es, v', upto, hscan, hswept, hdvd⟩ := dictScan_swept h.ok v
    refine ⟨[⟨d, v, es, v'⟩], v', ?_, scanned_single h.ok hswept hdvd (fun _ => rfl)⟩
    simp [scanCalls, hscan]
  | cons gap gaps ih =>
    obtain ⟨es, v', upto, hscan, hswept, hdvd⟩ := dictScan_swept h.ok v
    rcases hswept.next_cases with ⟨hzero, _⟩ | ⟨hne, hrank, _⟩
    · refine ⟨[⟨d, v, es, v'⟩], v', ?_,
        scanned_single h.ok hswept hdvd (fun hne => absurd hzero hne)⟩
      simp [scanCalls, hscan, hzero]
    obtain ⟨m', d', hgap, hm'⟩ := change_spec h gap
    obtain ⟨calls, last, hcalls, hrest⟩ := ih hm' v'
    refine ⟨⟨d, v, es, v'⟩ :: calls, last, ?_, Scanned.cons h.ok hswept hdvd hrank hrest⟩
    simp only [scanCalls, hscan, some_bind, if_neg hne, hgap, hcalls]

/-- A scan of a dict with any history, with any calls between its own: the
reversed cursor increases; if the scan has come back to 0, every key that was
there at each of its calls has been passed on; and if no table is larger than
`2 ^ k` the scan is back at 0 after `2 ^ k` calls at most. -/
theorem scan_complete (type : DictType K) (history : List (Policy × Op K V))
    (gaps : List (List (Policy × Op K V))) :
    ∃ d calls last, run (change type) dictCreate history = some d ∧
      scanCalls type gaps d 0 = some (calls, last) ∧
      (∀ c ∈ calls, c.next ≠ 0 → c.cursor.reverse < c.next.reverse) ∧
      (last = 0 → ∀ key, (∀ c ∈ calls, ∃ val, (key, val) ∈ c.dict.entries) →
        ∃ c ∈ calls, ∃ val, (key, val) ∈ c.emitted) ∧
      ∀ k, (∀ c ∈ calls, dicthtSize c.dict.ht0.sizeExp ≤ 2 ^ k ∧
          dicthtSize c.dict.ht1.sizeExp ≤ 2 ^ k) →
        calls.length ≤ 2 ^ k ∧ (2 ^ k ≤ gaps.length + 1 → last = 0) := by
  obtain ⟨m, d, hd, hm⟩ := change_spec (matches_create type) history
  obtain ⟨calls, last, hcalls, hscan⟩ := scanCalls_spec gaps hm 0
  have hstart : rank (0 : BitVec 64) = 0 := (rank_eq_zero_iff _).mpr rfl
  have hbound : ∀ k ≤ 64, (∀ c ∈ calls, dicthtSize c.dict.ht0.sizeExp ≤ 2 ^ k ∧
      dicthtSize c.dict.ht1.sizeExp ≤ 2 ^ k) →
      calls.length ≤ 2 ^ k ∧ (2 ^ k ≤ gaps.length + 1 → last = 0) := by
    intro k hk hsizes
    obtain ⟨hle, hlt⟩ := hscan.length_le k hk (hstart ▸ Nat.dvd_zero _) hsizes
    rw [hstart, zero_add, two_pow_eq_mul hk] at hle hlt
    refine ⟨Nat.le_of_mul_le_mul_right hle (Nat.two_pow_pos _), fun hmany => ?_⟩
    apply Classical.byContradiction
    intro hne
    have hfew := Nat.lt_of_mul_lt_mul_right (hlt hne)
    rw [hscan.rounds_eq hne] at hfew
    omega
  refine ⟨d, calls, last, hd, hcalls, hscan.progress, ?_, ?_⟩
  · intro hzero key hpresent
    exact hscan.complete hzero key hpresent (by omega)
  intro k hsizes
  by_cases hk : k ≤ 64
  · exact hbound k hk hsizes
  -- no table is larger than the cursor can tell apart
  have hpow : 2 ^ 64 ≤ 2 ^ k := Nat.pow_le_pow_right (by decide) (by omega)
  obtain ⟨hle, hzero⟩ := hbound 64 (le_refl _) (fun c hc =>
    ⟨TableOk.size_le (hscan.ok c hc).ht0, TableOk.size_le (hscan.ok c hc).ht1⟩)
  exact ⟨by omega, fun hmany => hzero (by omega)⟩

end Dice.Ports.DictScan
