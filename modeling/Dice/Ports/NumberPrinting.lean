import Dice.Ports.Listpack

/-!
# Printing numbers

`ull2string` counts the digits first and then writes them from the right, two at
a time.  What `ll2string` prints is exactly what `string2ll` reads.
-/

namespace Dice.Ports.NumberPrinting

open List Verified CString Buffer NumberParsing Resp Listpack Option

def digits10 (v : Nat) : Nat :=
  if v < 10 then 1
  else if v < 100 then 2
  else if v < 1000 then 3
  else if v < 1000000000000 then
    if v < 100000000 then
      if v < 1000000 then
        if v < 10000 then 4 else 5 + if v ≥ 100000 then 1 else 0
      else 7 + if v ≥ 10000000 then 1 else 0
    else if v < 10000000000 then 9 + if v ≥ 1000000000 then 1 else 0
    else 11 + if v ≥ 100000000000 then 1 else 0
  else 12 + digits10 (v / 1000000000000)

/-- The two bytes of the table `digits` for a number below 100. -/
def twoDigits (i : Nat) : Bytes := [digit (i / 10), digit (i % 10)]

/-- The loop of `ull2string` and the last one or two digits behind it. -/
def writeDigits (dst : Bytes) (next value : Nat) : Option Bytes :=
  if 100 ≤ value then
    (store dst (next - 1) (twoDigits (value % 100))).bind fun dst =>
      writeDigits dst (next - 2) (value / 100)
  else if value < 10 then store dst next [digit value]
  else store dst (next - 1) (twoDigits value)

/-- `ull2string`: the length and the buffer. -/
def ull2string (dst : Bytes) (value : Nat) : Option (Nat × Bytes) :=
  let length := digits10 value
  if length ≥ dst.length then some (0, dst.set 0 0)
  else do
    let dst ← store dst length [0]
    let dst ← writeDigits dst (length - 1) value
    some (length, dst)

def ll2string (dst : Bytes) (svalue : Int) : Option (Nat × Bytes) :=
  if svalue < 0 then
    match dst with
    | _ :: d :: dst => do
        let (length, dst) ← ull2string (d :: dst) svalue.natAbs
        some (if length = 0 then 0 else length + 1, 45 :: dst)
    | _ => some (0, dst.set 0 0)
  else ull2string dst svalue.natAbs

lemma decimal_of_hundred_le {n : Nat} (h : 100 ≤ n) :
    decimal n = decimal (n / 100) ++ twoDigits (n % 100) := by
  rw [decimal_of_le (by omega), decimal_of_le (by omega), Nat.div_div_eq_div_mul, append_assoc,
    twoDigits, show n % 100 / 10 = n / 10 % 10 by omega, Nat.mod_mod_of_dvd n (by decide)]
  rfl

lemma length_decimal_div (k : Nat) {v : Nat} (h : 10 ^ k ≤ v) :
    (decimal v).length = k + (decimal (v / 10 ^ k)).length := by
  induction k generalizing v with
  | zero => simp
  | succ k ih =>
    have hpos : 0 < 10 ^ k := Nat.pow_pos (by decide)
    rw [Nat.pow_succ'] at h ⊢
    rw [decimal_of_le (by omega), length_append, ih (by omega), Nat.div_div_eq_div_mul,
      length_singleton]
    omega

lemma digits10_eq (v : Nat) : digits10 v = (decimal v).length := by
  induction v using Nat.strongRecOn with
  | _ v ih =>
    have hlen : ∀ k, 0 < k → ((decimal v).length ≤ k ↔ v < 10 ^ k) := by
      intro k hk
      rw [decimal, length_map]
      exact Nat.length_toDigits_le_iff (by decide) hk
    have h0 := length_pos_iff.mpr (decimal_ne_nil v)
    have h1 := hlen 1 (by decide)
    have h2 := hlen 2 (by decide)
    have h3 := hlen 3 (by decide)
    have h4 := hlen 4 (by decide)
    have h5 := hlen 5 (by decide)
    have h6 := hlen 6 (by decide)
    have h7 := hlen 7 (by decide)
    have h8 := hlen 8 (by decide)
    have h9 := hlen 9 (by decide)
    have h10 := hlen 10 (by decide)
    have h11 := hlen 11 (by decide)
    have h12 := hlen 12 (by decide)
    rw [digits10]
    split_ifs
    all_goals try omega
    rw [ih _ (by omega)]
    exact (length_decimal_div 12 (by omega)).symm

lemma store_end (front back xs : Bytes) {k : Nat} (h : k + xs.length = front.length) :
    store (front ++ back) k xs = some (front.take k ++ (xs ++ back)) := by
  have hstore := store_append (front.take k) back
    (show xs.length = (front.drop k).length by rw [length_drop]; omega)
  rwa [take_append_drop, length_take_of_le (by omega), append_assoc] at hstore

/-- The digits fill the part of the buffer that is as long as they are. -/
lemma writeDigits_eq (value : Nat) (front back : Bytes)
    (h : front.length = (decimal value).length) :
    writeDigits (front ++ back) (front.length - 1) value = some (decimal value ++ back) := by
  induction value using Nat.strongRecOn generalizing front back with
  | _ value ih =>
    rw [writeDigits]
    have htwo : ∀ i, (twoDigits i).length = 2 := fun _ => rfl
    split_ifs with hbig hsmall
    · rw [decimal_of_hundred_le hbig, length_append, htwo] at h
      have hfront : (front.take (front.length - 2)).length = (decimal (value / 100)).length := by
        rw [length_take_of_le (by omega)]
        omega
      have hrest := ih (value / 100) (by omega) _ (twoDigits (value % 100) ++ back) hfront
      rw [store_end _ _ _ (by rw [htwo]; omega), bind_some, decimal_of_hundred_le hbig,
        append_assoc, ← hrest, hfront, h]
      rfl
    · rw [decimal_of_lt hsmall] at h ⊢
      rw [h, store_end front back _ h.symm]
      rfl
    · rw [decimal_of_le (by omega), decimal_of_lt (by omega)] at h ⊢
      rw [h, store_end front back _ h.symm]
      rfl

/-- The text `s` and a NUL are written into every buffer that has room for them. -/
def Prints (f : Bytes → Option (Nat × Bytes)) (s : Bytes) : Prop :=
  ∀ dst : Bytes, s.length < dst.length → f dst = some (s.length, s ++ 0 :: dst.drop (s.length + 1))

lemma prints_ull2string (value : Nat) : Prints (ull2string · value) (decimal value) := by
  intro dst hlt
  have hwrite := writeDigits_eq value (dst.take (decimal value).length)
    (0 :: dst.drop ((decimal value).length + 1)) (length_take_of_le (by omega))
  rw [length_take_of_le (by omega)] at hwrite
  simp only [ull2string, digits10_eq, if_neg (not_le.mpr hlt), store, length_singleton,
    if_pos (Nat.succ_le_of_lt hlt), bind_eq_bind, bind_some, append_assoc,
    singleton_append, hwrite]

lemma prints_ll2string (svalue : Int) : Prints (ll2string · svalue) (decimalInt svalue) := by
  intro dst hlt
  have hpos := length_pos_iff.mpr (decimal_ne_nil svalue.natAbs)
  rw [decimalInt] at hlt ⊢
  simp only [ll2string]
  split_ifs at hlt ⊢ with hneg
  · rw [length_cons] at hlt
    obtain _ | ⟨a, _ | ⟨d, dst⟩⟩ := dst
    · simp at hlt
    · simp at hlt
    · have hread := prints_ull2string svalue.natAbs (d :: dst) (by simpa using hlt)
      simp only [hread, bind_eq_bind, bind_some, if_neg (Nat.ne_of_gt hpos)]
      rfl
  · exact prints_ull2string svalue.natAbs dst hlt

lemma eq_of_prints {f : Bytes → Option (Nat × Bytes)} {s t : Bytes} (hs : Prints f s)
    (ht : Prints f t) : s = t := by
  obtain ⟨dst, hls, hlt⟩ : ∃ dst : Bytes, s.length < dst.length ∧ t.length < dst.length :=
    ⟨replicate (s.length + t.length + 1) 0, by rw [length_replicate]; omega,
      by rw [length_replicate]; omega⟩
  obtain ⟨hlen, hbuf⟩ := Prod.mk.inj (some.inj ((hs dst hls).symm.trans (ht dst hlt)))
  exact (append_inj hbuf hlen).1

/-- What `ll2string` prints is what `string2ll` and `lpStringToInt64` accept, with
the number as the value; `ull2string` prints the digits of its argument. -/
theorem printing_inverts_parsing : (∀ v : Int64, Prints (ll2string · v.toInt) (decimalInt v.toInt) ∧
      string2ll (decimalInt v.toInt) = some v.toInt) ∧
    (∀ s v, string2ll s = some v ↔ ∃ w : Int64, w.toInt = v ∧ Prints (ll2string · v) s) ∧
    (∀ s, lpStringToInt64 s = string2ll s) ∧
    ∀ v : UInt64, Prints (ull2string · v.toNat) (decimal v.toNat) ∧
      strtollDigits 0 (decimal v.toNat) = v.toNat := by
  have hread : ∀ v : Int64, string2ll (decimalInt v.toInt) = some v.toInt := fun v =>
    string2ll_decimalInt v.le_toInt (Int.le_of_lt_add_one v.toInt_lt)
  refine ⟨fun v => ⟨prints_ll2string _, hread v⟩, ?_, fun _ => rfl,
    fun v => ⟨prints_ull2string _, strtollDigits_decimal _⟩⟩
  intro s v
  constructor
  · intro h
    obtain ⟨rfl, hlow, hhigh⟩ := decimalInt_of_string2ll h
    exact ⟨.ofInt v, Int64.toInt_ofInt_of_le hlow (Int.lt_add_one_of_le hhigh), prints_ll2string v⟩
  · rintro ⟨w, rfl, hprints⟩
    rw [eq_of_prints hprints (prints_ll2string _)]
    exact hread w

end Dice.Ports.NumberPrinting
