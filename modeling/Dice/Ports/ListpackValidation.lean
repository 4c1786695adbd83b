import Dice.Verified.Run
import Dice.Ports.Listpack

/-!
# What the validator of listpacks guarantees

A deep validation walks the entries once from left to right.  It accepts if
each entry ends inside of the block, its backward length is its length, the
walk ends at the last byte, and the count in the header is right or unknown.
That is enough for every walk afterwards, in both directions and from any
entry.  The length of a long string is added up in 32 bits: the sum can wrap,
but then the byte taken for the backward length is one of the length itself
and never fits.
-/

namespace Dice.Ports.ListpackValidation

open List Verified Run CString Buffer Walk Listpack Option Nat

lemma length_backlen_pos (l : Nat) : 0 < (lpEncodeBacklen l).length := by
  rw [lpEncodeBacklen]
  split_ifs <;> simp

lemma length_backlen_le (l : Nat) : (lpEncodeBacklen l).length ≤ 5 := by
  rw [lpEncodeBacklen]
  split_ifs <;> simp

lemma length_backlen_of_le {l : Nat} (h : l ≤ 127) : (lpEncodeBacklen l).length = 1 := by
  rw [lpEncodeBacklen, if_pos h]
  rfl

lemma toNat_and_127 (b : UInt8) : (b &&& 127).toNat = b.toNat % 128 := by
  exact and_two_pow_sub_one_eq_mod b.toNat 7

section

variable (n : Nat) (before : Bytes) (shift val : Nat)

lemma decodeLoop_exists (h : n ≤ before.length) :
    ∃ v, decodeBacklenLoop n before shift val = some v := by
  fun_induction decodeBacklenLoop n before shift val with
  | case1 | case3 => exact ⟨_, rfl⟩
  | case2 => simp at h
  | case4 _ _ _ _ _ _ _ ih => exact ih (by simpa using h)

lemma accumulate_lt {shift val : Nat} (b : UInt8) (hval : val < 2 ^ shift) :
    val ||| (b &&& 127).toNat <<< shift < 2 ^ (shift + 7) := by
  have hbits : (b &&& 127).toNat <<< shift < 2 ^ (shift + 7) := by
    rw [toNat_and_127, Nat.shiftLeft_eq, Nat.pow_add, Nat.mul_comm]
    exact Nat.mul_lt_mul_of_pos_left (Nat.mod_lt _ (by decide)) (Nat.two_pow_pos _)
  exact Nat.or_lt_two_pow
    (Nat.lt_of_lt_of_le hval (Nat.pow_le_pow_right (by decide) (by omega))) hbits

/-- What the first byte contributes stays, and the result is a number of 35 bits
or the mark of an error. -/
lemma decodeLoop_spec {v : Nat} (hval : val < 2 ^ shift)
    (h : decodeBacklenLoop n before shift val = some v) :
    v = uint64Max ∨ v < 2 ^ (shift + 7 * n) ∧ v % 2 ^ shift = val := by
  induction n generalizing before shift val with
  | zero =>
    rw [decodeBacklenLoop, some.injEq] at h
    exact .inl h.symm
  | succ n ih =>
    cases before with
    | nil => cases h
    | cons b before =>
      have hlt := accumulate_lt b hval
      have hmod : (val ||| (b &&& 127).toNat <<< shift) % 2 ^ shift = val := by
        rw [Nat.or_mod_two_pow, Nat.mod_eq_of_lt hval, Nat.shiftLeft_eq,
          Nat.mul_mod_left, Nat.or_zero]
      rw [decodeBacklenLoop] at h
      split at h
      · rw [some.injEq] at h
        subst h
        refine .inr ⟨Nat.lt_of_lt_of_le hlt (Nat.pow_le_pow_right (by decide) ?_), hmod⟩
        omega
      · rcases ih before (shift + 7) _ hlt h with hmax | ⟨hv, hlow⟩
        · exact .inl hmax
        · refine .inr ⟨by rwa [show shift + 7 * (n + 1) = shift + 7 + 7 * n by omega], ?_⟩
          rw [← hmod, ← hlow, Nat.mod_mod_of_dvd _ (Nat.pow_dvd_pow 2 (by omega))]

end

variable {p count q e : Nat} {s : Bytes}

variable {lp : Bytes}

/-- The backward length before a pointer that at least five bytes precede. -/
lemma lpDecodeBacklen_spec (hle : p ≤ lp.length) (hge : 5 ≤ p) :
    ∃ v, lpDecodeBacklen lp p = some v ∧ (v = uint64Max ∨ v < 2 ^ 35) ∧
    ∀ b, lp[p - 1]? = some b → v = uint64Max ∨ v % 128 = b.toNat % 128 := by
  rw [lpDecodeBacklen, if_pos hle]
  have hlen : 5 ≤ (lp.take p).reverse.length := by
    rw [length_reverse, length_take]
    omega
  obtain ⟨v, hv⟩ := decodeLoop_exists 5 _ 0 0 hlen
  refine ⟨v, hv, ?_, ?_⟩
  · rcases decodeLoop_spec 5 _ 0 0 (by decide) hv with h | h
    · exact .inl h
    · exact .inr h.1
  intro b hb
  cases hrev : (lp.take p).reverse with
  | nil =>
    rw [hrev] at hlen
    simp at hlen
  | cons c before =>
    have hc : c = b := by
      have hlast : (lp.take p)[p - 1]? = some c := by
        have := congrArg head? hrev
        rw [head?_reverse, getLast?_eq_getElem?, length_take, min_eq_left hle] at this
        exact this
      rw [getElem?_take_of_lt (by omega), hb, some.injEq] at hlast
      exact hlast.symm
    rw [hrev, decodeBacklenLoop, hc, zero_or] at hv
    split at hv
    · rw [some.injEq, toNat_and_127] at hv
      omega
    have hlt : (b &&& 127).toNat < 2 ^ 7 := by
      rw [toNat_and_127]
      omega
    rcases decodeLoop_spec 4 _ 7 _ hlt hv with h | ⟨_, h⟩
    · exact .inl h
    · exact .inr (by rw [toNat_and_127] at h; exact h)

lemma eq_of_str32 : ∀ b, encodingOf b = some .str32 → b = 0xF0 := forall_byte (by decide +kernel)

/-- The sum of a length that wraps is a number below five, and the byte at that
place is not the backward length of such an entry. -/
lemma wrapped_byte {len : Nat} (hhead : s.head? = some 0xF0)
    (hlen : readLE s 1 4 = some len) (hwrap : 2 ^ 32 ≤ 5 + len) :
    ∃ c, s[(5 + len) % 2 ^ 32]? = some c ∧ c.toNat % 128 ≠ (5 + len) % 2 ^ 32 := by
  match s, hhead, hlen with
  | b :: b1 :: b2 :: b3 :: b4 :: rest, hhead, hlen =>
    have hb : b = 0xF0 := by simpa using hhead
    have hvalue : b1.toNat + 256 * (b2.toNat + 256 * (b3.toNat + 256 * b4.toNat)) = len := by
      simpa [readLE, load, ofLE] using hlen
    have := b1.toNat_lt
    have := b2.toNat_lt
    have := b3.toNat_lt
    have := b4.toNat_lt
    have hhigh : b2.toNat = 255 ∧ b3.toNat = 255 ∧ b4.toNat = 255 ∧
      (5 + len) % 2 ^ 32 = b1.toNat - 251 ∧ 251 ≤ b1.toNat := by omega
    obtain ⟨h2, h3, h4, hmod, h1⟩ := hhigh
    rw [hmod]
    have hcases : b1.toNat - 251 = 0 ∨ b1.toNat - 251 = 1 ∨ b1.toNat - 251 = 2 ∨
      b1.toNat - 251 = 3 ∨ b1.toNat - 251 = 4 := by omega
    rcases hcases with h | h | h | h | h <;> rw [h]
    · exact ⟨b, rfl, by rw [hb]; decide⟩
    · exact ⟨b1, rfl, by omega⟩
    · exact ⟨b2, rfl, by omega⟩
    · exact ⟨b3, rfl, by omega⟩
    · exact ⟨b4, rfl, by omega⟩

/-- The element at a pointer is read, and a string is part of the `e` bytes. -/
def Readable (s : Bytes) (e : Nat) : Prop :=
  ∃ v, lpGet s = some v ∧ ∀ start len, v = .str start len → start + len ≤ e

/-- The byte at the end of an entry of `e` bytes is not its backward length. -/
def Wrapped (s : Bytes) (e : Nat) : Prop := e ≤ 4 ∧ ∃ c, s[e]? = some c ∧ c.toNat % 128 ≠ e

lemma readable_int {v : Int} {size : Option Nat}
    (h : lpGetWithSize s = some (.int v, size)) (e : Nat) : Readable s e :=
  ⟨.int v, by rw [lpGet, h]; rfl, fun _ _ hstr => by cases hstr⟩

lemma readable_getInt {n : Nat} (h : lpGetWithSize s = getInt s n)
    (hlen : n + 1 ≤ s.length) : Readable s (n + 1) := by
  obtain ⟨uval, huval, _⟩ := readLE_of_le (show 1 + n ≤ s.length by omega)
  rw [getInt, huval] at h
  exact readable_int h (n + 1)

lemma readable_str {start : Nat}
    (h : lpGetWithSize s = some (getStr start count)) : Readable s (start + count) := by
  refine ⟨.str start count, by rw [lpGet, h]; rfl, fun _ _ hstr => ?_⟩
  cases hstr
  exact le_refl _

/-- The size of an entry whose first bytes are there. -/
lemma encodedSize_spec {b : UInt8} (hhead : s.head? = some b)
    (hne : b ≠ lpEof) (hknown : lpCurrentEncodedSizeBytes b ≠ 0)
    (hlen : lpCurrentEncodedSizeBytes b < s.length) :
    ∃ e, lpCurrentEncodedSizeUnsafe s = some e ∧ e < 2 ^ 32 ∧
    (Wrapped s e ∨ 0 < e ∧ (e ≤ s.length → Readable s e)) := by
  have hone : 1 < s.length := by omega
  have hsecond : s[1]? = some s[1] := getElem?_eq_getElem hone
  have hbyte := s[1].toNat_lt
  cases henc : encodingOf b with
  | none =>
    rw [lpCurrentEncodedSizeBytes, henc] at hknown
    simp [hne] at hknown
  | some enc =>
    have hsize : lpCurrentEncodedSizeUnsafe s = lpCurrentEncodedSizeUnsafe s := rfl
    have hget : lpGetWithSize s = lpGetWithSize s := rfl
    rw [lpCurrentEncodedSizeBytes, henc] at hlen
    conv_rhs at hsize => simp only [lpCurrentEncodedSizeUnsafe, hhead, some_bind, henc, hsecond]
    conv_rhs at hget => simp only [lpGetWithSize, hhead, some_bind, henc, hsecond]
    cases enc with
    | uint7 => exact ⟨1, hsize, by decide, .inr ⟨by decide, fun _ => readable_int hget 1⟩⟩
    | str6 =>
      have := (b &&& 0x3F).toNat_lt
      exact ⟨_, hsize, by omega, .inr ⟨by omega, fun _ => readable_str hget⟩⟩
    | int13 => exact ⟨2, hsize, by decide, .inr ⟨by decide, fun _ => readable_int hget 2⟩⟩
    | int16 => exact ⟨3, hsize, by decide, .inr ⟨by decide, fun h => readable_getInt hget h⟩⟩
    | int24 => exact ⟨4, hsize, by decide, .inr ⟨by decide, fun h => readable_getInt hget h⟩⟩
    | int32 => exact ⟨5, hsize, by decide, .inr ⟨by decide, fun h => readable_getInt hget h⟩⟩
    | int64 => exact ⟨9, hsize, by decide, .inr ⟨by decide, fun h => readable_getInt hget h⟩⟩
    | str12 =>
      have hlt : (b &&& 0xF).toNat <<< 8 ||| s[1].toNat < 2 ^ 16 := by
        apply or_lt_two_pow
        · have := (b &&& 0xF).toNat_lt
          omega
        · omega
      exact ⟨_, hsize, by omega, .inr ⟨by omega, fun _ => readable_str hget⟩⟩
    | str32 =>
      have hfive : 5 < s.length := hlen
      obtain ⟨len, hread, hlt⟩ := readLE_of_le (show 1 + 4 ≤ s.length by omega)
      rw [hread] at hsize hget
      refine ⟨_, hsize, mod_lt _ (by decide), ?_⟩
      rcases lt_or_ge (5 + len) (2 ^ 32) with hfits | hwrap
      · rw [mod_eq_of_lt hfits]
        exact .inr ⟨by omega, fun _ => readable_str hget⟩
      · have hb := eq_of_str32 b henc
        exact .inl ⟨by omega, wrapped_byte (hb ▸ hhead) hread hwrap⟩

/-- A valid entry from `p` to `q`, as every function sees it. -/
structure EntryAt (lp : Bytes) (p q : Nat) : Prop where
  valid : lpValidateNext lp (some p) lp.length = some (.valid (some q))
  ge : lpHdrSize ≤ p
  lt : p < q
  lt_length : q < lp.length
  first : ∃ b, lp[p]? = some b ∧ b ≠ lpEof
  skip : lpSkip lp p = some q
  back : ∃ e, lpDecodeBacklen lp q = some e ∧ e < 2 ^ 32 ∧ p + (e + (lpEncodeBacklen e).length) = q
  readable : ∃ e, p + e ≤ q ∧ Readable (lp.drop p) e

lemma not_outOfRange {lpbytes : Nat} : ¬ outOfRange lpbytes p ↔ lpHdrSize ≤ p ∧ p < lpbytes := by
  rw [outOfRange]
  simp only [Bool.or_eq_true, decide_eq_true_eq]
  omega

/-- The validation of an entry stays inside of the block, and what it accepts is
an entry or the end mark. -/
lemma lpValidateNext_spec (lp : Bytes) (p : Nat) :
    ∃ r, lpValidateNext lp (some p) lp.length = some r ∧
    (∀ q, r = .valid (some q) → EntryAt lp p q) ∧
    (r = .valid none → lp[p]? = some lpEof) := by
  by_cases hout : outOfRange lp.length p
  · exact ⟨.invalid, by rw [lpValidateNext, if_pos hout], by simp, by simp⟩
  have hrange := not_outOfRange.mp hout
  have hb : lp[p]? = some lp[p] := getElem?_eq_getElem hrange.2
  by_cases heof : lp[p] = lpEof
  · refine ⟨.valid none, ?_, by simp, fun _ => by rw [hb, heof]⟩
    simp [lpValidateNext, hout, hb, heof]
  by_cases hknown : lpCurrentEncodedSizeBytes lp[p] = 0
  · refine ⟨.invalid, ?_, by simp, by simp⟩
    simp [lpValidateNext, hb, heof, hknown]
  by_cases hout1 : outOfRange lp.length (p + lpCurrentEncodedSizeBytes lp[p])
  · refine ⟨.invalid, ?_, by simp, by simp⟩
    simp [lpValidateNext, hb, heof, hout1]
  have hrange1 := not_outOfRange.mp hout1
  obtain ⟨e, hsize, he, hentry⟩ := encodedSize_spec (s := lp.drop p) (b := lp[p])
    (by rw [head?_drop, hb]) heof hknown (by rw [length_drop]; omega)
  by_cases hout2 : outOfRange lp.length (p + (e + (lpEncodeBacklen e).length))
  · refine ⟨.invalid, ?_, by simp, by simp⟩
    simp [lpValidateNext, hb, heof, hsize, hout2]
  have hrange2 := not_outOfRange.mp hout2
  have hsix : lpHdrSize = 6 := rfl
  obtain ⟨v, hback, hv, hlow⟩ := lpDecodeBacklen_spec
    (show p + (e + (lpEncodeBacklen e).length) ≤ lp.length by omega) (by omega)
  by_cases hsame : (v + (lpEncodeBacklen e).length) % 2 ^ 64 ≠ e + (lpEncodeBacklen e).length
  · refine ⟨.invalid, ?_, by simp, by simp⟩
    simp only [lpValidateNext, if_neg hout, hb, some_bind, if_neg heof, if_neg hknown, if_neg hout1,
      hsize, if_neg hout2, hback, if_pos hsame]
  have hrun : lpValidateNext lp (some p) lp.length =
    some (.valid (some (p + (e + (lpEncodeBacklen e).length)))) := by
    simp only [lpValidateNext, if_neg hout, hb, some_bind, if_neg heof, if_neg hknown, if_neg hout1,
      hsize, if_neg hout2, hback, if_neg hsame]
  have hmax : uint64Max = 2 ^ 64 - 1 := rfl
  have hve : v = e := by omega
  -- a length that has wrapped would have been refused
  have hnot : ¬ Wrapped (lp.drop p) e := by
    rintro ⟨hsmall, c, hc, hne⟩
    rw [length_backlen_of_le (by omega)] at hlow
    rw [getElem?_drop] at hc
    rcases hlow c (by rw [← hc]; congr 1) with h | h
    · omega
    · omega
  refine ⟨_, hrun, ?_, by simp⟩
  intro q hq
  cases hq
  obtain ⟨hepos, hread⟩ := hentry.resolve_left hnot
  exact
    { valid := hrun
      ge := hrange.1
      lt := by omega
      lt_length := hrange2.2
      first := ⟨lp[p], hb, heof⟩
      skip := by rw [lpSkip, hsize]; rfl
      back := ⟨e, hve ▸ hback, he, rfl⟩
      readable := ⟨e, by omega, hread (by rw [length_drop]; omega)⟩ }

/-- The callback that accepts every entry. -/
def acceptAll : Nat → Nat → Bool := fun _ _ => true

/-- A block whose entries start at `ps`. -/
structure Walkable (lp : Bytes) (ps : List Nat) : Prop where
  total : lpGetTotalBytes lp = some lp.length
  eof : lp[lp.length - 1]? = some lpEof
  head : (ps ++ [lp.length - 1]).head? = some lpHdrSize
  chain : (ps ++ [lp.length - 1]).IsChain (EntryAt lp)
  count : ∃ n, lpGetNumElements lp = some n ∧ (n = lpHdrNumeleUnknown ∨ n = ps.length)

/-- The first stop of a chain is followed by a shorter chain. -/
lemma chain_cons {ps : List Nat} (h : EntryAt lp p q) (hhead : (ps ++ [e]).head? = some q)
    (hchain : (ps ++ [e]).IsChain (EntryAt lp)) :
    ((p :: ps) ++ [e]).IsChain (EntryAt lp) := by
  rw [cons_append, isChain_cons]
  refine ⟨fun y hy => ?_, hchain⟩
  rw [hhead, mem_some_iff] at hy
  exact hy ▸ h

lemma chain_length {ps : List Nat} (hhead : (ps ++ [e]).head? = some p)
    (hchain : (ps ++ [e]).IsChain (EntryAt lp)) :
    p + ps.length ≤ e := by
  induction ps generalizing p with
  | nil => simp at hhead; simp [hhead]
  | cons x ps ih =>
    rw [cons_append, isChain_cons] at hchain
    rw [cons_append, head?_cons, some.injEq] at hhead
    cases hq : (ps ++ [e]).head? with
    | none => simp at hq
    | some q =>
      have hlt := (hchain.1 q hq).lt
      have hle := ih hq hchain.2
      rw [length_cons]
      omega

lemma validateLoop_spec (numele : Nat) (fuel p count : Nat) (hge : lpHdrSize ≤ p)
    (hlt : p < lp.length) (hfuel : lp.length ≤ p + fuel) :
    ∃ r, validateLoop lp lp.length numele acceptAll fuel (some p) count = some r ∧
    ∀ last c, r = some (last, c) → ∃ e ps, last = some e ∧ lp[e]? = some lpEof ∧
      (ps ++ [e]).head? = some p ∧ (ps ++ [e]).IsChain (EntryAt lp) ∧
      (count < 2 ^ 32 → c = (count + ps.length) % 2 ^ 32) := by
  induction fuel generalizing p count with
  | zero => omega
  | succ fuel ih =>
    have hb : lp[p]? = some lp[p] := getElem?_eq_getElem hlt
    by_cases heof : lp[p] = lpEof
    · refine ⟨some (some p, count), ?_, fun last c hr => ?_⟩
      · simp [validateLoop, hb, heof]
      · cases hr
        refine ⟨p, [], rfl, by rw [hb, heof], rfl, isChain_singleton _, fun h => ?_⟩
        exact (mod_eq_of_lt h).symm
    obtain ⟨r, hr, hentry, hnone⟩ := lpValidateNext_spec lp p
    match r, hr, hentry, hnone with
    | .invalid, hr, _, _ =>
      refine ⟨none, ?_, by simp⟩
      simp [validateLoop, hb, heof, hr]
    | .valid none, _, _, hnone =>
      rw [hb, some.injEq] at hnone
      exact absurd (hnone rfl) heof
    | .valid (some q), hr, hentry, _ =>
      have hat := hentry q rfl
      have hpq := hat.lt
      obtain ⟨r, hrun, hspec⟩ := ih q ((count + 1) % 2 ^ 32) (by omega) hat.lt_length (by omega)
      refine ⟨r, ?_, fun last c hrc => ?_⟩
      · simp only [validateLoop, hb, some_bind, if_neg heof, hr]
        exact hrun
      obtain ⟨e, ps, hlast, hlastEof, hhead, hchain, hcount⟩ := hspec last c hrc
      refine ⟨e, p :: ps, hlast, hlastEof, rfl, chain_cons hat hhead hchain, fun _ => ?_⟩
      rw [length_cons]
      omega

section

variable {lp : Bytes} {ps : List Nat}

lemma validateLoop_accepts (numele : Nat) {ps : List Nat} (hhead : (ps ++ [e]).head? = some p)
    (hchain : (ps ++ [e]).IsChain (EntryAt lp)) (heof : lp[e]? = some lpEof) {fuel : Nat}
    (hfuel : ps.length < fuel) (hcount : count + ps.length < 2 ^ 32) :
    validateLoop lp lp.length numele acceptAll fuel (some p) count =
    some (some (some e, count + ps.length)) := by
  induction ps generalizing p fuel count with
  | nil =>
    cases fuel with
    | zero => omega
    | succ fuel =>
      have hpe : e = p := by simpa using hhead
      subst hpe
      simp [validateLoop, heof]
  | cons x ps ih =>
    cases fuel with
    | zero => omega
    | succ fuel =>
      have hxp : x = p := by simpa using hhead
      subst hxp
      rw [cons_append, isChain_cons] at hchain
      cases hq : (ps ++ [e]).head? with
      | none => simp at hq
      | some q =>
        have hat := hchain.1 q hq
        obtain ⟨b, hb, hne⟩ := hat.first
        rw [length_cons] at hfuel hcount
        have hrest := ih hq hchain.2 (show ps.length < fuel by omega)
          (show count + 1 + ps.length < 2 ^ 32 by omega)
        simp only [validateLoop, hb, some_bind, if_neg hne, hat.valid,
          mod_eq_of_lt (show count + 1 < 2 ^ 32 by omega)]
        rw [length_cons, add_comm ps.length, ← add_assoc]
        exact hrest

lemma Walkable.length_ge (h : Walkable lp ps) : lpHdrSize + ps.length + 1 ≤ lp.length := by
  have := chain_length h.head h.chain
  have hlast := (List.getElem?_eq_some_iff.mp h.eof).1
  omega

lemma Walkable.length_lt (h : Walkable lp ps) : lp.length < 2 ^ 32 := by
  have hge := h.length_ge
  have hsix : lpHdrSize = 6 := rfl
  obtain ⟨v, hv, hlt⟩ := readLE_of_le (show 0 + 4 ≤ lp.length by omega)
  have htotal := h.total
  rw [lpGetTotalBytes, hv, some.injEq] at htotal
  rw [← htotal]
  exact hlt

lemma Walkable.validate (h : Walkable lp ps) :
    lpValidateIntegrity lp lp.length true acceptAll = some true := by
  have hge := h.length_ge
  have hlt := h.length_lt
  obtain ⟨n, hn, hcount⟩ := h.count
  have hloop := validateLoop_accepts n h.head h.chain h.eof
    (show ps.length < lp.length by omega) (show 0 + ps.length < 2 ^ 32 by omega)
  simp only [lpValidateIntegrity, if_neg (show ¬ lp.length < lpHdrSize + 1 by omega), h.total,
    some_bind, h.eof, hn, hloop]
  rcases hcount with h | h <;> simp [h]

end

/-- The validator stays inside of the block, and what it accepts is walkable. -/
lemma validate_walkable (lp : Bytes) :
    ∃ ok, lpValidateIntegrity lp lp.length true acceptAll = some ok ∧
    (ok → ∃ ps, Walkable lp ps) := by
  by_cases hshort : lp.length < lpHdrSize + 1
  · exact ⟨false, by rw [lpValidateIntegrity, if_pos hshort], by simp⟩
  have hsix : lpHdrSize = 6 := rfl
  obtain ⟨bytes, htotal, hlt⟩ := readLE_of_le (show 0 + 4 ≤ lp.length by omega)
  have htotal' : lpGetTotalBytes lp = some bytes := htotal
  obtain ⟨n, hn, _⟩ := readLE_of_le (show 4 + 2 ≤ lp.length by omega)
  have hn' : lpGetNumElements lp = some n := hn
  have hlast : lp[lp.length - 1]? = some lp[lp.length - 1] := getElem?_eq_getElem (by omega)
  by_cases hsame : bytes = lp.length
  case neg =>
    refine ⟨false, ?_, by simp⟩
    simp [lpValidateIntegrity, htotal', hsame]
  subst hsame
  by_cases heof : lp[lp.length - 1] = lpEof
  case neg =>
    refine ⟨false, ?_, by simp⟩
    simp [lpValidateIntegrity, htotal', hlast, heof]
  obtain ⟨r, hr, hspec⟩ := validateLoop_spec n lp.length lpHdrSize 0 (le_refl _)
    (show lpHdrSize < lp.length by omega) (by omega)
  cases r with
  | none =>
    refine ⟨false, ?_, by simp⟩
    simp [lpValidateIntegrity, htotal', hlast, hn', hr]
  | some r =>
    obtain ⟨p, count⟩ := r
    obtain ⟨e, ps, rfl, hlastEof, hhead, hchain, hcount⟩ := hspec p count rfl
    have hrun : lpValidateIntegrity lp lp.length true acceptAll =
      if some e ≠ some (lp.length - 1) then some false
      else some (n = lpHdrNumeleUnknown || n = count) := by
      simp [lpValidateIntegrity, hshort, htotal', hlast, heof, hn', hr]
    by_cases hend : e = lp.length - 1
    case neg =>
      rw [if_pos (by simpa using hend)] at hrun
      exact ⟨false, hrun, by simp⟩
    subst hend
    rw [if_neg (by simp)] at hrun
    refine ⟨_, hrun, fun hok => ⟨ps, htotal', by rw [hlast, heof], hhead, hchain, n, hn', ?_⟩⟩
    have hlen := chain_length hhead hchain
    rw [hcount (by decide), mod_eq_of_lt (by omega)] at hok
    simpa using hok

/-! ## Walking a valid block -/

/-- The entry of an index; negative indexes count from the end. -/
def atIndex (ps : List Nat) (index : Int) : Option Nat :=
  if 0 ≤ index then ps[index.toNat]? else ps.reverse[(-1 - index).toNat]?

lemma EntryAt.assert (h : EntryAt lp p q) : lpAssertValidEntry lp lp.length p = some () := by
  rw [lpAssertValidEntry, h.valid]
  rfl

section

variable (h : EntryAt lp p q) (htotal : lpGetTotalBytes lp = some lp.length)

include h htotal

lemma EntryAt.entryOrEof : entryOrEof lp p = some (some p) := by
  obtain ⟨b, hb, hne⟩ := h.first
  simp [Listpack.entryOrEof, hb, hne, htotal, h.assert]

lemma EntryAt.prev : lpPrev lp q = some (some p) := by
  obtain ⟨e, hback, hlt, hq⟩ := h.back
  have hne : q ≠ lpHdrSize := by
    have := h.ge
    have := h.lt
    omega
  have hsmall := length_backlen_le e
  have hmod : (e + (lpEncodeBacklen e).length) % 2 ^ 64 = e + (lpEncodeBacklen e).length :=
    mod_eq_of_lt (by omega)
  have hsub : q - (e + (lpEncodeBacklen e).length) = p := by omega
  simp only [lpPrev, if_neg hne, hback, some_bind, hmod,
    if_neg (show ¬ q < e + (lpEncodeBacklen e).length by omega), htotal, hsub, h.assert]

end

namespace Walkable

variable {lp : Bytes} {ps : List Nat} (h : Walkable lp ps)

include h

lemma entry_of_mem (hp : p ∈ ps) : ∃ q, EntryAt lp p q := by
  have hchain := h.chain
  obtain ⟨before, after, rfl⟩ := append_of_mem hp
  rw [append_assoc, cons_append] at hchain
  have hright := hchain.right_of_append
  rw [isChain_cons] at hright
  cases hq : (after ++ [lp.length - 1]).head? with
  | none => simp at hq
  | some q => exact ⟨q, hright.1 q hq⟩

lemma entry_last (hp : p ∈ ps.getLast?) : EntryAt lp p (lp.length - 1) :=
  (isChain_append.mp h.chain).2.2 p hp _ rfl

lemma first_eq : lpFirst lp = some ps.head? := by
  have hhead := h.head
  cases ps with
  | nil =>
    have hsix : lp.length - 1 = lpHdrSize := by simpa using hhead
    have heof := h.eof
    rw [hsix] at heof
    simp [lpFirst, entryOrEof, heof]
  | cons p ps =>
    have hp : p = lpHdrSize := by simpa using hhead
    subst hp
    obtain ⟨q, hq⟩ := h.entry_of_mem (mem_cons_self ..)
    rw [lpFirst, hq.entryOrEof h.total, head?_cons]

lemma walks_next : Walks (lpNext lp) ps := by
  apply walks_of_isChain
  · apply h.chain.left_of_append.imp_of_mem_imp
    intro p q _ hq hentry
    obtain ⟨r, hr⟩ := h.entry_of_mem hq
    rw [lpNext, hentry.skip]
    exact hr.entryOrEof h.total
  · intro p hp
    rw [lpNext, (h.entry_last hp).skip]
    simp [entryOrEof, h.eof]

lemma walks_prev_eof : Walks (lpPrev lp) ((lp.length - 1) :: ps.reverse) := by
  have hrev : (ps ++ [lp.length - 1]).reverse = (lp.length - 1) :: ps.reverse := by simp
  rw [← hrev]
  apply walks_of_isChain
  · rw [isChain_reverse]
    exact h.chain.imp fun p q hentry => hentry.prev h.total
  · intro p hp
    rw [getLast?_reverse, h.head, mem_some_iff] at hp
    rw [← hp, lpPrev, if_pos rfl]

lemma walks_prev : Walks (lpPrev lp) ps.reverse := h.walks_prev_eof.2

lemma last_eq : lpLast lp = some ps.reverse.head? := by
  have hge := h.length_ge
  simp only [lpLast, h.total, some_bind, if_neg (show ¬ lp.length = 0 by omega)]
  exact h.walks_prev_eof.1

lemma seekForward_eq (index : Int) : seekForward lp index = some ps[index.toNat]? := by
  rw [seekForward, h.first_eq]
  exact h.walks_next.advance_eq index.toNat

lemma seekBackward_eq (index : Int) :
    seekBackward lp index = some ps.reverse[(-1 - index).toNat]? := by
  rw [seekBackward, h.last_eq]
  exact h.walks_prev.advance_eq (-1 - index).toNat

/-- `lpSeek` finds the entry of any index, from whichever end it starts. -/
lemma seek_eq (index : Int) : lpSeek lp index = some (atIndex ps index) := by
  obtain ⟨n, hn, hcount⟩ := h.count
  rw [lpSeek, hn, some_bind]
  by_cases hunknown : n = lpHdrNumeleUnknown
  · rw [if_neg (by simpa using hunknown), atIndex]
    split
    next hneg => rw [if_neg (by omega), h.seekBackward_eq]
    next hneg => rw [if_pos (by omega), h.seekForward_eq]
  have hlen : n = ps.length := hcount.resolve_left hunknown
  rw [if_pos hunknown, hlen]
  -- the index from the left, if there is one
  have hleft : atIndex ps index =
    if (if index < 0 then (ps.length : Int) + index else index) < 0 then none
    else ps[(if index < 0 then (ps.length : Int) + index else index).toNat]? := by
    rw [atIndex]
    by_cases hneg : index < 0
    · rw [if_neg (by omega), if_pos hneg]
      split
      next hout => rw [getElem?_eq_none (by rw [length_reverse]; omega)]
      next hin =>
        rw [getElem?_reverse (by omega)]
        congr 1
        omega
    · rw [if_pos (by omega), if_neg hneg, if_neg hneg]
  rw [hleft]
  generalize (if index < 0 then (ps.length : Int) + index else index) = i
  by_cases hneg : i < 0
  · simp [hneg]
  by_cases hbig : i ≥ ps.length
  · simp only [if_neg hneg, if_pos hbig]
    rw [getElem?_eq_none (by omega)]
  by_cases hhalf : i > ps.length / 2
  · simp only [if_neg hneg, if_neg hbig, if_pos hhalf]
    rw [h.seekBackward_eq, getElem?_reverse (by omega)]
    congr 2
    omega
  · simp only [if_neg hneg, if_neg hbig, if_neg hhalf]
    exact h.seekForward_eq i

omit h in
lemma lengthLoop_eq {qs : List Nat} (h : Walks (lpNext lp) qs) {fuel : Nat}
    (hfuel : qs.length < fuel) (hcount : count + qs.length < 2 ^ 32) :
    lengthLoop lp fuel qs.head? count = some (count + qs.length) := by
  induction qs generalizing fuel count with
  | nil =>
    cases fuel with
    | zero => omega
    | succ fuel => rfl
  | cons q qs ih =>
    cases fuel with
    | zero => omega
    | succ fuel =>
      rw [length_cons] at hfuel hcount ⊢
      rw [head?_cons, lengthLoop, h.1, some_bind, mod_eq_of_lt (by omega),
        ih h.2 (by omega) (by omega), add_assoc, add_comm 1]

lemma length_eq : ∃ lp', lpLength lp = some (ps.length, lp') ∧
    (lp' = lp ∧ (lpGetNumElements lp = some ps.length ∨ lpHdrNumeleUnknown ≤ ps.length) ∨
    lpGetNumElements lp = some lpHdrNumeleUnknown ∧
      lpSetNumElements lp ps.length = some lp' ∧ ps.length < lpHdrNumeleUnknown) := by
  obtain ⟨n, hn, hcount⟩ := h.count
  have hge := h.length_ge
  have hlt := h.length_lt
  have hsix : lpHdrSize = 6 := rfl
  by_cases hunknown : n = lpHdrNumeleUnknown
  · have hloop := lengthLoop_eq h.walks_next (show ps.length < lp.length + 1 by omega)
      (show 0 + ps.length < 2 ^ 32 by omega)
    rw [zero_add] at hloop
    have hrun : lpLength lp =
      if ps.length < lpHdrNumeleUnknown then
        (lpSetNumElements lp ps.length).bind fun lp => some (ps.length, lp)
      else some (ps.length, lp) := by
      simp only [lpLength, hn, some_bind, hunknown, h.first_eq, hloop]
      rfl
    rw [hrun]
    split
    next hsmall =>
      have hstore : lpSetNumElements lp ps.length =
        some (lp.take 4 ++ toLE 2 ps.length ++ lp.drop (4 + (toLE 2 ps.length).length)) := by
        rw [lpSetNumElements, writeLE, store, if_pos (by rw [length_toLE]; omega)]
      rw [hstore]
      exact ⟨_, rfl, .inr ⟨hunknown ▸ hn, rfl, hsmall⟩⟩
    next hbig => exact ⟨lp, rfl, .inl ⟨rfl, .inr (not_lt.mp hbig)⟩⟩
  · rw [hcount.resolve_left hunknown] at hn hunknown
    refine ⟨lp, ?_, .inl ⟨rfl, .inl hn⟩⟩
    simp [lpLength, hn, hunknown]

lemma neighbours {i : Nat} (hp : ps[i]? = some p) :
    lpNext lp p = some ps[i + 1]? ∧ lpPrev lp p = some (if i = 0 then none else ps[i - 1]?) := by
  have hi := (List.getElem?_eq_some_iff.mp hp).1
  refine ⟨h.walks_next.move_eq hp, ?_⟩
  have hrev : ps.reverse[ps.length - 1 - i]? = some p := by
    rw [getElem?_reverse (by omega), ← hp]
    congr 1
    omega
  rw [h.walks_prev.move_eq hrev]
  split
  next hzero => rw [List.getElem?_eq_none (by rw [length_reverse]; omega)]
  next hpos =>
    rw [getElem?_reverse (by omega)]
    congr 2
    omega

lemma get_inside (hp : p ∈ ps) : ∃ v, lpGet (lp.drop p) = some v ∧
    ∀ start len, v = .str start len → p + start + len ≤ lp.length := by
  obtain ⟨q, hq⟩ := h.entry_of_mem hp
  obtain ⟨e, hle, v, hv, hstr⟩ := hq.readable
  refine ⟨v, hv, fun start len heq => ?_⟩
  have := hstr start len heq
  have := hq.lt_length
  omega

end Walkable

/-- The validator reads only the block it is given.  If it accepts, the entries
start at certain offsets: the walks from the first entry to the right and from
the last one to the left visit them in order and in reverse order, each move
from one of them leads to its neighbour or to the end, the last one ends at the

end mark, every index finds its entry, every element is read inside of the

block, and the length is their number. -/
theorem validator_sound (lp : Bytes) :
    ∃ ok, lpValidateIntegrity lp lp.length true acceptAll = some ok ∧ (ok = true → ∃ ps : List Nat,
        ((lpFirst lp).bind (collect (lpNext lp) lp.length) = some ps ∧
          (lpLast lp).bind (collect (lpPrev lp) lp.length) = some ps.reverse) ∧
        (∀ i p, ps[i]? = some p → lpNext lp p = some ps[i + 1]? ∧
          lpPrev lp p = some (if i = 0 then none else ps[i - 1]?)) ∧
        (lp[lp.length - 1]? = some lpEof ∧
          ∀ p, ps.getLast? = some p → lpSkip lp p = some (lp.length - 1)) ∧
        (∀ index, lpSeek lp index = some (atIndex ps index)) ∧
        (∀ p ∈ ps, ∃ v, lpGet (lp.drop p) = some v ∧
          ∀ start len, v = .str start len → p + start + len ≤ lp.length) ∧
        ∃ lp', lpLength lp = some (ps.length, lp')) := by
  obtain ⟨ok, hrun, hwalkable⟩ := validate_walkable lp
  refine ⟨ok, hrun, fun hok => ?_⟩
  obtain ⟨ps, h⟩ := hwalkable hok
  have hge := h.length_ge
  refine ⟨ps, ⟨?_, ?_⟩, ?_, ⟨h.eof, fun p hp => (h.entry_last hp).skip⟩, h.seek_eq,
    fun p hp => h.get_inside hp, ?_⟩
  · rw [h.first_eq]
    exact h.walks_next.collect_eq (by omega)
  · rw [h.last_eq]
    exact h.walks_prev.collect_eq (by rw [length_reverse]; omega)
  · intro i p hp
    exact h.neighbours hp
  · obtain ⟨lp', hlen, _⟩ := h.length_eq
    exact ⟨lp', hlen⟩

/-- The string `ab` and the numbers 1 and -1, with an unknown count. -/
def mixed : Bytes := [16, 0, 0, 0, 255, 255, 0x82, 97, 98, 3, 1, 1, 0xDF, 0xFF, 2, 255]

theorem validator_sound_mixed :
    lpValidateIntegrity mixed mixed.length true acceptAll = some true ∧ ∃ ps,
      (lpFirst mixed).bind (collect (lpNext mixed) mixed.length) = some ps ∧
      (lpLast mixed).bind (collect (lpPrev mixed) mixed.length) = some ps.reverse ∧
      (∀ index, lpSeek mixed index = some (atIndex ps index)) ∧
      ∃ lp', lpLength mixed = some (ps.length, lp') := by
  have hrun : lpValidateIntegrity mixed mixed.length true acceptAll = some true := by decide
  obtain ⟨ok, hok, h⟩ := validator_sound mixed
  obtain ⟨ps, ⟨hnext, hprev⟩, _, _, hseek, _, hlen⟩ := h (some.inj (hok.symm.trans hrun))
  exact ⟨hrun, ps, hnext, hprev, hseek, hlen⟩

end Dice.Ports.ListpackValidation
