import Dice.Ports.NumberParsing

/-!
# The wire format

Lengths are written as a mark, a decimal number and a line end; a bulk string
is its length and its bytes; a request is an array of bulk strings.  The parser
reads lengths with `string2ll`, so the one fact about numbers the protocol
rests on is that `string2ll` reads back what was written.
-/

namespace Dice.Ports.Resp

open Verified.CString NumberParsing Option List Nat

def crlf : Bytes := [13, 10]

/-- The decimal text of a length. -/
def decimal (n : Nat) : Bytes := (toDigits 10 n).map fun c => c.toNat.toUInt8

/-- A mark, a length and the end of the line. -/
def header (mark : UInt8) (n : Nat) : Bytes := mark :: (decimal n ++ crlf)

/-- A bulk string. -/
def bulk (p : Bytes) : Bytes := header 36 p.length ++ p ++ crlf

/-- The arguments of a request. -/
def encodeArgs (args : List Bytes) : Bytes := args.flatMap bulk

/-- A request: `*<n>`, then `$<len>` and the bytes of each argument. -/
def encodeCommand (args : List Bytes) : Bytes := header 42 args.length ++ encodeArgs args

@[simp] lemma encodeArgs_nil : encodeArgs [] = [] := rfl

@[simp] lemma encodeArgs_cons (a : Bytes) (args : List Bytes) :
    encodeArgs (a :: args) = bulk a ++ encodeArgs args := rfl

/-! ## Digits -/

/-- The digit of a value below ten. -/
def digit (d : Nat) : UInt8 := d.digitChar.toNat.toUInt8

lemma digit_spec (d : Nat) (hd : d < 10) : isDigit (digit d) ∧ digitValue (digit d) = d ∧
    (0 < d → (49 ≤ digit d && digit d ≤ 57)) := by
  have hall : ∀ d < 10, isDigit (digit d) ∧ digitValue (digit d) = d ∧
    (0 < d → (49 ≤ digit d && digit d ≤ 57)) := by decide
  exact hall d hd

variable {n : Nat}

lemma decimal_of_lt (h : n < 10) : decimal n = [digit n] := by
  rw [decimal, toDigits_of_lt_base h]
  rfl

lemma decimal_of_le (h : 10 ≤ n) : decimal n = decimal (n / 10) ++ [digit (n % 10)] := by
  rw [decimal, toDigits_of_base_le (by decide) h, map_append]
  rfl

lemma isDigit_of_mem_decimal {c : UInt8} (h : c ∈ decimal n) : isDigit c := by
  induction n using Nat.strongRecOn with
  | _ n ih =>
    by_cases hn : n < 10
    · rw [decimal_of_lt hn, mem_singleton] at h
      rw [h]
      exact (digit_spec n hn).1
    rw [decimal_of_le (by omega), mem_append, mem_singleton] at h
    rcases h with h | h
    · exact ih (n / 10) (by omega) h
    · rw [h]
      exact (digit_spec _ (mod_lt _ (by decide))).1

lemma decimal_ne_nil (n : Nat) : decimal n ≠ [] := by
  by_cases hn : n < 10
  · rw [decimal_of_lt hn]
    simp
  · rw [decimal_of_le (by omega)]
    simp

/-- The last digit of a number that fits is accepted. -/
lemma string2llDigits_snoc (c : UInt8) (hc : isDigit c) (xs : Bytes) (v m : Nat)
    (h : string2llDigits v xs = some m) (hm : m * 10 + digitValue c ≤ ullongMax) :
    string2llDigits v (xs ++ [c]) = some (m * 10 + digitValue c) := by
  fun_induction string2llDigits v xs with
  | case1 =>
    cases h
    have hten : ¬ m > ullongMax / 10 := by omega
    have hsum : ¬ m * 10 > ullongMax - digitValue c := by omega
    simp [string2llDigits, hc, hten, hsum]
  | case4 v x xs hx hten hsum ih =>
    rw [cons_append, string2llDigits, if_pos hx, if_neg hten, if_neg hsum]
    exact ih h
  | _ => cases h

/-- The magnitude of a written positive number is read back. -/
lemma string2llMagnitude_decimal (hpos : 0 < n) (hn : n ≤ ullongMax) :
    string2llMagnitude (decimal n) = some n := by
  induction n using Nat.strongRecOn with
  | _ n ih =>
    by_cases hten : n < 10
    · obtain ⟨_, hvalue, hfirst⟩ := digit_spec n hten
      rw [decimal_of_lt hten]
      simp [string2llMagnitude, hfirst hpos, string2llDigits, hvalue]
    have hrec := ih (n / 10) (by omega) (by omega) (by omega)
    obtain ⟨hdigit, hvalue, _⟩ := digit_spec (n % 10) (mod_lt _ (by decide))
    rw [decimal_of_le (by omega)]
    cases hd : decimal (n / 10) with
    | nil => exact absurd hd (decimal_ne_nil _)
    | cons c rest =>
      rw [hd] at hrec
      simp only [cons_append, string2llMagnitude] at hrec ⊢
      split at hrec
      · rename_i hc
        rw [if_pos hc, string2llDigits_snoc _ hdigit rest _ _ hrec (by omega)]
        congr 1
        omega
      · cases hrec

lemma length_decimal_lt (hn : n ≤ ullongMax) : (decimal n).length < longStrSize := by
  have hlen := (length_toDigits_le_iff (b := 10) (n := n) (k := 20) (by decide)
    (by decide)).mpr (by unfold ullongMax at hn; omega)
  simp only [decimal, length_map, longStrSize]
  omega

lemma string2ll_decimal (hn : n ≤ llongMax) : string2ll (decimal n) = some (n : Int) := by
  have hu : n ≤ ullongMax := by
    unfold llongMax at hn
    unfold ullongMax
    omega
  by_cases hzero : n = 0
  · subst hzero
    decide
  have hmag := string2llMagnitude_decimal (Nat.pos_of_ne_zero hzero) hu
  have hlen : ¬ ((decimal n).length = 0 || longStrSize ≤ (decimal n).length) := by
    have hpos := length_pos_iff.mpr (decimal_ne_nil n)
    have hlt := length_decimal_lt hu
    simp only [Bool.or_eq_true, decide_eq_true_eq]
    omega
  unfold string2ll
  rw [if_neg hlen]
  split
  · rename_i h
    rw [h] at hmag
    simp [string2llMagnitude] at hmag
  · rename_i rest h
    rw [h] at hmag
    simp [string2llMagnitude] at hmag
  · rw [hmag, bind_some, if_neg (by omega)]

/-- The text of a count: a negative one has a sign. -/
def decimalInt (n : Int) : Bytes :=
  if n < 0 then 45 :: decimal n.natAbs else decimal n.natAbs

lemma of_mem_decimalInt {P : UInt8 → Prop} (hminus : P 45) (hdigit : ∀ c, isDigit c → P c)
    {n : Int} {c : UInt8} (h : c ∈ decimalInt n) : P c := by
  unfold decimalInt at h
  split at h
  · rcases mem_cons.mp h with rfl | h
    · exact hminus
    · exact hdigit c (isDigit_of_mem_decimal h)
  · exact hdigit c (isDigit_of_mem_decimal h)

lemma strtollDigits_decimal (n : Nat) : strtollDigits 0 (decimal n) = n := by
  induction n using Nat.strongRecOn with
  | _ n ih =>
    by_cases hten : n < 10
    · obtain ⟨hdigit, hvalue, _⟩ := digit_spec n hten
      rw [decimal_of_lt hten]
      simp [strtollDigits, hdigit, hvalue]
    obtain ⟨hdigit, hvalue, _⟩ := digit_spec (n % 10) (mod_lt _ (by decide))
    rw [decimal_of_le (by omega), strtollDigits_append fun _ h => isDigit_of_mem_decimal h,
      ih (n / 10) (by omega), strtollDigits, if_pos hdigit, strtollDigits]
    omega

lemma decimalInt_injective {a b : Int} (h : decimalInt a = decimalInt b) : a = b := by
  have hminus : ∀ n : Nat, ∀ rest, decimal n ≠ 45 :: rest := by
    intro n rest heq
    have hmem : (45 : UInt8) ∈ decimal n := by simp [heq]
    exact absurd (isDigit_of_mem_decimal hmem) (by decide)
  have hnat : ∀ m n : Nat, decimal m = decimal n → m = n := by
    intro m n heq
    rw [← strtollDigits_decimal m, heq, strtollDigits_decimal]
  unfold decimalInt at h
  split at h <;> split at h
  · have := hnat _ _ (cons.inj h).2
    omega
  · exact absurd h.symm (hminus _ _)
  · exact absurd h (hminus _ _)
  · have := hnat _ _ h
    omega

section

variable {n : Int} (hlow : -(2 ^ 63 : Int) ≤ n) (hhigh : n ≤ (llongMax : Int))

include hlow hhigh

lemma atoll_decimalInt : atoll (decimalInt n) = n := by
  unfold decimalInt
  split
  · unfold atoll
    rw [dropWhile_cons_of_neg (by decide)]
    simp only [strtollDigits_decimal]
    omega
  have hvalue := strtollDigits_decimal n.natAbs
  have hread := atoll_digits [] (decimal_ne_nil n.natAbs)
    (fun _ h => isDigit_of_mem_decimal h) (by simp) (by omega)
  rw [append_nil] at hread
  omega

lemma length_decimalInt_lt : (decimalInt n).length < longStrSize := by
  have hdigits := (length_toDigits_le_iff (b := 10) (n := n.natAbs) (k := 19) (by decide)
    (by decide)).mpr (by unfold llongMax at hhigh; omega)
  unfold decimalInt
  split <;> simp only [length_cons, decimal, length_map, longStrSize] <;> omega

lemma string2ll_decimalInt : string2ll (decimalInt n) = some n := by
  have hlt := length_decimalInt_lt hlow hhigh
  revert hlt
  unfold decimalInt
  split
  · have hpos : 0 < n.natAbs := by omega
    have hu : n.natAbs ≤ ullongMax := by
      unfold ullongMax
      omega
    have hmag := string2llMagnitude_decimal hpos hu
    intro hlt
    unfold string2ll
    rw [if_neg (by simpa using hlt)]
    simp only
    rw [hmag, bind_some, if_neg (by unfold llongMax; omega)]
    congr 1
    omega
  · intro _
    have hread := string2ll_decimal (n := n.natAbs) (by omega)
    rw [hread]
    congr 1
    omega

end

lemma digit_digitValue : ∀ c, isDigit c → digit (digitValue c) = c ∧ digitValue c < 10 :=
  forall_byte (by decide +kernel)

lemma decimal_of_string2llDigits {xs : Bytes} {v m : Nat} (hpos : 0 < v)
    (h : string2llDigits v xs = some m) : decimal m = decimal v ++ xs ∧ 0 < m := by
  fun_induction string2llDigits v xs with
  | case1 =>
    cases h
    exact ⟨(append_nil _).symm, hpos⟩
  | case4 v c xs hc _ _ ih =>
    obtain ⟨hdigit, hten⟩ := digit_digitValue c hc
    obtain ⟨hm, hmpos⟩ := ih (by omega) h
    refine ⟨?_, hmpos⟩
    rw [hm, decimal_of_le (by omega), show (v * 10 + digitValue c) / 10 = v by omega,
      show (v * 10 + digitValue c) % 10 = digitValue c by omega, hdigit, append_assoc]
    rfl
  | _ => cases h

lemma decimal_of_string2llMagnitude {s : Bytes} {m : Nat}
    (h : string2llMagnitude s = some m) : decimal m = s ∧ 0 < m := by
  have hfirst : ∀ c : UInt8, (49 ≤ c && c ≤ 57) → isDigit c ∧ 0 < digitValue c :=
    forall_byte (by decide +kernel)
  cases s with
  | nil => cases h
  | cons c rest =>
    rw [string2llMagnitude] at h
    split_ifs at h with hc
    obtain ⟨hisDigit, hpos⟩ := hfirst c hc
    obtain ⟨hdigit, hten⟩ := digit_digitValue c hisDigit
    obtain ⟨hm, hmpos⟩ := decimal_of_string2llDigits hpos h
    exact ⟨by rw [hm, decimal_of_lt hten, hdigit]; rfl, hmpos⟩

lemma decimalInt_of_string2ll {s : Bytes} {v : Int} (h : string2ll s = some v) :
    decimalInt v = s ∧ -(2 ^ 63 : Int) ≤ v ∧ v ≤ (llongMax : Int) := by
  have hmax : llongMax = 2 ^ 63 - 1 := rfl
  unfold string2ll at h
  split_ifs at h
  split at h
  · rw [some.injEq] at h
    subst h
    exact ⟨by decide, by decide, by decide⟩
  next rest =>
    rw [bind_eq_some_iff] at h
    obtain ⟨m, hmag, hm⟩ := h
    split_ifs at hm with hbig
    rw [some.injEq] at hm
    obtain ⟨htext, hpos⟩ := decimal_of_string2llMagnitude hmag
    rw [← hm, decimalInt, if_pos (by omega), Int.natAbs_neg, Int.natAbs_natCast, htext]
    exact ⟨rfl, by omega, by omega⟩
  next =>
    rw [bind_eq_some_iff] at h
    obtain ⟨m, hmag, hm⟩ := h
    split_ifs at hm with hbig
    rw [some.injEq] at hm
    obtain ⟨htext, hpos⟩ := decimal_of_string2llMagnitude hmag
    rw [← hm, decimalInt, Int.natAbs_natCast, htext]
    exact ⟨rfl, by omega, by omega⟩

end Dice.Ports.Resp
