import Dice.Verified.CString

/-!
# Decimal parsing

`string2ll` accepts exactly the canonical decimal text of a signed 64-bit
integer, `memtoull` an amount of memory with a unit.  Machine words are natural
numbers with the overflow checks of the source made explicit.
-/

namespace Dice.Ports.NumberParsing

open Verified.CString

/-- `ULLONG_MAX`. -/
def ullongMax : Nat := 2 ^ 64 - 1

/-- `LLONG_MAX`. -/
def llongMax : Nat := 2 ^ 63 - 1

/-- `LONG_STR_SIZE`: the longest accepted text is one byte shorter. -/
def longStrSize : Nat := 21

def isDigit (c : UInt8) : Bool := 48 ≤ c && c ≤ 57

/-- The value of a digit. -/
def digitValue (c : UInt8) : Nat := c.toNat - 48

/-- The digit loop of `string2ll`: every remaining byte is a digit and no
step overflows. -/
def string2llDigits (v : Nat) : Bytes → Option Nat
  | [] => some v
  | c :: rest =>
    if isDigit c then
      if v > ullongMax / 10 then none
      else if v * 10 > ullongMax - digitValue c then none
      else string2llDigits (v * 10 + digitValue c) rest
    else none

/-- The part of `string2ll` after the sign: the first digit is 1-9. -/
def string2llMagnitude : Bytes → Option Nat
  | [] => none
  | c :: rest =>
    if 49 ≤ c && c ≤ 57 then string2llDigits (digitValue c) rest else none

def string2ll (s : Bytes) : Option Int :=
  if s.length = 0 || longStrSize ≤ s.length then none
  else
    match s with
    | [48] => some 0
    | 45 :: rest =>
      (string2llMagnitude rest).bind fun v =>
        if v > llongMax + 1 then none else some (-(v : Int))
    | _ =>
      (string2llMagnitude s).bind fun v =>
        if v > llongMax then none else some (v : Int)

/-- The digits `strtoll` reads. -/
def strtollDigits (v : Nat) : Bytes → Nat
  | [] => v
  | c :: rest => if isDigit c then strtollDigits (v * 10 + digitValue c) rest else v

/-- `atoll`: blanks, a sign, digits; what does not fit is clamped. -/
def atoll (s : Bytes) : Int :=
  let v : Int :=
    match s.dropWhile isspace with
    | 45 :: rest => -(strtollDigits 0 rest : Int)
    | 43 :: rest => strtollDigits 0 rest
    | rest => strtollDigits 0 rest
  max (-(2 ^ 63)) (min v llongMax)

lemma strtollDigits_append {xs : Bytes} (hxs : ∀ x ∈ xs, isDigit x) (v : Nat)
    (rest : Bytes) : strtollDigits v (xs ++ rest) = strtollDigits (strtollDigits v xs) rest := by
  induction xs generalizing v with
  | nil => rfl
  | cons x xs ih =>
    rw [List.cons_append, strtollDigits, strtollDigits, if_pos (hxs x (by simp)),
      if_pos (hxs x (by simp))]
    exact ih (fun x' hx' => hxs x' (by simp [hx'])) _

lemma le_strtollDigits (v : Nat) (xs : Bytes) : v ≤ strtollDigits v xs := by
  fun_induction strtollDigits v xs with
  | case2 v x xs _ ih => omega
  | case1 | case3 => exact Nat.le_refl _

/-- `atoll` of digits that something else, or nothing, follows. -/
lemma atoll_digits (rest : Bytes) {xs : Bytes} (hne : xs ≠ []) (hxs : ∀ x ∈ xs, isDigit x)
    (hrest : ∀ c ∈ rest.head?, isDigit c = false) (hmax : strtollDigits 0 xs ≤ llongMax) :
    atoll (xs ++ rest) = strtollDigits 0 xs := by
  have hclamp : ∀ v : Int, v = strtollDigits 0 xs →
    max (-(2 ^ 63)) (min v llongMax) = strtollDigits 0 xs := by
    intro v hv
    omega
  have hbyte : ∀ c, isDigit c → isspace c = false ∧ c ≠ 45 ∧ c ≠ 43 :=
    forall_byte (by decide +kernel)
  have hstop : strtollDigits 0 (xs ++ rest) = strtollDigits 0 xs := by
    rw [strtollDigits_append hxs]
    cases rest with
    | nil => rfl
    | cons c rest => rw [strtollDigits, if_neg (by simpa using hrest c rfl)]
  apply hclamp
  cases xs with
  | nil => exact absurd rfl hne
  | cons x xs =>
    obtain ⟨hspace, h45, h43⟩ := hbyte x (hxs x (by simp))
    rw [List.cons_append] at hstop ⊢
    rw [List.dropWhile_cons_of_neg (by simp [hspace])]
    split
    next heq => exact absurd (List.cons.inj heq).1 h45
    next heq => exact absurd (List.cons.inj heq).1 h43
    next => rw [hstop]

/-- `atoi`: the low word of what `strtol` reads. -/
def atoi (s : Bytes) : Int := (atoll s + 2 ^ 31) % 2 ^ 32 - 2 ^ 31

example : string2ll (ofString "-9223372036854775808") = some (-9223372036854775808) := by decide

/-- The units of `memtoull`, in the order in which they are tried. -/
def units : List (String × Nat) :=
  [("", 1), ("b", 1), ("k", 1000), ("kb", 1024), ("m", 1000 * 1000), ("mb", 1024 * 1024),
    ("g", 1000 * 1000 * 1000), ("gb", 1024 * 1024 * 1024)]

def unitMultiplier (u : Bytes) : Option Nat :=
  (units.find? fun unit => strcaseEq u (ofString unit.1)).map Prod.snd

/-- The digits a text starts with. -/
def digitRun (p : Bytes) : Bytes := (cstr p).takeWhile isDigit

/-- What follows them. -/
def unitText (p : Bytes) : Bytes := (cstr p).dropWhile isDigit

/-- `memtoull`; nothing if it sets `err`.  `strtoull` reads all of the buffer and
returns `ULLONG_MAX` for what is greater; `einval` tells if it sets `errno` to
`EINVAL` when there is no digit, which the C library may do. -/
def memtoull (einval : Bool) (p : Bytes) : Option Nat :=
  if (cstr p).head? = some 45 then none
  else (unitMultiplier (unitText p)).bind fun mul =>
    if 128 ≤ (digitRun p).length then none
    else if digitRun p = [] && einval then none
    else some (min (strtollDigits 0 (digitRun p)) ullongMax * mul % 2 ^ 64)

/-- What is not rejected is a number with a unit, and the result is their product. -/
def ExactOrRejected (einval : Bool) (p : Bytes) : Prop :=
  ∀ v, memtoull einval p = some v → digitRun p ≠ [] ∧
    ∃ mul, unitMultiplier (unitText p) = some mul ∧
      v = strtollDigits 0 (digitRun p) * mul ∧ v < 2 ^ 64

variable {p u : Bytes} {mul : Nat}

lemma unitMultiplier_minus (h : (cstr p).head? = some 45) : unitMultiplier (unitText p) = none := by
  obtain ⟨u, hu⟩ := List.head?_eq_some_iff.mp h
  rw [unitText, hu, unitMultiplier, Option.map_eq_none_iff, List.find?_eq_none]
  intro unit hunit heq
  have hfirst : ∀ unit ∈ units, (lower (cstr (ofString unit.1))).head? ≠ some 45 := by decide
  apply hfirst unit hunit
  rw [← eq_of_beq heq]
  rfl

lemma unitMultiplier_pos (h : unitMultiplier u = some mul) : 0 < mul := by
  obtain ⟨unit, hunit, rfl⟩ := Option.map_eq_some_iff.mp h
  have hpos : ∀ unit ∈ units, 0 < unit.2 := by decide
  exact hpos unit (List.mem_of_find?_eq_some hunit)

/-- Neither the number nor the product is checked for overflow, and without a
digit the C library decides. -/
theorem memtoull_exact_iff (einval : Bool) (p : Bytes) :
    ExactOrRejected einval p ↔ ∀ mul, unitMultiplier (unitText p) = some mul →
      (digitRun p).length < 128 →
        (digitRun p = [] → einval) ∧ strtollDigits 0 (digitRun p) * mul < 2 ^ 64 := by
  cases hmul : unitMultiplier (unitText p) with
  | none => simp [ExactOrRejected, memtoull, hmul]
  | some mul =>
    have hminus : (cstr p).head? ≠ some 45 := by
      intro h
      rw [unitMultiplier_minus h] at hmul
      cases hmul
    constructor
    · rintro h _ ⟨⟩ hlen
      by_cases hnone : digitRun p = [] && einval
      · obtain ⟨hempty, hset⟩ := Bool.and_eq_true_iff.mp hnone
        rw [of_decide_eq_true hempty, strtollDigits, Nat.zero_mul]
        exact ⟨fun _ => hset, by decide⟩
      obtain ⟨hne, mul', hmul', hv, hlt⟩ := h _ (by
        rw [memtoull, if_neg hminus, hmul, Option.bind_some, if_neg (by omega), if_neg hnone])
      rw [hmul] at hmul'
      cases hmul'
      exact ⟨fun hempty => absurd hempty hne, hv ▸ hlt⟩
    intro h v hv
    rw [memtoull, if_neg hminus, hmul, Option.bind_some] at hv
    split_ifs at hv with hlen hnone
    obtain ⟨hempty, hlt⟩ := h mul rfl (by omega)
    have hval := (Nat.le_mul_of_pos_right _ (unitMultiplier_pos hmul)).trans_lt hlt
    have hmax : ullongMax = 2 ^ 64 - 1 := rfl
    rw [min_eq_left (by omega), Nat.mod_eq_of_lt hlt, Option.some.injEq] at hv
    exact ⟨fun he => hnone (by simp [he, hempty he]), mul, hmul, hv.symm, hv ▸ hlt⟩

/-- `2 ^ 34` times `2 ^ 30` bytes are no bytes. -/
theorem memtoull_wraps : ¬ ExactOrRejected false (ofString "17179869184gb") := by
  intro h
  obtain ⟨_, mul, hmul, hv, _⟩ := h 0 (by decide)
  cases hmul
  exact absurd hv (by decide)

end Dice.Ports.NumberParsing
