import Mathlib.Algebra.Group.Int.Defs
import Mathlib.Algebra.GroupWithZero.Nat
import Mathlib.Data.List.TakeWhile

/-!
# Byte strings and the C view of them

Every string the server handles is an `sds`: a length-counted byte array that
the C library functions read as a NUL-terminated string, and much of the parsing
code mixes the two views.  A string is therefore kept as its full list of bytes,
and `cstr` is the part a C function sees.  The character classes are those of the
C locale.
-/

namespace Dice.Verified.CString

open List UInt8

/-- A length-counted byte string. -/
abbrev Bytes := List UInt8

instance : LawfulBEq Bytes := inferInstance

/-- The bytes of a source literal.  Only ASCII literals are used. -/
def ofString (s : String) : Bytes := s.toList.map fun c => c.toNat.toUInt8

/-- The part of a byte string a C string function reads: everything before
the first NUL. -/
def cstr (b : Bytes) : Bytes := b.takeWhile (· != 0)

/-- `tolower` in the C locale. -/
def tolower (c : UInt8) : UInt8 := if 65 ≤ c && c ≤ 90 then c + 32 else c

/-- `isspace` in the C locale: blank, `\t`, `\n`, `\v`, `\f`, `\r`. -/
def isspace (c : UInt8) : Bool := c == 32 || (9 ≤ c && c ≤ 13)

/-- `sdstolower`. -/
def lower (b : Bytes) : Bytes := b.map tolower

/-- `!strcasecmp(a, b)`: the C views agree up to ASCII case. -/
def strcaseEq (a b : Bytes) : Bool := lower (cstr a) == lower (cstr b)

/-- `!strcmp(a, b)`: the C views agree. -/
def strEq (a b : Bytes) : Bool := cstr a == cstr b

/-- `strchr`: the offset of the first such byte before the first NUL. -/
def strchr (ch : UInt8) : Bytes → Option Nat
  | [] => none
  | c :: rest =>
    if c = ch then some 0
    else if c = 0 then none
    else (strchr ch rest).map (· + 1)

/-- The strings `fgets` delivers from a file, of at most `max` bytes each; `buf`
is the one being filled. -/
def fgets (max : Nat) (buf : Bytes) : Bytes → List Bytes
  | [] => if buf.isEmpty then [] else [buf]
  | c :: rest =>
    let buf := buf ++ [c]
    if c = 10 || buf.length = max then buf :: fgets max [] rest
    else fgets max buf rest

variable {body : Bytes}

/-- A line that fits is delivered as one string. -/
theorem fgets_line {max : Nat} (hbody : (10 : UInt8) ∉ body) (rest : Bytes) :
    ∀ buf : Bytes, buf.length + body.length < max →
    fgets max buf (body ++ 10 :: rest) = (buf ++ body ++ [10]) :: fgets max [] rest := by
  induction body with
  | nil => simp [fgets]
  | cons c body ih =>
    intro buf hfit
    rw [mem_cons, not_or] at hbody
    rw [length_cons] at hfit
    have hcut : ¬ (c = 10 || (buf ++ [c]).length = max) := by
      simp only [length_append, length_singleton, Bool.or_eq_true, decide_eq_true_eq, not_or]
      exact ⟨Ne.symm hbody.1, by omega⟩
    rw [cons_append, fgets, if_neg hcut,
      ih hbody.2 (buf ++ [c]) (by simp only [length_append, length_singleton]; omega)]
    simp

/-- One `fgets` from a file that is not at its end: a line, or what fits of it,
and the rest of the file. -/
def takeLine : Nat → Bytes → Bytes × Bytes
  | 0, rest => ([], rest)
  | _, [] => ([], [])
  | max + 1, c :: rest =>
    if c = 10 then ([10], rest)
    else
      match takeLine max rest with
      | (buf, rest) => (c :: buf, rest)

lemma takeLine_line (max : Nat) (hbody : (10 : UInt8) ∉ body)
    (hfit : body.length < max) (rest : Bytes) :
    takeLine max (body ++ 10 :: rest) = (body ++ [10], rest) := by
  induction body generalizing max with
  | nil =>
    cases max with
    | zero => simp at hfit
    | succ max => simp [takeLine]
  | cons c body ih =>
    rw [mem_cons, not_or] at hbody
    rw [length_cons] at hfit
    cases max with
    | zero => omega
    | succ max =>
      rw [cons_append, takeLine, if_neg (Ne.symm hbody.1), ih max hbody.2 (by omega)]
      rfl

/-- A last line without its end. -/
theorem takeLine_short (max : Nat) (hbody : (10 : UInt8) ∉ body)
    (hfit : body.length ≤ max) : takeLine max body = (body, []) := by
  induction body generalizing max with
  | nil => cases max <;> rfl
  | cons c body ih =>
    rw [mem_cons, not_or] at hbody
    rw [length_cons] at hfit
    cases max with
    | zero => omega
    | succ max => rw [takeLine, if_neg (Ne.symm hbody.1), ih max hbody.2 (by omega)]

/-- A property of all bytes can be checked byte by byte. -/
theorem forall_byte {P : UInt8 → Prop} (h : ∀ i : Fin 256, P (ofFin i)) (c : UInt8) :
    P c := h c.toFin

variable (c : UInt8) (b : Bytes)

lemma tolower_tolower : tolower (tolower c) = tolower c := by
  have hall : ∀ c, tolower (tolower c) = tolower c := forall_byte (by decide +kernel)
  exact hall c

@[simp] lemma lower_lower : lower (lower b) = lower b := by
  simp [lower, tolower_tolower]

@[simp] lemma lower_nil : lower [] = [] := rfl

@[simp] lemma lower_cons : lower (c :: b) = tolower c :: lower b := rfl

@[simp] lemma lower_append (a b : Bytes) : lower (a ++ b) = lower a ++ lower b := by
  simp [lower]

lemma cstr_eq_self {b : Bytes} (h : (0 : UInt8) ∉ b) : cstr b = b := by
  refine takeWhile_eq_self_iff.mpr ?_
  intro c hc
  have hne : c ≠ 0 := fun h0 => h (h0 ▸ hc)
  simpa using hne

lemma cstr_cons {c : UInt8} (h : c ≠ 0) (b : Bytes) : cstr (c :: b) = c :: cstr b :=
  takeWhile_cons_of_pos (by simpa using h)

lemma zero_notMem_cstr : (0 : UInt8) ∉ cstr b := by
  intro h
  have := mem_takeWhile_imp h
  simp at this

@[simp] lemma cstr_cstr : cstr (cstr b) = cstr b := cstr_eq_self (zero_notMem_cstr b)

/-- Case folding neither produces nor removes a byte that is no letter. -/
theorem tolower_eq_iff {c d : UInt8} (hd : d < 65 ∨ 122 < d) : tolower c = d ↔ c = d := by
  unfold tolower
  split
  next h =>
    simp only [Bool.and_eq_true, decide_eq_true_eq, le_iff_toNat_le,
      lt_iff_toNat_lt, toNat_ofNat] at h hd
    have hadd : (c + 32).toNat = c.toNat + 32 := by
      rw [UInt8.toNat_add]
      simp only [toNat_ofNat]
      omega
    constructor
    · intro heq
      have := congrArg toNat heq
      omega
    · intro heq
      have := congrArg toNat heq
      omega
  next => rfl

lemma mem_lower_iff {b : Bytes} {d : UInt8} (hd : d < 65 ∨ 122 < d) : d ∈ lower b ↔ d ∈ b := by
  unfold lower
  rw [mem_map]
  constructor
  · rintro ⟨c, hc, heq⟩
    rwa [← (tolower_eq_iff hd).mp heq]
  · intro h
    exact ⟨d, h, (tolower_eq_iff hd).mpr rfl⟩

lemma cstr_lower : cstr (lower b) = lower (cstr b) := by
  unfold cstr lower
  rw [takeWhile_map]
  congr 2
  funext c
  have h : tolower c = 0 ↔ c = 0 := tolower_eq_iff (.inl (by decide))
  rw [Function.comp_apply, Bool.eq_iff_iff, bne_iff_ne, bne_iff_ne]
  exact not_congr h

@[simp] lemma cstr_terminated : cstr (b ++ [0]) = cstr b := by
  induction b with
  | nil => rfl
  | cons c b ih =>
    by_cases hc : c = 0
    · subst hc
      rfl
    · rw [cons_append, cstr_cons hc, cstr_cons hc, ih]

lemma strcaseEq_iff (a b : Bytes) : strcaseEq a b ↔ lower (cstr a) = lower (cstr b) := by
  simp [strcaseEq]

/-- Bytes that are neither looked for nor NUL are passed over. -/
theorem strchr_append {ch : UInt8} (body rest : Bytes) (h : ∀ c ∈ body, c ≠ ch ∧ c ≠ 0) :
    strchr ch (body ++ rest) = (strchr ch rest).map (· + body.length) := by
  induction body with
  | nil => cases hs : strchr ch rest <;> simp [hs]
  | cons c body ih =>
    obtain ⟨hne, hzero⟩ := h c (by simp)
    have hrest := ih (fun c' hc' => h c' (by simp [hc']))
    rw [cons_append, strchr, if_neg hne, if_neg hzero, hrest, Option.map_map]
    rfl

lemma strchr_cons_self (ch : UInt8) (rest : Bytes) : strchr ch (ch :: rest) = some 0 := by
  rw [strchr, if_pos rfl]

/-- A text cut off before its end is a shorter part of it. -/
theorem append_cut {u rest token tail : Bytes} (h : u ++ rest = token ++ tail) :
    (∃ u', u = token ++ u' ∧ u' ++ rest = tail) ∨
    (u.length < token.length ∧ ∃ missing, token = u ++ missing ∧ rest ≠ []) := by
  rcases append_eq_append_iff.mp h with ⟨w, htoken, hrest⟩ | ⟨w, hu, htail⟩
  · cases w with
    | nil =>
      refine .inl ⟨[], ?_, ?_⟩
      · simpa using htoken.symm
      · simpa using hrest
    | cons b w =>
      refine .inr ⟨?_, b :: w, htoken, ?_⟩
      · rw [htoken]
        simp
      · rw [hrest]
        simp
  · exact .inl ⟨w, hu, htail.symm⟩

/-- Looking for the end of a line that is ended by a carriage return and a line
feed: it is found at the end of the line, or the line is not complete. -/
theorem strchr_line {u rest tail : Bytes}
    (hbody : ∀ c ∈ body, c ≠ 13 ∧ c ≠ 0) (h : u ++ rest = (body ++ [13, 10]) ++ tail) :
    (∃ u', u = (body ++ [13, 10]) ++ u' ∧ u' ++ rest = tail ∧ strchr 13 u = some body.length) ∨
    (rest ≠ [] ∧ u.length < body.length + 2 ∧
      (strchr 13 u = none ∨ ∃ k, strchr 13 u = some k ∧ u.length < k + 2)) := by
  rcases append_cut h with ⟨u', hu, htail⟩ | ⟨hlen, missing, htoken, hrest⟩
  · refine .inl ⟨u', hu, htail, ?_⟩
    rw [hu, append_assoc, strchr_append _ _ hbody]
    show (strchr 13 (13 :: _)).map _ = _
    rw [strchr_cons_self]
    simp
  refine .inr ⟨hrest, by simpa using hlen, ?_⟩
  rcases append_eq_append_iff.mp htoken with ⟨w, hu, hmissing⟩ | ⟨w, hb, _⟩
  · -- the cut is behind the body
    cases w with
    | nil =>
      refine .inl ?_
      rw [hu, strchr_append _ _ hbody]
      rfl
    | cons c w =>
      have hc : c = 13 := by
        simp only [cons_append, cons.injEq] at hmissing
        exact hmissing.1.symm
      refine .inr ⟨body.length, ?_, ?_⟩
      · rw [hu, hc, strchr_append _ _ hbody, strchr_cons_self]
        simp
      · simp only [length_append] at hlen
        omega
  · -- the cut is inside the body
    refine .inl ?_
    have hu : ∀ c ∈ u, c ≠ 13 ∧ c ≠ 0 := by
      intro c hc
      exact hbody c (by rw [hb]; simp [hc])
    have happ := strchr_append u [] hu
    simpa [strchr] using happ

end Dice.Verified.CString
