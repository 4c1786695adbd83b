import Dice.Ports.Sds

/-!
# Quoted strings

`sdscatrepr` prints a string in double quotes with escapes for everything that
is not printable.  The tokenizer undoes it: reading back one printed byte
yields the byte, so a printed string is one token, and a line of printed
strings splits into the strings.
-/

namespace Dice.Ports.SdsRepr

open Verified.CString Sds List

/-- `isprint` in the C locale. -/
def isprint (c : UInt8) : Bool := 32 ≤ c && c ≤ 126

/-- A digit of `%02x`. -/
def hexChar (d : UInt8) : UInt8 := if d < 10 then 48 + d else 87 + d

/-- What `sdscatrepr` appends for one byte. -/
def reprByte (c : UInt8) : Bytes :=
  if c = 92 || c = 34 then [92, c]
  else if c = 10 then ofString "\\n"
  else if c = 13 then ofString "\\r"
  else if c = 9 then ofString "\\t"
  else if c = 7 then ofString "\\a"
  else if c = 8 then ofString "\\b"
  else if isprint c then [c]
  else [92, 120, hexChar (c / 16), hexChar (c % 16)]

def sdscatrepr (s p : Bytes) : Bytes := s ++ 34 :: p.flatMap reprByte ++ [34]

def sdsneedsrepr (s : Bytes) : Bool :=
  s.any fun c =>
    c == 92 || c == 34 || c == 10 || c == 13 || c == 9 || c == 7 || c == 8 ||
      !isprint c || isspace c

lemma hexChar_spec (c : UInt8) : isHexDigit (hexChar (c / 16)) ∧ isHexDigit (hexChar (c % 16)) ∧
    hexDigitToInt (hexChar (c / 16)) * 16 + hexDigitToInt (hexChar (c % 16)) = c := by
  revert c
  exact forall_byte (by decide +kernel)

lemma splitToken_inq_escape {c : UInt8} (hc : c ≠ 120) (rest : Bytes) :
    splitToken .inq (92 :: c :: rest) = pushByte (unescape c) (splitToken .inq rest) := by
  cases rest with
  | nil => simp [splitToken]
  | cons h rest =>
    cases rest with
    | nil => simp [splitToken]
    | cons l rest => simp [splitToken, hc]

lemma splitToken_inq_plain {c : UInt8} (h92 : c ≠ 92) (h34 : c ≠ 34) (rest : Bytes) :
    splitToken .inq (c :: rest) = pushByte c (splitToken .inq rest) := by
  simp [splitToken, h92, h34]

lemma splitToken_reprByte (c : UInt8) (rest : Bytes) :
    splitToken .inq (reprByte c ++ rest) = pushByte c (splitToken .inq rest) := by
  unfold reprByte
  split
  next h =>
    simp only [Bool.or_eq_true, decide_eq_true_eq] at h
    rcases h with rfl | rfl <;> exact splitToken_inq_escape (by decide) rest
  split
  next h => exact h ▸ splitToken_inq_escape (c := 110) (by decide) rest
  split
  next h => exact h ▸ splitToken_inq_escape (c := 114) (by decide) rest
  split
  next h => exact h ▸ splitToken_inq_escape (c := 116) (by decide) rest
  split
  next h => exact h ▸ splitToken_inq_escape (c := 97) (by decide) rest
  split
  next h => exact h ▸ splitToken_inq_escape (c := 98) (by decide) rest
  split
  next h92 _ _ _ _ _ _ =>
    simp only [Bool.or_eq_true, decide_eq_true_eq, not_or] at h92
    exact splitToken_inq_plain h92.1 h92.2 rest
  · obtain ⟨hhigh, hlow, hvalue⟩ := hexChar_spec c
    simp only [cons_append, nil_append]
    rw [splitToken, if_pos (by rw [hhigh, hlow]; rfl), hvalue]

/-- The body of a printed string is read back byte by byte. -/
lemma splitToken_repr (p rest : Bytes) : splitToken .inq (p.flatMap reprByte ++ 34 :: rest) =
    (closeQuote rest).map fun
      | (token, rest) => (p ++ token, rest) := by
  induction p with
  | nil =>
    show splitToken .inq (34 :: rest) = _
    rw [splitToken]
    · cases closeQuote rest <;> simp
    · intro h l rest' heq
      cases heq
    · intro c rest' heq
      cases heq
  | cons c p ih =>
    rw [flatMap_cons, append_assoc, splitToken_reprByte, ih]
    cases closeQuote rest <;> rfl

lemma readsAs_sdscatrepr (p : Bytes) : ReadsAs (sdscatrepr [] p) p := by
  have hopen : ∀ rest, splitToken .plain (34 :: rest) = splitToken .inq rest := by
    intro rest
    rw [splitToken, if_neg (by decide), if_pos rfl]
  constructor
  · rfl
  · show splitToken .plain (34 :: p.flatMap reprByte ++ [34]) = _
    rw [cons_append, hopen, splitToken_repr]
    simp [closeQuote]
  intro rest
  refine ⟨[32], .inr rfl, ?_⟩
  show splitToken .plain (34 :: p.flatMap reprByte ++ [34] ++ 32 :: rest) = _
  rw [cons_append, cons_append, hopen, append_assoc, singleton_append, splitToken_repr]
  simp [closeQuote, show isspace 32 from rfl]

lemma zero_notMem_sdscatrepr (p : Bytes) : (0 : UInt8) ∉ sdscatrepr [] p := by
  have hbyte : ∀ c, (0 : UInt8) ∉ reprByte c := forall_byte (by decide +kernel)
  simp only [sdscatrepr, nil_append, mem_append, mem_cons, mem_flatMap, not_or, not_exists, not_and]
  exact ⟨⟨by decide, fun c _ => hbyte c⟩, by decide⟩

/-- The strings printed one after the other, as a line. -/
def reprLine (ws : List Bytes) : Bytes :=
  [(32 : UInt8)].intercalate (ws.map fun w => sdscatrepr [] w)

lemma sdssplitargs_reprLine (ws : List Bytes) : sdssplitargs (reprLine ws) = some ws := by
  have h := sdssplitargs_tokens (ws.map fun w => (sdscatrepr [] w, w)) ?_ ?_
  · simpa [Function.comp_def, reprLine] using h
  · intro t ht
    obtain ⟨w, _, rfl⟩ := mem_map.mp ht
    exact readsAs_sdscatrepr w
  · intro t ht
    obtain ⟨w, _, rfl⟩ := mem_map.mp ht
    exact zero_notMem_sdscatrepr w

/-- Splitting inverts printing, for any list of strings and for whatever a line
was split into. -/
theorem splitting_inverts_printing : (∀ ws : List Bytes, sdssplitargs (reprLine ws) = some ws) ∧
      ∀ text : Bytes, sdssplitargs text = none ∨
        ∃ ws, sdssplitargs text = some ws ∧ sdssplitargs (reprLine ws) = some ws := by
  refine ⟨sdssplitargs_reprLine, ?_⟩
  intro text
  cases hsplit : sdssplitargs text with
  | none => exact .inl rfl
  | some ws => exact .inr ⟨ws, rfl, sdssplitargs_reprLine ws⟩

end Dice.Ports.SdsRepr
