import Dice.Verified.CString

/-!
# Splitting strings

`sdssplitlen` cuts at every separator and knows no quotes.  `sdssplitargs` is
the tokenizer of the command line and of configuration files: blanks separate
tokens, double quotes admit escapes, single quotes only an escaped quote, and
a closing quote has to end its token.  The second one reads a C string.
-/

namespace Dice.Ports.Sds

open List hiding beq_eq_decide
open Verified.CString

/-- `sdssplitlen` with a separator of one byte.  The empty string gives no
token at all. -/
def sdssplitlen (s : Bytes) (sep : UInt8) : List Bytes :=
  if s.isEmpty then [] else s.splitOn sep

variable {w text token : Bytes} {sep c : UInt8} {ws : List Bytes}

lemma sep_notMem_of_mem_splitOn {s : Bytes} (h : w ∈ s.splitOn sep) : sep ∉ w := by
  induction s generalizing w with
  | nil =>
    rw [splitOn_nil, mem_singleton] at h
    simp [h]
  | cons c s ih =>
    rw [splitOn_cons_eq_if_modifyHead] at h
    split at h
    · rcases mem_cons.mp h with rfl | h
      · simp
      · exact ih h
    next hne =>
      cases hs : s.splitOn sep with
      | nil => simp [hs] at h
      | cons v vs =>
        rw [hs] at h ih
        rcases mem_cons.mp h with rfl | h
        · have hc : sep ≠ c := fun heq => hne (by simp [heq])
          have hv : sep ∉ v := ih (by simp)
          simp [hc, hv]
        · exact ih (by simp [h])

lemma splitOn_lower (s : Bytes) (hsep : sep < 65 ∨ 122 < sep) :
    (lower s).splitOn sep = (s.splitOn sep).map lower := by
  induction s with
  | nil => rfl
  | cons c s ih =>
    have hc : (tolower c == sep) = (c == sep) := by
      rw [Bool.eq_iff_iff, beq_iff_eq, beq_iff_eq]
      exact tolower_eq_iff hsep
    rw [lower_cons, splitOn_cons_eq_if_modifyHead, splitOn_cons_eq_if_modifyHead, hc, ih]
    split
    · rfl
    · cases s.splitOn sep <;> rfl

lemma sdssplitlen_lower (s : Bytes) (hsep : sep < 65 ∨ 122 < sep) :
    sdssplitlen (lower s) sep = (sdssplitlen s sep).map lower := by
  cases s with
  | nil => rfl
  | cons c s => exact splitOn_lower (c :: s) hsep

/-- `strchr(cset, c)`: the terminator of `cset` counts as one of its bytes. -/
def inCset (cset : Bytes) (c : UInt8) : Bool := cset.contains c || c == 0

def sdstrim (s cset : Bytes) : Bytes :=
  ((s.dropWhile (inCset cset)).reverse.dropWhile (inCset cset)).reverse

/-- Only what follows the last byte outside the set is cut off. -/
lemma sdstrim_append {d : UInt8} {body tail cset : Bytes} (hc : inCset cset c = false)
    (hd : inCset cset d = false) (htail : ∀ b ∈ tail, inCset cset b) :
    sdstrim (c :: body ++ d :: tail) cset = c :: body ++ [d] := by
  have hback : (c :: body ++ d :: tail).reverse =
    tail.reverse ++ d :: (c :: body).reverse := by simp
  unfold sdstrim
  rw [cons_append, dropWhile_cons_of_neg (by simp [hc]), ← cons_append, hback,
    dropWhile_append_of_pos (by simpa using htail),
    dropWhile_cons_of_neg (by simp [hd])]
  simp

def isHexDigit (c : UInt8) : Bool := (48 ≤ c && c ≤ 57) || (97 ≤ c && c ≤ 102) || (65 ≤ c && c ≤ 70)

/-- `hex_digit_to_int`. -/
def hexDigitToInt (c : UInt8) : UInt8 :=
  if 48 ≤ c && c ≤ 57 then c - 48
  else if 97 ≤ c && c ≤ 102 then c - 87
  else if 65 ≤ c && c ≤ 70 then c - 55
  else 0

/-- The byte a backslash escape stands for. -/
def unescape (c : UInt8) : UInt8 :=
  if c = 110 then 10
  else if c = 114 then 13
  else if c = 116 then 9
  else if c = 98 then 8
  else if c = 97 then 7
  else c

/-- Where the tokenizer is: outside quotes, in `"quotes"`, in
`'single quotes'`. -/
inductive QuoteState
  | plain
  | inq
  | insq
  deriving DecidableEq, Repr

/-- A closing quote must be followed by a blank or nothing at all. -/
def closeQuote (rest : Bytes) : Option (Bytes × Bytes) :=
  match rest with
  | [] => some ([], [])
  | c :: _ => if isspace c then some ([], rest) else none

/-- Prepend a byte to the token being read. -/
def pushByte (c : UInt8) (token : Option (Bytes × Bytes)) : Option (Bytes × Bytes) :=
  token.map fun
    | (token, rest) => (c :: token, rest)

/-- The inner loop of `sdssplitargs`: the rest of the current token and what
follows it, or nothing for unbalanced quotes. -/
def splitToken : QuoteState → Bytes → Option (Bytes × Bytes)
  | .plain, [] => some ([], [])
  | .plain, c :: rest =>
    if c = 32 || c = 10 || c = 13 || c = 9 then some ([], rest)
    else if c = 34 then splitToken .inq rest
    else if c = 39 then splitToken .insq rest
    else pushByte c (splitToken .plain rest)
  | .inq, [] => none
  | .inq, 92 :: 120 :: h :: l :: rest =>
    if isHexDigit h && isHexDigit l then
      pushByte (hexDigitToInt h * 16 + hexDigitToInt l) (splitToken .inq rest)
    else pushByte (unescape 120) (splitToken .inq (h :: l :: rest))
  | .inq, 92 :: c :: rest => pushByte (unescape c) (splitToken .inq rest)
  | .inq, c :: rest =>
    if c = 34 then closeQuote rest else pushByte c (splitToken .inq rest)
  | .insq, [] => none
  | .insq, 92 :: 39 :: rest => pushByte 39 (splitToken .insq rest)
  | .insq, c :: rest =>
    if c = 39 then closeQuote rest else pushByte c (splitToken .insq rest)

/-- The outer loop of `sdssplitargs`.  Every token takes at least one byte,
so the length of the line bounds `fuel`. -/
def splitargsLoop : Nat → Bytes → Option (List Bytes)
  | 0, _ => some []
  | fuel + 1, line =>
    match line.dropWhile isspace with
    | [] => some []
    | c :: rest =>
      match splitToken .plain (c :: rest) with
      | none => none
      | some (token, rest) => (splitargsLoop fuel rest).map (token :: ·)

def sdssplitargs (line : Bytes) : Option (List Bytes) := splitargsLoop (line.length + 1) (cstr line)

example : sdssplitargs (ofString " set \"a\\x41 b\" 'c\\'d' ") =
    some [ofString "set", ofString "aA b", ofString "c'd"] := by decide

/-! ## Plain words -/

/-- A byte the tokenizer takes as it is. -/
def plainByte (c : UInt8) : Bool := !isspace c && c != 34 && c != 39 && c != 0

lemma plainByte_cases (h : plainByte c) : isspace c = false ∧ c ≠ 34 ∧ c ≠ 39 ∧ c ≠ 0 ∧
    ¬ (c = 32 || c = 10 || c = 13 || c = 9) := by
  simp only [plainByte, Bool.and_eq_true, Bool.not_eq_true', bne_iff_ne] at h
  obtain ⟨⟨⟨hspace, h34⟩, h39⟩, h0⟩ := h
  refine ⟨hspace, h34, h39, h0, ?_⟩
  intro hsep
  simp only [Bool.or_eq_true, decide_eq_true_eq] at hsep
  rcases hsep with ((rfl | rfl) | rfl) | rfl <;> exact absurd hspace (by decide)

/-- A byte that continues a token outside quotes. -/
def tokenByte (c : UInt8) : Bool :=
  !(c = 32 || c = 10 || c = 13 || c = 9) && c != 34 && c != 39 && c != 0

/-- A token written without quotes.  It may contain `\v` and `\f`, but not
start with one of them. -/
def isWord (w : Bytes) : Bool := w.all tokenByte && (w.head?.map isspace == some false)

lemma tokenByte_cases (h : tokenByte c) :
    ¬ (c = 32 || c = 10 || c = 13 || c = 9) ∧ c ≠ 34 ∧ c ≠ 39 ∧ c ≠ 0 := by
  simp only [tokenByte, Bool.and_eq_true, Bool.not_eq_true', bne_iff_ne] at h
  obtain ⟨⟨⟨hsep, h34⟩, h39⟩, h0⟩ := h
  exact ⟨by simp [hsep], h34, h39, h0⟩

lemma tokenByte_ne_blank (h : tokenByte c) : c ≠ 32 := by
  rintro rfl
  exact absurd h (by decide)

lemma tokenByte_of_plainByte (h : plainByte c) : tokenByte c := by
  obtain ⟨_, h34, h39, h0, hsep⟩ := plainByte_cases h
  simp only [tokenByte, Bool.and_eq_true, bne_iff_ne]
  exact ⟨⟨⟨by simpa using hsep, h34⟩, h39⟩, h0⟩

lemma tokenByte_tolower (c : UInt8) : tokenByte (tolower c) = tokenByte c := by
  have h : ∀ d : UInt8, d < 65 → (tolower c = d ↔ c = d) := fun d hd =>
    tolower_eq_iff (.inl hd)
  unfold tokenByte
  simp only [h 32 (by decide), h 10 (by decide), h 13 (by decide), h 9 (by decide),
    bne, beq_eq_decide, h 34 (by decide), h 39 (by decide), h 0 (by decide)]

lemma tokenByte_lower {b : Bytes} (h : ∀ c ∈ b, tokenByte c) : ∀ c ∈ lower b, tokenByte c := by
  intro c hc
  obtain ⟨c', hc', rfl⟩ := mem_map.mp hc
  rw [tokenByte_tolower]
  exact h c' hc'

lemma isWord_iff : isWord w ↔
    (∀ c ∈ w, tokenByte c) ∧ ∃ c rest, w = c :: rest ∧ isspace c = false := by
  unfold isWord
  cases w with
  | nil => simp
  | cons c rest => simp

lemma tokenByte_of_isWord (h : isWord w) : ∀ c ∈ w, tokenByte c := (isWord_iff.mp h).1

lemma blank_notMem_of_isWord (h : isWord w) : (32 : UInt8) ∉ w :=
  fun hmem => tokenByte_ne_blank (tokenByte_of_isWord h 32 hmem) rfl

lemma isWord_of_plain (hne : w ≠ []) (h : ∀ c ∈ w, plainByte c) : isWord w := by
  refine isWord_iff.mpr ⟨fun c hc => tokenByte_of_plainByte (h c hc), ?_⟩
  · cases w with
    | nil => exact absurd rfl hne
    | cons c rest => exact ⟨c, rest, rfl, (plainByte_cases (h c (by simp))).1⟩

lemma splitToken_append (w rest : Bytes) (h : ∀ c ∈ w, tokenByte c) :
    splitToken .plain (w ++ rest) = (splitToken .plain rest).map fun
      | (token, rest) => (w ++ token, rest) := by
  induction w with
  | nil =>
    rw [nil_append]
    cases splitToken .plain rest <;> rfl
  | cons c w ih =>
    obtain ⟨hsep, h34, h39, _⟩ := tokenByte_cases (h c (by simp))
    rw [cons_append, splitToken, if_neg hsep, if_neg h34, if_neg h39,
      ih (fun c' hc' => h c' (by simp [hc']))]
    cases splitToken .plain rest <;> rfl

/-- `text` is one token of a line and stands for `token`: alone it is read to
its end, and before a blank up to the blank or past it. -/
structure ReadsAs (text token : Bytes) : Prop where
  head : text.head?.map isspace = some false
  alone : splitToken .plain text = some (token, [])
  before_blank : ∀ rest, ∃ blank, (blank = [] ∨ blank = [32]) ∧
    splitToken .plain (text ++ 32 :: rest) = some (token, blank ++ rest)

lemma readsAs_of_isWord (h : isWord w) : ReadsAs w w := by
  obtain ⟨htoken, c, tail, rfl, hspace⟩ := isWord_iff.mp h
  constructor
  · simp [hspace]
  · have hread := splitToken_append (c :: tail) [] htoken
    rw [append_nil] at hread
    rw [hread]
    simp [splitToken]
  · intro rest
    refine ⟨[], .inl rfl, ?_⟩
    rw [splitToken_append (c :: tail) (32 :: rest) htoken, splitToken]
    simp

lemma splitargsLoop_blank {blank : Bytes} (h : blank = [] ∨ blank = [32]) (fuel : Nat)
    (rest : Bytes) : splitargsLoop fuel (blank ++ rest) = splitargsLoop fuel rest := by
  rcases h with rfl | rfl
  · rfl
  cases fuel with
  | zero => rfl
  | succ fuel =>
    rw [splitargsLoop, splitargsLoop, singleton_append, dropWhile_cons_of_pos (by decide)]

lemma readsAs_head (h : ReadsAs text token) : ∃ c tail, text = c :: tail ∧ isspace c = false := by
  cases htext : text with
  | nil => simpa [htext] using h.head
  | cons c tail => exact ⟨c, tail, rfl, by simpa [htext] using h.head⟩

lemma splitargsLoop_cons (h : ReadsAs text token) (fuel : Nat) (rest : Bytes) :
    splitargsLoop (fuel + 1) (text ++ 32 :: rest) = (splitargsLoop fuel rest).map (token :: ·) := by
  obtain ⟨c, tail, rfl, hspace⟩ := readsAs_head h
  obtain ⟨blank, hblank, hread⟩ := h.before_blank rest
  rw [cons_append] at hread ⊢
  rw [splitargsLoop, dropWhile_cons_of_neg (by simp [hspace])]
  simp only [hread]
  rw [splitargsLoop_blank hblank]

section

variable (ts : List (Bytes × Bytes)) (hts : ∀ t ∈ ts, ReadsAs t.1 t.2)

include hts

/-- Tokens joined by single blanks are taken apart again; each pair is a text
and what it stands for. -/
lemma splitargsLoop_tokens : ∀ fuel, ([(32 : UInt8)].intercalate (ts.map Prod.fst)).length < fuel →
    splitargsLoop fuel ([(32 : UInt8)].intercalate (ts.map Prod.fst)) = some (ts.map Prod.snd) := by
  induction ts with
  | nil =>
    intro fuel hfuel
    cases fuel with
    | zero => rfl
    | succ fuel => rfl
  | cons t ts ih =>
    intro fuel hfuel
    obtain ⟨fuel, rfl⟩ : ∃ n, fuel = n + 1 := ⟨fuel - 1, by omega⟩
    have ht := hts t (by simp)
    have hrest := ih (fun t' ht' => hts t' (by simp [ht']))
    cases ts with
    | nil =>
      obtain ⟨c, tail, htext, hspace⟩ := readsAs_head ht
      have hread := ht.alone
      rw [htext] at hread
      rw [map_singleton, intercalate_singleton, htext, splitargsLoop,
        dropWhile_cons_of_neg (by simp [hspace])]
      simp only [hread]
      cases fuel <;> simp [splitargsLoop]
    | cons t' ts =>
      rw [map_cons, map_cons, intercalate_cons_cons, ← map_cons] at hfuel ⊢
      rw [append_assoc, singleton_append] at hfuel ⊢
      rw [length_append, length_cons] at hfuel
      rw [splitargsLoop_cons ht, hrest fuel (by omega)]
      rfl

omit hts in
/-- A byte of a joined text is a separator or stands in one of the parts. -/
lemma mem_intercalate (h : c ∈ [sep].intercalate ws) : c = sep ∨ ∃ w ∈ ws, c ∈ w := by
  induction ws with
  | nil => exact absurd h (by simp)
  | cons w ws ih =>
    cases ws with
    | nil => exact .inr ⟨w, by simp, by simpa using h⟩
    | cons w' ws =>
      rw [intercalate_cons_cons, append_assoc] at h
      simp only [mem_append, mem_singleton] at h
      rcases h with h | h | h
      · exact .inr ⟨w, by simp, h⟩
      · exact .inl h
      · rcases ih h with h | ⟨v, hv, hc⟩
        · exact .inl h
        · exact .inr ⟨v, by simp [mem_cons.mp hv], hc⟩

/-- A line of tokens without NUL splits into what they stand for. -/
lemma sdssplitargs_tokens (hzero : ∀ t ∈ ts, (0 : UInt8) ∉ t.1) :
    sdssplitargs ([(32 : UInt8)].intercalate (ts.map Prod.fst)) = some (ts.map Prod.snd) := by
  have hcstr : cstr ([(32 : UInt8)].intercalate (ts.map Prod.fst)) =
    [(32 : UInt8)].intercalate (ts.map Prod.fst) := by
    apply cstr_eq_self
    intro hmem
    rcases mem_intercalate hmem with hsep | ⟨w, hw, hmem⟩
    · exact absurd hsep (by decide)
    · obtain ⟨t, ht, rfl⟩ := mem_map.mp hw
      exact hzero t ht hmem
  unfold sdssplitargs
  rw [hcstr]
  exact splitargsLoop_tokens ts hts _ (by omega)

end

lemma sdssplitargs_words (hws : ∀ w ∈ ws, isWord w) :
    sdssplitargs ([(32 : UInt8)].intercalate ws) = some ws := by
  have h := sdssplitargs_tokens (ws.map fun w => (w, w)) ?_ ?_
  · simpa [Function.comp_def] using h
  · intro t ht
    obtain ⟨w, hw, rfl⟩ := mem_map.mp ht
    exact readsAs_of_isWord (hws w hw)
  intro t ht
  obtain ⟨w, hw, rfl⟩ := mem_map.mp ht
  intro hmem
  exact (tokenByte_cases (tokenByte_of_isWord (hws w hw) 0 hmem)).2.2.2 rfl

lemma sdssplitargs_word (hne : w ≠ []) (h : ∀ c ∈ w, plainByte c) : sdssplitargs w = some [w] := by
  have hword : ∀ w' ∈ [w], isWord w' := by
    intro w' hw'
    rw [mem_singleton.mp hw']
    exact isWord_of_plain hne h
  have h := sdssplitargs_words hword
  rwa [intercalate_singleton] at h

/-- A token of a text without quotes is copied from it. -/
lemma splitToken_bytes {rest : Bytes} (h34 : (34 : UInt8) ∉ text)
    (h39 : (39 : UInt8) ∉ text) (h0 : (0 : UInt8) ∉ text)
    (h : splitToken .plain text = some (token, rest)) :
    (∀ c ∈ token, tokenByte c) ∧ rest <:+ text := by
  induction text generalizing token with
  | nil =>
    obtain ⟨rfl, rfl⟩ := h
    exact ⟨by simp, suffix_refl _⟩
  | cons c text ih =>
    simp only [mem_cons, not_or] at h34 h39 h0
    rw [splitToken] at h
    split at h
    · obtain ⟨rfl, rfl⟩ := h
      exact ⟨by simp, suffix_cons c _⟩
    next hsep =>
      rw [if_neg (Ne.symm h34.1), if_neg (Ne.symm h39.1)] at h
      obtain ⟨⟨token', rest'⟩, hread, hpush⟩ := Option.map_eq_some_iff.mp h
      obtain ⟨rfl, rfl⟩ := hpush
      obtain ⟨htoken, hsuffix⟩ := ih h34.2 h39.2 h0.2 hread
      refine ⟨?_, hsuffix.trans (suffix_cons c text)⟩
      intro c' hc'
      rcases mem_cons.mp hc' with rfl | hc'
      · have hc34 := Ne.symm h34.1
        have hc39 := Ne.symm h39.1
        have hc0 := Ne.symm h0.1
        simp only [tokenByte, Bool.and_eq_true, bne_iff_ne]
        exact ⟨⟨⟨by simpa using hsep, hc34⟩, hc39⟩, hc0⟩
      · exact htoken c' hc'

lemma splitargsLoop_bytes {fuel : Nat}
    (h34 : (34 : UInt8) ∉ text) (h39 : (39 : UInt8) ∉ text) (h0 : (0 : UInt8) ∉ text)
    (h : splitargsLoop fuel text = some ws) : ∀ w ∈ ws, ∀ c ∈ w, tokenByte c := by
  fun_induction splitargsLoop fuel text generalizing ws with
  | case1 | case2 =>
    cases h
    simp
  | case3 => cases h
  | case4 fuel text c rest hdrop token rest' hread ih =>
    have hsub : c :: rest <:+ text := hdrop ▸ dropWhile_suffix _
    obtain ⟨ws', hws', rfl⟩ := Option.map_eq_some_iff.mp h
    obtain ⟨htoken, hsuffix⟩ := splitToken_bytes (fun hm => h34 (hsub.subset hm))
      (fun hm => h39 (hsub.subset hm)) (fun hm => h0 (hsub.subset hm)) hread
    have hall := hsuffix.trans hsub
    intro w hw
    rcases mem_cons.mp hw with rfl | hw
    · exact htoken
    · exact ih (fun hm => h34 (hall.subset hm)) (fun hm => h39 (hall.subset hm))
        (fun hm => h0 (hall.subset hm)) hws' w hw

/-- A line without NUL has no word exactly when it is blank. -/
lemma sdssplitargs_eq_nil_iff {line : Bytes} (hzero : (0 : UInt8) ∉ line) :
    sdssplitargs line = some [] ↔ ∀ c ∈ line, isspace c := by
  unfold sdssplitargs
  rw [cstr_eq_self hzero, splitargsLoop]
  cases hdrop : line.dropWhile isspace with
  | nil => simpa using dropWhile_eq_nil_iff.mp hdrop
  | cons c rest =>
    have hnot : ¬ ∀ c ∈ line, isspace c := by
      intro hall
      rw [dropWhile_eq_nil_iff.mpr hall] at hdrop
      cases hdrop
    refine iff_of_false ?_ hnot
    simp only
    cases splitToken .plain (c :: rest) with
    | none => simp
    | some r => cases splitargsLoop line.length r.2 <;> simp_all

end Dice.Ports.Sds
