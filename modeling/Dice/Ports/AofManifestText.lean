import Dice.Ports.AofManifest

/-!
# The manifest as text

What `getAofManifestAsString` writes, `aofLoadManifestFromFile` should read
back.  A line is six words joined by blanks, and five of them are harmless.
The file name is written as it is unless `sdsneedsrepr` asks for quotes, and
that is where writer and reader disagree: the reader gives a meaning to the
single quote, the writer does not quote because of it.
-/

namespace Dice.Ports.AofManifestText

open List Verified CString Run NumberParsing Resp Sds SdsRepr AofManifest

/-- A byte that is written as it is. -/
def rawByte (c : UInt8) : Bool :=
  !(c == 92 || c == 34 || c == 10 || c == 13 || c == 9 || c == 7 || c == 8 ||
    !isprint c || isspace c)

lemma sdsneedsrepr_eq_false_iff (s : Bytes) : sdsneedsrepr s = false ↔ ∀ c ∈ s, rawByte c := by
  simp only [sdsneedsrepr, rawByte]
  simp

lemma rawByte_spec : ∀ c, rawByte c → isspace c = false ∧ c ≠ 0 ∧ c ≠ 10 ∧ c ≠ 34 ∧ c ≠ 92 ∧
    (c ≠ 39 → tokenByte c) :=
  forall_byte (by decide +kernel)

/-- The file names that come from an `appendfilename`: that of an old file that
was taken over, and those made from a counter. -/
def Generated (aofFilename name : Bytes) : Prop :=
  name = aofFilename ∨ (∃ seq rdbPreamble, name = baseFileName aofFilename seq rdbPreamble) ∨
    ∃ seq, name = incrFileName aofFilename seq

/-- A byte of the part that is added to `appendfilename`. -/
def suffixByte (c : UInt8) : Bool := rawByte c && c != 39 && c != 47

lemma suffixByte_decimalInt {n : Int} {c : UInt8} (h : c ∈ decimalInt n) : suffixByte c := by
  have hdigit : ∀ c, isDigit c → suffixByte c := forall_byte (by decide +kernel)
  exact of_mem_decimalInt (by decide) hdigit h

lemma suffixByte_spec {c : UInt8} (h : suffixByte c) :
    rawByte c ∧ plainByte c ∧ c ≠ 39 ∧ c ≠ 47 ∧ c ≠ 92 ∧ c ≠ 0 ∧ c ≠ 10 := by
  simp only [suffixByte, Bool.and_eq_true, bne_iff_ne] at h
  obtain ⟨⟨hraw, h39⟩, h47⟩ := h
  obtain ⟨hspace, h0, h10, h34, h92, _⟩ := rawByte_spec c hraw
  exact ⟨hraw, by simp [plainByte, *], h39, h47, h92, h0, h10⟩

variable {aofFilename name : Bytes} {ai : AofInfo} {am : Manifest}

lemma suffixByte_numbered (seq : Int) (kind format : Bytes)
    (hkind : ∀ c ∈ kind, suffixByte c) (hformat : ∀ c ∈ format, suffixByte c) :
    ∀ c ∈ ofString "." ++ decimalInt seq ++ kind ++ format, suffixByte c := by
  have hdot : ∀ c ∈ ofString ".", suffixByte c := all_eq_true.mp (by decide)
  intro c hc
  simp only [mem_append] at hc
  rcases hc with ((hc | hc) | hc) | hc
  · exact hdot c hc
  · exact suffixByte_decimalInt hc
  · exact hkind c hc
  · exact hformat c hc

lemma generated_suffix (h : Generated aofFilename name) :
    ∃ suffix, name = aofFilename ++ suffix ∧ ∀ c ∈ suffix, suffixByte c := by
  rcases h with rfl | ⟨seq, rdbPreamble, rfl⟩ | ⟨seq, rfl⟩
  · exact ⟨[], by simp, by simp⟩
  · refine ⟨_, ?_, suffixByte_numbered seq (ofString ".base")
      (ofString (if rdbPreamble then ".rdb" else ".aof")) (all_eq_true.mp (by decide)) ?_⟩
    · simp [baseFileName]
    · cases rdbPreamble <;> exact all_eq_true.mp (by decide)
  · refine ⟨_, ?_, suffixByte_numbered seq (ofString ".incr") (ofString ".aof")
      (all_eq_true.mp (by decide)) (all_eq_true.mp (by decide))⟩
    simp [incrFileName]

/-- A generated name needs quotes, and has a single quote in it, exactly when
`appendfilename` does. -/
lemma generated_spec (h : Generated aofFilename name)
    (hzero : (0 : UInt8) ∉ aofFilename) (hvalid : isValidAOFfilename aofFilename) :
    sdsneedsrepr name = sdsneedsrepr aofFilename ∧
    ((39 : UInt8) ∈ name ↔ (39 : UInt8) ∈ aofFilename) ∧
    (0 : UInt8) ∉ name ∧ name ≠ [] ∧ pathIsBaseName name := by
  obtain ⟨suffix, rfl, hsuffix⟩ := generated_suffix h
  have hbyte := fun c hc => suffixByte_spec (hsuffix c hc)
  have h39 : 39 ∉ suffix := fun hmem => (hbyte 39 hmem).2.2.1 rfl
  have h47 : 47 ∉ suffix := fun hmem => (hbyte 47 hmem).2.2.2.1 rfl
  have h92 : 92 ∉ suffix := fun hmem => (hbyte 92 hmem).2.2.2.2.1 rfl
  have h0 : 0 ∉ suffix := fun hmem => (hbyte 0 hmem).2.2.2.2.2.1 rfl
  simp only [isValidAOFfilename, pathIsBaseName, cstr_eq_self hzero, Bool.and_eq_true,
    Bool.not_eq_true', isEmpty_eq_false_iff] at hvalid
  refine ⟨?_, by simp [h39], by simp [hzero, h0], by simp [hvalid.1], ?_⟩
  · rw [Bool.eq_iff_iff, ← not_iff_not, Bool.not_eq_true, Bool.not_eq_true,
      sdsneedsrepr_eq_false_iff, sdsneedsrepr_eq_false_iff]
    constructor
    · intro hall c hc
      exact hall c (by simp [hc])
    intro hall c hc
    rcases mem_append.mp hc with hc | hc
    · exact hall c hc
    · exact (hbyte c hc).1
  · have hcstr : cstr (aofFilename ++ suffix) = aofFilename ++ suffix :=
      cstr_eq_self (by simp [hzero, h0])
    simp only [pathIsBaseName, hcstr]
    simp only [contains_eq_mem] at hvalid
    simp [hvalid.2.1, hvalid.2.2, h47, h92]

lemma readsAs_raw (hne : name ≠ []) (hraw : ∀ c ∈ name, rawByte c)
    (h39 : (39 : UInt8) ∉ name) : ReadsAs name name := by
  apply readsAs_of_isWord
  rw [isWord_iff]
  constructor
  · intro c hc
    exact (rawByte_spec c (hraw c hc)).2.2.2.2.2 fun heq => h39 (heq ▸ hc)
  · cases name with
    | nil => exact absurd rfl hne
    | cons c rest => exact ⟨c, rest, rfl, (rawByte_spec c (hraw c (by simp))).1⟩

/-- Inside single quotes everything up to the next one is read as it is. -/
lemma splitToken_insq {mid : Bytes} (h39 : (39 : UInt8) ∉ mid) (h92 : (92 : UInt8) ∉ mid)
    (rest : Bytes) :
    splitToken .insq (mid ++ 39 :: rest) = (closeQuote rest).map fun
      | (token, rest) => (mid ++ token, rest) := by
  induction mid with
  | nil =>
    rw [nil_append, splitToken]
    · cases closeQuote rest <;> simp
    · intro rest' heq
      cases heq
  | cons c mid ih =>
    simp only [mem_cons, not_or] at h39 h92
    rw [cons_append, splitToken, if_neg (Ne.symm h39.1), ih h39.2 h92.2]
    · cases closeQuote rest <;> rfl
    · intro rest' heq
      exact absurd heq fun h => h92.1 h.symm

lemma splitToken_insq_none {text : Bytes} (h39 : (39 : UInt8) ∉ text) :
    splitToken .insq text = none := by
  induction text with
  | nil => rfl
  | cons c text ih =>
    simp only [mem_cons, not_or] at h39
    rw [splitToken, if_neg (Ne.symm h39.1), ih h39.2]
    · rfl
    · intro rest' _ heq
      exact h39.2 (by simp [heq])

/-- A name with a single quote is never read as it was written: it is cut at
the quote and the line is rejected, or the quotes are lost. -/
lemma quoted_cases (hraw : ∀ c ∈ name, rawByte c) (h39 : (39 : UInt8) ∈ name) :
    (∃ token, ReadsAs name token ∧ (39 : UInt8) ∉ token ∧ (0 : UInt8) ∉ token) ∨
    ∀ rest, (39 : UInt8) ∉ rest → splitToken .plain (name ++ 32 :: rest) = none := by
  obtain ⟨before, after, rfl, hbefore⟩ := eq_append_cons_of_mem h39
  have htoken : ∀ c ∈ before, tokenByte c := by
    intro c hc
    exact (rawByte_spec c (hraw c (by simp [hc]))).2.2.2.2.2 fun heq => hbefore (heq ▸ hc)
  have hopen : ∀ rest, splitToken .plain (before ++ 39 :: rest) = (splitToken .insq rest).map fun
      | (token, rest) => (before ++ token, rest) := by
    intro rest
    rw [splitToken_append before (39 :: rest) htoken]
    rfl
  by_cases hclose : (39 : UInt8) ∈ after
  · obtain ⟨mid, tail, rfl, hmid⟩ := eq_append_cons_of_mem hclose
    have hmid92 : (92 : UInt8) ∉ mid := by
      intro hmem
      exact (rawByte_spec 92 (hraw 92 (by simp [hmem]))).2.2.2.2.1 rfl
    cases tail with
    | nil =>
      left
      refine ⟨before ++ mid, ?_, by simp [hbefore, hmid], ?_⟩
      · constructor
        · cases before with
          | nil => rfl
          | cons c before => simpa using (rawByte_spec c (hraw c (by simp))).1
        · rw [hopen, splitToken_insq hmid hmid92]
          simp [closeQuote]
        intro rest
        refine ⟨[32], .inr rfl, ?_⟩
        rw [append_assoc, cons_append, append_assoc, singleton_append,
          hopen, splitToken_insq hmid hmid92]
        simp [closeQuote, show isspace 32 from rfl]
      · intro hmem
        apply (rawByte_spec 0 (hraw 0 ?_)).2.1 rfl
        rcases mem_append.mp hmem with hmem | hmem <;> simp [hmem]
    | cons d tail =>
      right
      intro rest _
      have hd : isspace d = false := (rawByte_spec d (hraw d (by simp))).1
      rw [append_assoc, cons_append, append_assoc, cons_append, hopen, splitToken_insq hmid hmid92]
      simp [closeQuote, hd]
  · right
    intro rest hrest
    rw [append_assoc, cons_append, hopen, splitToken_insq_none]
    · rfl
    · simp [hclose, hrest]

/-! ## One line -/

/-- The words of a line. -/
def lineWords (ai : AofInfo) (name : Bytes) : List Bytes :=
  [ofString "file", name, ofString "seq", decimalInt ai.fileSeq, ofString "type",
    [ai.fileType.letter]]

lemma nameText_bytes (ai : AofInfo) : (0 : UInt8) ∉ nameText ai ∧ (10 : UInt8) ∉ nameText ai := by
  have hbyte : ∀ c, (10 : UInt8) ∉ reprByte c := forall_byte (by decide +kernel)
  unfold nameText
  split
  · refine ⟨zero_notMem_sdscatrepr _, ?_⟩
    simp only [sdscatrepr, nil_append, mem_append, mem_cons, mem_flatMap, not_or, not_exists,
      not_and]
    exact ⟨⟨by decide, fun c _ => hbyte c⟩, by decide⟩
  next hrepr =>
    have hraw := (sdsneedsrepr_eq_false_iff ai.fileName).mp (by simpa using hrepr)
    constructor
    · intro hmem
      exact (rawByte_spec 0 (hraw 0 hmem)).2.1 rfl
    · intro hmem
      exact (rawByte_spec 10 (hraw 10 hmem)).2.2.1 rfl

/-- The words of a line, joined by blanks. -/
def writtenLine (ai : AofInfo) : Bytes := [(32 : UInt8)].intercalate (lineWords ai (nameText ai))

lemma aofInfoFormat_eq (ai : AofInfo) : aofInfoFormat ai = writtenLine ai ++ [10] := by
  rw [aofInfoFormat, cstr_eq_self (nameText_bytes ai).1]
  simp [writtenLine, lineWords]

lemma letter_spec (t : AofFileType) :
    isWord [t.letter] ∧ inCset [32, 9, 13, 10] t.letter = false ∧ t.letter ≠ 0 ∧
    t.letter ≠ 10 ∧ t.letter ≠ 39 := by
  cases t <;> decide

lemma isWord_decimalInt (n : Int) : isWord (decimalInt n) := by
  apply isWord_of_plain
  · unfold decimalInt
    split
    · simp
    · exact decimal_ne_nil _
  · intro c hc
    exact (suffixByte_spec (suffixByte_decimalInt hc)).2.1

lemma notMem_lineWords : ∀ w ∈ lineWords ai (nameText ai), (0 : UInt8) ∉ w ∧ (10 : UInt8) ∉ w := by
  have hdigits : ∀ c ∈ decimalInt ai.fileSeq, c ≠ 0 ∧ c ≠ 10 := fun c hc =>
    (suffixByte_spec (suffixByte_decimalInt hc)).2.2.2.2.2
  obtain ⟨_, _, hzero, hend, _⟩ := letter_spec ai.fileType
  intro w hw
  simp only [lineWords, mem_cons, not_mem_nil, or_false] at hw
  rcases hw with rfl | rfl | rfl | rfl | rfl | rfl
  · decide
  · exact nameText_bytes ai
  · decide
  · exact ⟨fun hmem => (hdigits 0 hmem).1 rfl, fun hmem => (hdigits 10 hmem).2 rfl⟩
  · decide
  · simp [hzero.symm, hend.symm]

lemma notMem_line (ai : AofInfo) :
    (0 : UInt8) ∉ writtenLine ai ∧ (10 : UInt8) ∉ writtenLine ai := by
  constructor <;> intro hmem <;> rcases mem_intercalate hmem with hblank | ⟨w, hw, hmem⟩
  · cases hblank
  · exact (notMem_lineWords w hw).1 hmem
  · cases hblank
  · exact (notMem_lineWords w hw).2 hmem

/-- What the reader makes of a line that was written: it has its end, which
goes, and something is left. -/
lemma trimmed_line (ai : AofInfo) :
    cstr (aofInfoFormat ai) = aofInfoFormat ai ∧ (10 : UInt8) ∈ aofInfoFormat ai ∧
      sdstrim (aofInfoFormat ai) [32, 9, 13, 10] = writtenLine ai ∧
      (writtenLine ai).isEmpty = false := by
  obtain ⟨mid, hline⟩ : ∃ mid, writtenLine ai = 102 :: mid ++ [ai.fileType.letter] := by
    refine ⟨ofString "ile" ++ 32 :: nameText ai ++ 32 :: ofString "seq" ++
      32 :: decimalInt ai.fileSeq ++ 32 :: ofString "type" ++ [32], ?_⟩
    simp [writtenLine, lineWords, ofString]
  refine ⟨?_, ?_, ?_, ?_⟩
  · apply cstr_eq_self
    rw [aofInfoFormat_eq, mem_append, not_or]
    exact ⟨(notMem_line ai).1, by decide⟩
  · rw [aofInfoFormat_eq]
    simp
  · have hend : ∀ b ∈ [(10 : UInt8)], inCset [32, 9, 13, 10] b := by
      intro b hb
      rw [mem_singleton.mp hb]
      rfl
    rw [aofInfoFormat_eq, hline, append_assoc]
    exact sdstrim_append (by decide) (letter_spec ai.fileType).2.1 hend
  · rfl

lemma splitLine_some {argv : List Bytes} (hlen : argv.length = 6)
    (h : sdssplitargs (writtenLine ai) = some argv) :
    splitLine (aofInfoFormat ai) = .ok argv := by
  obtain ⟨hcstr, hmem, htrim, hne⟩ := trimmed_line ai
  simp [splitLine, hcstr, hmem, htrim, hne, h, hlen]

lemma splitLine_none (h : sdssplitargs (writtenLine ai) = none) :
    splitLine (aofInfoFormat ai) = .error invalidFormat := by
  obtain ⟨hcstr, hmem, htrim, hne⟩ := trimmed_line ai
  simp [splitLine, hcstr, hmem, htrim, h]

lemma splitLine_format {token : Bytes} (h : ReadsAs (nameText ai) token) :
    splitLine (aofInfoFormat ai) = .ok (lineWords ai token) := by
  have hsplit : sdssplitargs (writtenLine ai) = some (lineWords ai token) := by
    have hread := sdssplitargs_tokens ((lineWords ai (nameText ai)).zip (lineWords ai token)) ?_ ?_
    · exact hread
    · intro t ht
      simp only [lineWords, zip_cons_cons, zip_nil_right, mem_cons, not_mem_nil, or_false] at ht
      rcases ht with rfl | rfl | rfl | rfl | rfl | rfl
      · exact readsAs_of_isWord (by decide)
      · exact h
      · exact readsAs_of_isWord (by decide)
      · exact readsAs_of_isWord (isWord_decimalInt _)
      · exact readsAs_of_isWord (by decide)
      · exact readsAs_of_isWord (letter_spec _).1
    · intro t ht
      exact (notMem_lineWords t.1 (of_mem_zip ht).1).1
  exact splitLine_some rfl hsplit

lemma splitLine_unread (hhead : (nameText ai).head?.map isspace = some false)
    (h : ∀ rest, (39 : UInt8) ∉ rest → splitToken .plain (nameText ai ++ 32 :: rest) = none) :
    splitLine (aofInfoFormat ai) = .error invalidFormat := by
  have hsplit : sdssplitargs (writtenLine ai) = none := by
    unfold sdssplitargs
    rw [cstr_eq_self (notMem_line ai).1, writtenLine, lineWords, intercalate_cons_cons,
      append_assoc, singleton_append,
      splitargsLoop_cons (readsAs_of_isWord (by decide)), intercalate_cons_cons,
      append_assoc, singleton_append]
    have hquote : (39 : UInt8) ∉ [(32 : UInt8)].intercalate
        [ofString "seq", decimalInt ai.fileSeq, ofString "type", [ai.fileType.letter]] := by
      intro hmem
      rcases mem_intercalate hmem with hsep | ⟨w, hw, hmem⟩
      · cases hsep
      simp only [mem_cons, not_mem_nil, or_false] at hw
      rcases hw with rfl | rfl | rfl | rfl
      · exact absurd hmem (by decide)
      · exact (suffixByte_spec (suffixByte_decimalInt hmem)).2.2.1 rfl
      · exact absurd hmem (by decide)
      · exact (letter_spec ai.fileType).2.2.2.2 (mem_singleton.mp hmem).symm
    cases hname : nameText ai with
    | nil => simp [hname] at hhead
    | cons c tail =>
      have hread := h _ hquote
      rw [hname, cons_append] at hread
      have hspace : isspace c = false := by simpa [hname] using hhead
      rw [cons_append, length_append, length_cons, ← Nat.add_assoc,
        splitargsLoop, dropWhile_cons_of_neg (by simp [hspace])]
      simp only [hread]
      rfl
  exact splitLine_none hsplit

/-- `fileSeq` is a `long long`. -/
def InRange (ai : AofInfo) : Prop := -(2 ^ 63 : Int) ≤ ai.fileSeq ∧ ai.fileSeq ≤ (llongMax : Int)

instance (ai : AofInfo) : Decidable (InRange ai) := inferInstanceAs (Decidable (_ ∧ _))

lemma readFields_lineWords (hrange : InRange ai) (token : Bytes) :
    readFields {} (lineWords ai token) =
      if pathIsBaseName token then
        .ok { fileName := some (cstr token), fileSeq := ai.fileSeq,
              fileType := ai.fileType.letter }
      else .error (ofString "File can't be a path, just a filename") := by
  have hatoll := atoll_decimalInt hrange.1 hrange.2
  rw [lineWords, readFields, if_pos (by decide)]
  split
  · rw [readFields, if_neg (by decide), if_pos (by decide), readFields, if_neg (by decide),
      if_neg (by decide), if_pos (by decide), readFields, hatoll]
    · rfl
    · simp
  · rfl

lemma head_aofInfoFormat (ai : AofInfo) : (aofInfoFormat ai).head? = some 102 := rfl

/-- Reading a line whose name is read as `token`. -/
lemma loadLine_format {token : Bytes} (h : ReadsAs (nameText ai) token)
    (hrange : InRange ai) (state : Manifest × Int) :
    loadLine state (aofInfoFormat ai) =
      if pathIsBaseName token then
        if ai.fileSeq = 0 then .error invalidFormat
        else addInfo state (cstr token) ai.fileSeq ai.fileType.letter
      else .error (ofString "File can't be a path, just a filename") := by
  have hletter : ai.fileType.letter ≠ 0 := (letter_spec ai.fileType).2.2.1
  rw [loadLine, head_aofInfoFormat]
  simp only [splitLine_format h, readFields_lineWords hrange]
  by_cases hpath : pathIsBaseName token
  · simp [hpath, hletter]
  · simp [hpath]

lemma fgets_lines {entries : List AofInfo}
    (hfit : ∀ ai ∈ entries, (aofInfoFormat ai).length ≤ manifestMaxLine) :
    fgets manifestMaxLine [] (entries.flatMap aofInfoFormat) = entries.map aofInfoFormat := by
  induction entries with
  | nil => rfl
  | cons ai entries ih =>
    have hlen := hfit ai (by simp)
    rw [flatMap_cons, map_cons, aofInfoFormat_eq, append_assoc,
      singleton_append, fgets_line (notMem_line ai).2,
      ih fun ai' hai' => hfit ai' (by simp [hai'])]
    · rfl
    · rw [aofInfoFormat_eq, length_append, length_singleton] at hlen
      rw [length_nil]
      omega

lemma aofLoadManifestFromFile_eq (hne : am.entries ≠ [])
    (hfit : ∀ ai ∈ am.entries, (aofInfoFormat ai).length ≤ manifestMaxLine) :
    aofLoadManifestFromFile (getAofManifestAsString am) =
    ((am.entries.map aofInfoFormat).foldlM loadLine ({}, 0)).map Prod.fst := by
  rw [aofLoadManifestFromFile, getAofManifestAsString, fgets_lines hfit]
  cases hentries : am.entries with
  | nil => exact absurd hentries hne
  | cons ai entries => rfl

/-- A manifest with names generated from a configured `appendfilename`, as the
server keeps it. -/
structure Listable (aofFilename : Bytes) (am : Manifest) : Prop where
  accepted : isValidAOFfilename aofFilename = true
  noNul : (0 : UInt8) ∉ aofFilename
  generated : ∀ ai ∈ am.entries, Generated aofFilename ai.fileName
  inRange : ∀ ai ∈ am.entries, InRange ai
  fits : ∀ ai ∈ am.entries, (aofInfoFormat ai).length ≤ manifestMaxLine
  nonempty : am.entries ≠ []
  baseType : ∀ ai ∈ am.baseAofInfo, ai.fileType = .base
  histType : ∀ ai ∈ am.historyAofList, ai.fileType = .hist
  incrType : ∀ ai ∈ am.incrAofList, ai.fileType = .incr
  incrPositive : ∀ ai ∈ am.incrAofList, 0 < ai.fileSeq
  incrSorted : (am.incrAofList.map AofInfo.fileSeq).Pairwise (· < ·)

/-- Loading the text gives the same files. -/
def RoundTrips (am : Manifest) : Prop :=
  ∃ am', aofLoadManifestFromFile (getAofManifestAsString am) = .ok am' ∧
    am'.baseAofInfo = am.baseAofInfo ∧ am'.historyAofList = am.historyAofList ∧
      am'.incrAofList = am.incrAofList

/-- A name is read as it was written unless a single quote in it went unquoted. -/
lemma loadLine_generated (hgen : Generated aofFilename ai.fileName)
    (haccepted : isValidAOFfilename aofFilename) (hzero : (0 : UInt8) ∉ aofFilename)
    (hquote : (39 : UInt8) ∉ aofFilename ∨ sdsneedsrepr aofFilename)
    (hrange : InRange ai) (state : Manifest × Int) :
    loadLine state (aofInfoFormat ai) =
    if ai.fileSeq = 0 then .error invalidFormat
    else addInfo state ai.fileName ai.fileSeq ai.fileType.letter := by
  obtain ⟨hrepr, h39, h0, hne, hpath⟩ := generated_spec hgen hzero haccepted
  have hread : ReadsAs (nameText ai) ai.fileName := by
    unfold nameText
    split
    · exact readsAs_sdscatrepr _
    next hraw =>
      have hfalse : sdsneedsrepr ai.fileName = false := by simpa using hraw
      rcases hquote with hquote | hquote
      · exact readsAs_raw hne ((sdsneedsrepr_eq_false_iff _).mp hfalse) fun h =>
          hquote (h39.mp h)
      · rw [← hrepr, hfalse] at hquote
        cases hquote
  rw [loadLine_format hread hrange, if_pos hpath, cstr_eq_self h0]

/-! ### What is read is what was written -/

/-- The manifest as it is after a restart: the counters are those of the last
files in use, history files do not count. -/
def reread (am : Manifest) : Manifest where
  baseAofInfo := am.baseAofInfo
  historyAofList := am.historyAofList
  incrAofList := am.incrAofList
  currBaseFileSeq := (am.baseAofInfo.map AofInfo.fileSeq).getD 0
  currIncrFileSeq := (am.incrAofList.getLast?.map AofInfo.fileSeq).getD 0

def addEntry (state : Manifest × Int) (ai : AofInfo) : Except Bytes (Manifest × Int) :=
  addInfo state ai.fileName ai.fileSeq ai.fileType.letter

lemma foldlM_loadLine {entries : List AofInfo}
    (h : ∀ ai ∈ entries, ∀ state, loadLine state (aofInfoFormat ai) = addEntry state ai)
    (state : Manifest × Int) :
    (entries.map aofInfoFormat).foldlM loadLine state = entries.foldlM addEntry state := by
  induction entries generalizing state with
  | nil => rfl
  | cons ai entries ih =>
    rw [map_cons, foldlM_cons, foldlM_cons, h ai (by simp)]
    cases addEntry state ai with
    | error err => rfl
    | ok state' => exact ih (fun ai' hai' => h ai' (by simp [hai'])) state'

lemma foldlM_base {base : Option AofInfo} (htype : ∀ ai ∈ base, ai.fileType = .base) :
    base.toList.foldlM addEntry ({}, 0) =
    .ok ({ baseAofInfo := base
           currBaseFileSeq := (base.map AofInfo.fileSeq).getD 0 }, 0) := by
  cases base with
  | none => rfl
  | some ai =>
    obtain ⟨fileName, fileSeq, fileType⟩ := ai
    cases (htype _ rfl : fileType = .base)
    rfl

lemma foldlM_history {hist : List AofInfo} (htype : ∀ ai ∈ hist, ai.fileType = .hist)
    (am : Manifest) (maxseq : Int) :
    hist.foldlM addEntry (am, maxseq) =
    .ok ({ am with historyAofList := am.historyAofList ++ hist }, maxseq) := by
  induction hist generalizing am with
  | nil =>
    rw [append_nil]
    rfl
  | cons ai hist ih =>
    have hstep : addEntry (am, maxseq) ai =
      .ok ({ am with historyAofList := am.historyAofList ++ [ai] }, maxseq) := by
      have hhist := htype ai (by simp)
      obtain ⟨fileName, fileSeq, fileType⟩ := ai
      cases hhist
      rfl
    have hrest := ih (fun ai' hai' => htype ai' (by simp [hai']))
      { am with historyAofList := am.historyAofList ++ [ai] }
    rw [foldlM_cons, hstep]
    refine Eq.trans hrest ?_
    simp

lemma foldlM_incr {incrs : List AofInfo} (htype : ∀ ai ∈ incrs, ai.fileType = .incr)
    (am : Manifest) (hsorted : (am.currIncrFileSeq :: incrs.map AofInfo.fileSeq).Pairwise (· < ·)) :
    (incrs.foldlM addEntry (am, am.currIncrFileSeq)).map Prod.fst =
    .ok { am with
      incrAofList := am.incrAofList ++ incrs
      currIncrFileSeq := (incrs.getLast?.map AofInfo.fileSeq).getD am.currIncrFileSeq } := by
  induction incrs generalizing am with
  | nil =>
    rw [append_nil]
    rfl
  | cons ai incrs ih =>
    rw [pairwise_cons] at hsorted
    have hlt : ¬ ai.fileSeq ≤ am.currIncrFileSeq := by
      have := hsorted.1 ai.fileSeq (by simp)
      omega
    have hstep : addEntry (am, am.currIncrFileSeq) ai =
      .ok ({ am with
        incrAofList := am.incrAofList ++ [ai]
        currIncrFileSeq := ai.fileSeq }, ai.fileSeq) := by
      have hincr := htype ai (by simp)
      obtain ⟨fileName, fileSeq, fileType⟩ := ai
      cases hincr
      exact if_neg hlt
    have hrest := ih (fun ai' hai' => htype ai' (by simp [hai']))
      { am with incrAofList := am.incrAofList ++ [ai], currIncrFileSeq := ai.fileSeq }
      hsorted.2
    rw [foldlM_cons, hstep]
    refine Eq.trans hrest ?_
    cases hlast : incrs.getLast? <;> simp [getLast?_cons, hlast]

/-- Reading the text of a listable manifest, when names are quoted where they
have to be and no entry has the number 0. -/
lemma aofLoadManifestFromFile_text (h : Listable aofFilename am)
    (hquote : (39 : UInt8) ∉ aofFilename ∨ sdsneedsrepr aofFilename)
    (hseq : ∀ ai ∈ am.baseAofInfo.toList ++ am.historyAofList, ai.fileSeq ≠ 0) :
    aofLoadManifestFromFile (getAofManifestAsString am) = .ok (reread am) := by
  have hne : ∀ ai ∈ am.entries, ai.fileSeq ≠ 0 := by
    intro ai hai
    rcases mem_append.mp hai with hai | hai
    · exact hseq ai hai
    · have := h.incrPositive ai hai
      omega
  have hlines : ∀ ai ∈ am.entries, ∀ state,
    loadLine state (aofInfoFormat ai) = addEntry state ai := by
    intro ai hai state
    rw [loadLine_generated (h.generated ai hai) h.accepted h.noNul hquote (h.inRange ai hai),
      if_neg (hne ai hai), addEntry]
  have hsorted : ((0 : Int) :: am.incrAofList.map AofInfo.fileSeq).Pairwise (· < ·) := by
    refine pairwise_cons.mpr ⟨?_, h.incrSorted⟩
    intro seq hmem
    obtain ⟨ai, hai, rfl⟩ := mem_map.mp hmem
    exact h.incrPositive ai hai
  have hincr := foldlM_incr h.incrType
    { baseAofInfo := am.baseAofInfo
      historyAofList := am.historyAofList
      currBaseFileSeq := (am.baseAofInfo.map AofInfo.fileSeq).getD 0 } hsorted
  rw [aofLoadManifestFromFile_eq h.nonempty h.fits, foldlM_loadLine hlines, Manifest.entries,
    foldlM_append, foldlM_append, foldlM_base h.baseType]
  show ((do
    let state ← am.historyAofList.foldlM addEntry _
    am.incrAofList.foldlM addEntry state).map Prod.fst) = _
  rw [foldlM_history h.histType]
  exact hincr

/-! ### Nothing else is read -/

lemma mem_entries_addInfo {state state' : Manifest × Int} {fileName : Bytes}
    {fileSeq : Int} {fileType : UInt8}
    (h : addInfo state fileName fileSeq fileType = .ok state') (hai : ai ∈ state'.1.entries) :
    ai ∈ state.1.entries ∨ ai.fileName = fileName ∧ ai.fileSeq = fileSeq := by
  obtain ⟨am, maxseq⟩ := state
  unfold addInfo at h
  dsimp only at h
  split at h
  · split at h <;> cases h
    simp only [Manifest.entries] at hai ⊢
    grind
  split at h
  · cases h
    simp only [Manifest.entries] at hai ⊢
    grind
  split at h
  · split at h <;> cases h
    simp only [Manifest.entries] at hai ⊢
    grind
  · cases h

lemma loadLine_ok {state state' : Manifest × Int} {buf : Bytes}
    (h : loadLine state buf = .ok state') :
    state' = state ∨ ∃ argv info fileName, splitLine buf = .ok argv ∧
    readFields {} argv = .ok info ∧ info.fileName = some fileName ∧ info.fileSeq ≠ 0 ∧
    addInfo state fileName info.fileSeq info.fileType = .ok state' := by
  revert h
  fun_cases loadLine state buf with
  | case1 => exact fun h => .inl (Except.ok.inj h).symm
  | case6 _ argv hargv info hinfo fileName hname hzero =>
    exact fun h =>
      .inr ⟨argv, info, fileName, hargv, hinfo, hname, fun heq => by simp [heq] at hzero, h⟩
  | _ => exact nofun

lemma loaded_fileSeq_ne_zero {content : Bytes}
    (h : aofLoadManifestFromFile content = .ok am) : ∀ ai ∈ am.entries, ai.fileSeq ≠ 0 := by
  unfold aofLoadManifestFromFile at h
  split at h
  · cases h
  obtain ⟨state, hfold, rfl⟩ := map_ok h
  refine foldlM_invariant (I := fun state : Manifest × Int =>
    ∀ ai ∈ state.1.entries, ai.fileSeq ≠ 0) ?_ (fun _ hai => by cases hai) hfold
  intro s buf s' _ hs hline ai hai
  rcases loadLine_ok hline with rfl | ⟨_, info, fileName, _, _, _, hne, hadd⟩
  · exact hs ai hai
  · rcases mem_entries_addInfo hadd hai with hai | ⟨_, hseq⟩
    · exact hs ai hai
    · rwa [hseq]

/-- A single quote that went unquoted is not in any name that is read. -/
lemma loaded_quote_notMem {am' : Manifest}
    (h : Listable aofFilename am) (h39 : (39 : UInt8) ∈ aofFilename)
    (hraw : sdsneedsrepr aofFilename = false)
    (hload : aofLoadManifestFromFile (getAofManifestAsString am) = .ok am') :
    ∀ ai ∈ am'.entries, (39 : UInt8) ∉ ai.fileName := by
  rw [aofLoadManifestFromFile_eq h.nonempty h.fits] at hload
  obtain ⟨state, hfold, rfl⟩ := map_ok hload
  refine foldlM_invariant (I := fun state : Manifest × Int =>
    ∀ ai ∈ state.1.entries, (39 : UInt8) ∉ ai.fileName) ?_ (fun _ hai => by cases hai) hfold
  intro s buf s' hbuf hs hline ai hai
  obtain ⟨entry, hentry, rfl⟩ := mem_map.mp hbuf
  obtain ⟨hrepr, hquote, _, hne, _⟩ := generated_spec (h.generated entry hentry) h.noNul h.accepted
  rw [hraw] at hrepr
  have hbytes := (sdsneedsrepr_eq_false_iff _).mp hrepr
  have hname : nameText entry = entry.fileName := by simp [nameText, hrepr]
  rcases quoted_cases hbytes (hquote.mpr h39) with ⟨token, hread, htoken, hzero⟩ | hunread
  · rw [loadLine_format (hname ▸ hread) (h.inRange entry hentry)] at hline
    split at hline
    · split at hline
      · cases hline
      · rcases mem_entries_addInfo hline hai with hai | ⟨heq, _⟩
        · exact hs ai hai
        · rwa [heq, cstr_eq_self hzero]
    · cases hline
  have hhead : (nameText entry).head?.map isspace = some false := by
    rw [hname]
    cases hcons : entry.fileName with
    | nil => exact absurd hcons hne
    | cons c tail => simpa using (rawByte_spec c (hbytes c (by simp [hcons]))).1
  rw [loadLine, head_aofInfoFormat] at hline
  simp only [splitLine_unread hhead (hname ▸ hunread)] at hline
  cases hline

/-- The text of a manifest is read back exactly when a single quote in
`appendfilename` comes with a byte that makes the writer quote, and no BASE or
HISTORY entry has the number 0. -/
theorem manifest_round_trip_iff {aofFilename : Bytes} {am : Manifest}
    (h : Listable aofFilename am) :
    RoundTrips am ↔ ((39 : UInt8) ∉ aofFilename ∨ sdsneedsrepr aofFilename = true) ∧
        ∀ ai ∈ am.baseAofInfo.toList ++ am.historyAofList, ai.fileSeq ≠ 0 := by
  constructor
  · rintro ⟨am', hload, hbase, hhist, hincr⟩
    have hentries : am'.entries = am.entries := by
      rw [Manifest.entries, Manifest.entries, hbase, hhist, hincr]
    constructor
    · rw [or_iff_not_imp_left, Classical.not_not]
      intro h39
      cases hrepr : sdsneedsrepr aofFilename with
      | true => rfl
      | false =>
        obtain ⟨ai, hai⟩ := exists_mem_of_ne_nil _ h.nonempty
        have hnot := loaded_quote_notMem h h39 hrepr hload ai (hentries ▸ hai)
        have hspec := generated_spec (h.generated ai hai) h.noNul h.accepted
        exact absurd (hspec.2.1.mpr h39) hnot
    · intro ai hai
      apply loaded_fileSeq_ne_zero hload ai
      rw [hentries]
      exact mem_append_left _ hai
  · rintro ⟨hquote, hseq⟩
    exact ⟨reread am, aofLoadManifestFromFile_text h hquote hseq, rfl, rfl, rfl⟩

/-- A BASE, a HISTORY and an INCR file under a name that has to be quoted. -/
private def quotedManifest : Manifest where
  baseAofInfo := some ⟨ofString "it's \"my\".aof.2.base.rdb", 2, .base⟩
  historyAofList := [⟨ofString "it's \"my\".aof.1.incr.aof", 1, .hist⟩]
  incrAofList := [⟨ofString "it's \"my\".aof.2.incr.aof", 2, .incr⟩]

private lemma quotedManifest_listable : Listable (ofString "it's \"my\".aof") quotedManifest := by
  constructor
  case generated =>
    intro ai hai
    simp only [Manifest.entries, quotedManifest, Option.toList_some, cons_append,
      nil_append, mem_cons, not_mem_nil, or_false] at hai
    rcases hai with rfl | rfl | rfl
    · exact .inr (.inl ⟨2, true, by decide +kernel⟩)
    · exact .inr (.inr ⟨1, by decide +kernel⟩)
    · exact .inr (.inr ⟨2, by decide +kernel⟩)
  all_goals decide +kernel

theorem manifest_round_trip_sample :
    Listable (ofString "it's \"my\".aof") quotedManifest ∧ RoundTrips quotedManifest :=
  ⟨quotedManifest_listable, (manifest_round_trip_iff quotedManifest_listable).mpr
      ⟨.inr (by decide +kernel), by decide +kernel⟩⟩

/-- `appendfilename "it's.aof"` is accepted, and the manifest written for it
stops the server when it is read: the quote of the first line is never closed. -/
private def apostropheManifest : Manifest where
  baseAofInfo := some ⟨ofString "it's.aof.1.base.rdb", 1, .base⟩
  incrAofList := [⟨ofString "it's.aof.1.incr.aof", 1, .incr⟩]

private lemma apostropheManifest_listable :
    Listable (ofString "it's.aof") apostropheManifest := by
  constructor
  case generated =>
    intro ai hai
    simp only [Manifest.entries, apostropheManifest, Option.toList_some, cons_append,
      nil_append, mem_cons, not_mem_nil, or_false] at hai
    rcases hai with rfl | rfl
    · exact .inr (.inl ⟨1, true, by decide +kernel⟩)
    · exact .inr (.inr ⟨1, by decide +kernel⟩)
  all_goals decide +kernel

theorem manifest_round_trip_fails : Listable (ofString "it's.aof") apostropheManifest ∧
      (aofLoadManifestFromFile (getAofManifestAsString apostropheManifest)).toOption = none ∧
      ¬ RoundTrips apostropheManifest := by
  have hload : (aofLoadManifestFromFile
      (getAofManifestAsString apostropheManifest)).toOption = none := by decide +kernel
  refine ⟨apostropheManifest_listable, hload, ?_⟩
  rintro ⟨am', hok, _⟩
  rw [hok] at hload
  cases hload

end Dice.Ports.AofManifestText
