import Dice.Ports.RequestParsing

/-!
# Inline lines and multibulk requests in one stream

The type of a request is decided by its first byte, and remembered in `reqtype`
until the client is reset.  A line without any word delivers no command; the
client is reset after an empty line, but not after a line of blanks, so the
request behind such a line is read as another line whatever it starts with.
The end of a line is looked for with `strchr`, which does not see past a NUL.
-/

namespace Dice.Ports.RequestTypes

open List Verified.CString NumberParsing Resp Sds QueryBuffer RequestParsing Option

/-- An inline line.  A carriage return in front of the line feed belongs to the
line end. -/
structure InlineLine where
  text : Bytes
  withCr : Bool
  noLf : (10 : UInt8) ∉ text
  noCr : withCr = false → text.getLast? ≠ some 13
  notStar : text.head? ≠ some 42
  balanced : (sdssplitargs text).isSome = true

def InlineLine.words (l : InlineLine) : List Bytes := (sdssplitargs l.text).getD []

/-- The line is not empty, but has only blanks. -/
def InlineLine.blank (l : InlineLine) : Bool := l.text != [] && l.text.all isspace

/-- One complete piece of a stream: a line, a request, or a request without
arguments. -/
inductive Item (m : Mode)
  | line (l : InlineLine)
  | request (args : List Bytes) (h : Sendable m args)
  | empty (count : Int) (hle : count ≤ 0) (hlow : -(2 ^ 63 : Int) ≤ count)

variable {m : Mode}

def lineEnd (withCr : Bool) : Bytes := if withCr then [13, 10] else [10]

def Item.bytes : Item m → Bytes
  | .line l => l.text ++ lineEnd l.withCr
  | .request args _ => encodeCommand args
  | .empty count _ _ => 42 :: (decimalInt count ++ crlf)

/-- The bytes of a stream. -/
def stream (items : List (Item m)) : Bytes := items.flatMap Item.bytes

/-- The command an item carries, and how it is to be read. -/
def Item.command : Item m → Option (ReqType × List Bytes)
  | .line l => if l.words = [] then none else some (.inline, l.words)
  | .request args _ => some (.multibulk, args)
  | .empty _ _ _ => none

/-- The calls of `processCommand` a stream should lead to. -/
def expected : List (Item m) → List Delivery
  | [] => []
  | item :: items =>
    (item.command.map fun (reqtype, argv) =>
      (⟨some reqtype, argv, (stream items).length⟩ : Delivery)).toList ++ expected items

/-- No multibulk request directly follows a line of blanks (`afterBlank` says
that such a line came before), and no command is due at or behind a line with a
NUL. -/
def Served : Bool → List (Item m) → Prop
  | _, [] => True
  | _, .line l :: items =>
    if (0 : UInt8) ∈ l.text then
      (Item.line l : Item m).command = none ∧ ∀ item ∈ items, item.command = none
    else Served l.blank items
  | afterBlank, _ :: items => afterBlank = false ∧ Served false items

@[simp] lemma stream_nil : stream ([] : List (Item m)) = [] := rfl

variable (l : InlineLine) (item : Item m) (items : List (Item m)) (fuel : Nat)

@[simp] lemma stream_cons : stream (item :: items) = item.bytes ++ stream items := rfl

lemma bytes_ne_nil : item.bytes ≠ [] := by
  cases item with
  | line l => simp [Item.bytes, lineEnd]; split <;> simp
  | request args h => exact encodeCommand_ne_nil args
  | empty count hle hlow => simp [Item.bytes]

lemma item_ne_nil (tail : Bytes) : item.bytes ++ tail ≠ [] :=
  append_ne_nil_of_left_ne_nil (bytes_ne_nil item) tail

lemma expected_cons_none {item : Item m} (items : List (Item m))
    (h : item.command = none) : expected (item :: items) = expected items := by
  rw [expected, h]
  rfl

lemma expected_cons_some {item : Item m} (items : List (Item m)) {reqtype : ReqType}
    {argv : List Bytes} (h : item.command = some (reqtype, argv)) :
    expected (item :: items) = ⟨some reqtype, argv, (stream items).length⟩ :: expected items := by
  rw [expected, h]
  rfl

lemma expected_eq_nil_iff : expected items = [] ↔ ∀ item ∈ items, item.command = none := by
  induction items with
  | nil => simp [expected]
  | cons item items ih =>
    cases hc : item.command with
    | none => rw [expected_cons_none items hc, ih]; simp [hc]
    | some r => rw [expected_cons_some items hc]; simp [hc]

/-- Every delivery leaves less behind than the stream it comes from. -/
lemma left_lt_of_mem_expected {items : List (Item m)} {d : Delivery}
    (h : d ∈ expected items) : d.left < (stream items).length := by
  induction items with
  | nil => simp [expected] at h
  | cons item items ih =>
    have hpos := length_pos_iff.mpr (bytes_ne_nil item)
    rw [stream_cons, length_append]
    rw [expected, mem_append] at h
    rcases h with h | h
    · simp only [mem_toList, map_eq_some_iff] at h
      obtain ⟨r, _, rfl⟩ := h
      show (stream items).length < _
      omega
    · have := ih h
      omega

/-- The deliveries on record, whatever the parser does next. -/
def Records (log : List Delivery) : Parse → Prop
  | .crash => True
  | .stop c _ => c.delivered = log
  | .go c => c.delivered = log

lemma records_readBulkLen (c : Client) : Records c.delivered (readBulkLen m c) := by
  have halign : ∀ (c : Client) (n : Nat), (alignBigArg m c n).delivered = c.delivered := by
    intro c n
    obtain ⟨_, _, hframe, _⟩ := alignBigArg_frame m c n
    rw [hframe]
  unfold readBulkLen
  dsimp only
  repeat' first | rfl | exact halign _ _ | split

lemma records_readBulkArg (c : Client) : Records c.delivered (readBulkArg m c) := by
  have hgrow : (growArgv c).delivered = c.delivered := by
    unfold growArgv
    split <;> rfl
  unfold readBulkArg
  dsimp only
  repeat' first | trivial | rfl | exact hgrow | split

lemma records_readMultibulkLen (c : Client) : Records c.delivered (readMultibulkLen m c) := by
  unfold readMultibulkLen
  dsimp only
  repeat' first | trivial | rfl | split

lemma delivered_readBulks (n : Nat) :
    ∀ (c c' : Client) (flags : ReadFlags), readBulks m n c = some (c', flags) →
    c'.delivered = c.delivered := by
  induction n with
  | zero =>
    intro c c' flags h
    cases h
    rfl
  | succ n ih =>
    intro c c' flags h
    have hlen := records_readBulkLen (m := m) c
    rw [readBulks] at h
    generalize readBulkLen m c = len at h hlen
    cases len with
    | crash => cases h
    | stop c1 f =>
      cases h
      exact hlen
    | go c1 =>
      have harg := records_readBulkArg (m := m) c1
      dsimp only at h
      generalize readBulkArg m c1 = arg at h harg
      cases arg with
      | crash => cases h
      | stop c2 f =>
        cases h
        exact harg.trans hlen
      | go c2 => exact (ih c2 c' flags h).trans (harg.trans hlen)

variable {c c1 : Client} {flags : ReadFlags} {text tail : Bytes} {afterBlank : Bool} {count : Int}

lemma delivered_parseCommand {c' : Client}
    (h : parseCommand m c = some (c', flags)) : c'.delivered = c.delivered := by
  unfold parseCommand at h
  generalize hr : c.reqtype.getD
    (if c.unparsed.head? = some 42 then .multibulk else .inline) = reqtype at h
  cases reqtype with
  | inline =>
    have hinline : ∀ d : Client, (processInlineBuffer m d).1.delivered = d.delivered := by
      intro d
      unfold processInlineBuffer
      split
      · split <;> rfl
      dsimp only
      generalize (if endsInCr d.unparsed _ then _ else _ : Nat) = querylen
      split
      · rfl
      · split <;> rfl
    have hsame := hinline { c with reqtype := some .inline }
    rwa [some.inj h] at hsame
  | multibulk =>
    simp only [processMultibulkBuffer] at h
    have hlen := records_readMultibulkLen (m := m) { c with reqtype := some .multibulk }
    split at h
    · generalize readMultibulkLen m { c with reqtype := some .multibulk } = len at h hlen
      cases len with
      | crash => cases h
      | stop c1 f =>
        cases h
        exact hlen
      | go c1 => exact (delivered_readBulks _ _ _ _ h).trans hlen
    · exact delivered_readBulks _ { c with reqtype := some .multibulk } _ _ h

lemma delivered_handleParseResults (c : Client) (flags : ReadFlags) :
    (handleParseResults c flags).1.delivered = c.delivered := by
  unfold handleParseResults
  repeat' first | rfl | split

lemma delivered_grows (c : Client) :
    c.delivered <+: (processCommandAndResetClient (beforeCommand c)).delivered := by
  have hsame : (beforeCommand c).delivered = c.delivered := by
    unfold beforeCommand
    split
    · obtain ⟨_, _, hframe, _⟩ := resetSharedQueryBuf_frame c
      rw [hframe]
    · rfl
  show c.delivered <+: (beforeCommand c).delivered ++ _
  rw [hsame]
  exact prefix_append _ _

lemma delivered_inputLoop :
    ∀ c c' : Client, inputLoop m fuel c = some c' → c.delivered <+: c'.delivered := by
  induction fuel with
  | zero =>
    intro c c' h
    cases h
    exact prefix_rfl
  | succ fuel ih =>
    intro c c' h
    unfold inputLoop at h
    split at h
    · cases h
      exact prefix_rfl
    split at h
    · cases h
      exact prefix_rfl
    obtain ⟨⟨c1, flags⟩, hp, h⟩ := bind_eq_some_iff.mp h
    have hparse := delivered_parseCommand hp
    have hhandle := delivered_handleParseResults c1 flags
    dsimp only at h
    generalize handleParseResults c1 flags = r at h hhandle
    obtain ⟨c2, result⟩ := r
    rw [← hparse, ← hhandle]
    cases result with
    | ok =>
      dsimp only at h
      split at h
      · exact ih _ _ h
      · exact (delivered_grows c2).trans (ih _ _ h)
    | err | needMore =>
      cases h
      exact prefix_rfl

section Rounds

variable (fuel : Nat) (hne : c.unparsed ≠ []) (hopen : c.closeAfterReply = false)
    (hparse : parseCommand m c = some (c1, flags))
include hne hopen hparse

section

variable {c2 : Client} (hresult : handleParseResults c1 flags = (c2, .ok))

include hresult

lemma inputLoop_skip (hargv : c2.argv = []) : inputLoop m (fuel + 1) c = inputLoop m fuel c2 := by
  simp [inputLoop, hne, hopen, hparse, hresult, hargv]

lemma inputLoop_deliver (hargv : c2.argv ≠ []) : inputLoop m (fuel + 1) c =
    inputLoop m fuel (processCommandAndResetClient (beforeCommand c2)) := by
  simp [inputLoop, hne, hopen, hparse, hresult, hargv, beforeCommand]

end

lemma inputLoop_stop (hresult : (handleParseResults c1 flags).2 ≠ .ok) :
    inputLoop m (fuel + 1) c = some (handleParseResults c1 flags).1 := by
  simp [inputLoop, hne, hopen, hparse]

end Rounds

/-! ## One item -/

/-- In front of an item; behind a line of blanks the type is still that of a
line. -/
structure AtItem (c : Client) (afterBlank : Bool) : Prop where
  reqtype : c.reqtype = if afterBlank then some .inline else none
  argv : c.argv = []
  multibulklen : c.multibulklen = 0
  bulklen : c.bulklen = none
  inBounds : InBounds c
  isOpen : c.closeAfterReply = false

/-- After a delivered command, or a reset, the type is open again. -/
lemma AtItem.of_idle (h : Idle c) (htype : c.reqtype = none)
    (hopen : c.closeAfterReply = false) : AtItem c false :=
  { h with reqtype := htype, isOpen := hopen }

/-- The length of the line in front of its end, however it ends. -/
lemma line_end_found (tail : Bytes) (withCr : Bool) (hlf : (10 : UInt8) ∉ text)
    (hzero : (0 : UInt8) ∉ text) (hcr : withCr = false → text.getLast? ≠ some 13) :
    ∃ newline, strchr 10 (text ++ lineEnd withCr ++ tail) = some newline ∧
    (if endsInCr (text ++ lineEnd withCr ++ tail) newline then newline - 1
      else newline) = text.length ∧
    (if endsInCr (text ++ lineEnd withCr ++ tail) newline then 2 else 1) =
      (lineEnd withCr).length := by
  have hclean : ∀ c ∈ text, c ≠ 10 ∧ c ≠ 0 := by
    intro c hc
    exact ⟨fun h => hlf (h ▸ hc), fun h => hzero (h ▸ hc)⟩
  cases withCr with
  | true =>
    refine ⟨text.length + 1, ?_, ?_⟩
    · have hclean' : ∀ c ∈ text ++ [13], c ≠ 10 ∧ c ≠ 0 := by
        intro c hc
        rcases mem_append.mp hc with hc | hc
        · exact hclean c hc
        · rw [mem_singleton.mp hc]
          decide
      have hfound := strchr_append (text ++ [13]) (10 :: tail) hclean'
      rw [strchr_cons_self] at hfound
      simpa [lineEnd] using hfound
    · have hends : endsInCr (text ++ lineEnd true ++ tail) (text.length + 1) := by
        simp [endsInCr, lineEnd]
      rw [hends]
      exact ⟨rfl, rfl⟩
  | false =>
    refine ⟨text.length, ?_, ?_⟩
    · have hfound := strchr_append text (10 :: tail) hclean
      rw [strchr_cons_self] at hfound
      simpa [lineEnd] using hfound
    have hends : endsInCr (text ++ lineEnd false ++ tail) text.length = false := by
      unfold endsInCr
      by_cases hnil : text = []
      · simp [hnil]
      have hpos := length_pos_iff.mpr hnil
      have hlast : (text ++ lineEnd false ++ tail)[text.length - 1]? = text.getLast? := by
        rw [append_assoc, getElem?_append_left (by omega), getLast?_eq_getElem?]
      rw [hlast]
      simp [hcr rfl]
    rw [hends]
    exact ⟨rfl, rfl⟩

/-- The flags of a complete line. -/
def lineFlags (zeroQueryLen : Bool) : ReadFlags :=
  { inlineZeroQueryLen := zeroQueryLen, parsingCompleted := true }

/-- `processInlineBuffer` in front of a complete line. -/
lemma processInlineBuffer_line {argv : List Bytes}
    (withCr : Bool) (hprimary : m.primary = false) (hlf : (10 : UInt8) ∉ text)
    (hzero : (0 : UInt8) ∉ text) (hcr : withCr = false → text.getLast? ≠ some 13)
    (hargv : sdssplitargs text = some argv)
    (hu : c.unparsed = text ++ lineEnd withCr ++ tail) (hbounds : InBounds c) :
    ∃ c1, processInlineBuffer m c = (c1, lineFlags (text.length == 0)) ∧
    c1.argv = argv ∧ c1.unparsed = tail ∧ InBounds c1 ∧ c1.reqtype = c.reqtype ∧
    c1.multibulklen = c.multibulklen ∧ c1.bulklen = c.bulklen ∧ SameLog c c1 := by
  obtain ⟨newline, hfound, hquery, hfeed⟩ := line_end_found tail withCr hlf hzero hcr
  rw [← hu] at hfound hquery hfeed
  have htake : c.unparsed.take text.length = text := by rw [hu, append_assoc, take_left]
  unfold processInlineBuffer
  simp only [hfound, hquery, hfeed, htake, hargv, hprimary, Bool.and_false]
  refine ⟨_, rfl, rfl, ?_, ?_, rfl, rfl, rfl, ⟨rfl, rfl, rfl⟩⟩
  · show c.querybuf.bytes.drop (c.qbPos + text.length + (lineEnd withCr).length) = tail
    rw [Nat.add_assoc, ← drop_drop]
    show c.unparsed.drop _ = tail
    rw [hu]
    exact drop_left' (by simp)
  · have hadvance := inBounds_advance (c := c) (k := text.length + (lineEnd withCr).length)
      hbounds (by rw [hu]; simp)
    rw [← Nat.add_assoc] at hadvance
    exact hadvance

lemma strchr_zero {ch : UInt8} (rest : Bytes) (hch : ch ∉ text)
    (hzero : (0 : UInt8) ∈ text) : strchr ch (text ++ rest) = none := by
  induction text with
  | nil => simp at hzero
  | cons c text ih =>
    have hne : c ≠ ch := fun h => hch (by simp [h])
    rw [cons_append, strchr, if_neg hne]
    by_cases hc : c = 0
    · rw [if_pos hc]
    have hmem : (0 : UInt8) ∈ text := by
      rcases mem_cons.mp hzero with h | h
      · exact absurd h.symm hc
      · exact h
    rw [if_neg hc, ih (fun h => hch (by simp [h])) hmem]
    rfl

/-- The type of the request in front of a line is that of a line. -/
lemma parseCommand_inline (h : AtItem c afterBlank)
    (hhead : afterBlank ∨ c.unparsed.head? ≠ some 42) :
    parseCommand m c = some (processInlineBuffer m { c with reqtype := some .inline }) := by
  have htype : c.reqtype.getD
    (if c.unparsed.head? = some 42 then .multibulk else .inline) = .inline := by
    rw [h.reqtype]
    cases afterBlank with
    | true => rfl
    | false =>
      rcases hhead with hblank | hhead
      · cases hblank
      · rw [if_neg hhead]
        rfl
  unfold parseCommand
  rw [htype]

lemma head_line_ne_star (tail : Bytes) : (l.text ++ lineEnd l.withCr ++ tail).head? ≠ some 42 := by
  cases htext : l.text with
  | nil => cases hcr : l.withCr <;> simp [lineEnd]
  | cons b text =>
    have hstar := l.notStar
    rw [htext] at hstar
    simpa using hstar

lemma words_spec : sdssplitargs l.text = some l.words := by
  obtain ⟨words, hwords⟩ := isSome_iff_exists.mp l.balanced
  rw [InlineLine.words, hwords]
  rfl

/-- A line without NUL is blank exactly when it is not empty and has no word. -/
lemma blank_iff {l : InlineLine} (hzero : (0 : UInt8) ∉ l.text) :
    l.blank ↔ l.text ≠ [] ∧ l.words = [] := by
  have hiff := sdssplitargs_eq_nil_iff hzero
  rw [words_spec, some.injEq] at hiff
  simp [InlineLine.blank, hiff]

lemma inputLoop_line (hprimary : m.primary = false) (h : AtItem c afterBlank) (l : InlineLine)
    (hzero : (0 : UInt8) ∉ l.text) (hu : c.unparsed = l.text ++ lineEnd l.withCr ++ tail) :
    ∃ c', inputLoop m (fuel + 1) c = inputLoop m fuel c' ∧ AtItem c' l.blank ∧ c'.unparsed = tail ∧
    c'.delivered = c.delivered ++
      (if l.words = [] then [] else [⟨some .inline, l.words, tail.length⟩]) := by
  have hne : c.unparsed ≠ [] := hu ▸ item_ne_nil (.line l : Item m) tail
  have hinline := parseCommand_inline (m := m) h (.inr (hu ▸ head_line_ne_star l tail))
  obtain ⟨c1, hparsed, hargv, hunparsed, hbounds, htype, hmulti, hbulk, hlog⟩ :=
    processInlineBuffer_line (c := { c with reqtype := some .inline }) l.withCr hprimary
      l.noLf hzero l.noCr (words_spec l) hu h.inBounds
  rw [hparsed] at hinline
  have hopen : c1.closeAfterReply = false := hlog.closeAfterReply.trans h.isOpen
  have hdel : c1.delivered = c.delivered := hlog.delivered
  by_cases hempty : l.text = []
  · -- an empty line resets the client
    have hblank : l.blank = false := by simp [InlineLine.blank, hempty]
    have hwords : l.words = [] := by
      have := words_spec l
      rw [hempty] at this
      exact (some.inj this).symm
    have hresult : handleParseResults c1 (lineFlags (l.text.length == 0)) =
      (resetClient c1, .ok) := by
      rw [hempty]
      rfl
    refine ⟨resetClient c1, inputLoop_skip fuel hne h.isOpen hinline hresult rfl, ?_, hunparsed, ?_⟩
    · rw [hblank]
      exact ⟨rfl, rfl, rfl, rfl, hbounds, hopen⟩
    · rw [if_pos hwords, append_nil]
      exact hdel
  · have hresult : handleParseResults c1 (lineFlags (l.text.length == 0)) = (c1, .ok) := by
      have hlen : (l.text.length == 0) = false := by simpa using hempty
      simp [handleParseResults, lineFlags, hlen]
    by_cases hwords : l.words = []
    · -- a line of blanks does not
      have hblank : l.blank := (blank_iff hzero).mpr ⟨hempty, hwords⟩
      refine ⟨c1, inputLoop_skip fuel hne h.isOpen hinline hresult (hargv.trans hwords),
        ?_, hunparsed, ?_⟩
      · rw [hblank]
        exact ⟨htype, hargv.trans hwords, hmulti.trans h.multibulklen,
          hbulk.trans h.bulklen, hbounds, hopen⟩
      · rw [if_pos hwords, append_nil]
        exact hdel
    have hblank : l.blank = false := by
      cases hb : l.blank with
      | false => rfl
      | true => exact absurd ((blank_iff hzero).mp hb).2 hwords
    obtain ⟨hidle, hnone, hleft, hclose, _, hrecord⟩ := delivered_spec hbounds
    refine ⟨_, inputLoop_deliver fuel hne h.isOpen hinline hresult (hargv ▸ hwords), ?_,
      hleft.trans hunparsed, ?_⟩
    · rw [hblank]
      exact .of_idle hidle hnone (hclose.trans hopen)
    · rw [hrecord, if_neg hwords, hdel, htype, hargv, hunparsed]

lemma inputLoop_nul (h : AtItem c afterBlank) (l : InlineLine) (hzero : (0 : UInt8) ∈ l.text)
    (hu : c.unparsed = l.text ++ lineEnd l.withCr ++ tail) :
    ∃ c', inputLoop m (fuel + 1) c = some c' ∧ c'.delivered = c.delivered := by
  have hne : c.unparsed ≠ [] := hu ▸ item_ne_nil (.line l : Item m) tail
  have hinline := parseCommand_inline (m := m) h (.inr (hu ▸ head_line_ne_star l tail))
  have hmiss : strchr 10 c.unparsed = none := by
    rw [hu, append_assoc]
    exact strchr_zero _ l.noLf hzero
  have hparsed : ∃ flags, processInlineBuffer m { c with reqtype := some .inline } =
    ({ c with reqtype := some .inline }, flags) ∧
    (handleParseResults { c with reqtype := some .inline } flags).2 ≠ .ok := by
    unfold processInlineBuffer
    rw [show ({ c with reqtype := some .inline } : Client).unparsed = c.unparsed from rfl, hmiss]
    dsimp only
    split
    · exact ⟨_, rfl, by simp [handleParseResults]⟩
    · exact ⟨_, rfl, by simp [handleParseResults]⟩
  obtain ⟨flags, hparsed, hresult⟩ := hparsed
  rw [hparsed] at hinline
  refine ⟨_, inputLoop_stop fuel hne h.isOpen hinline hresult, ?_⟩
  exact delivered_handleParseResults _ _

lemma inputLoop_request {args : List Bytes} (fuel : Nat)
    (hm : Ordinary m) (h : AtItem c false) (hs : Sendable m args)
    (hu : c.unparsed = encodeCommand args ++ tail) :
    ∃ c', inputLoop m (fuel + 1) c = inputLoop m fuel c' ∧ AtItem c' false ∧ c'.unparsed = tail ∧
    c'.delivered = c.delivered ++ [⟨some .multibulk, args, tail.length⟩] := by
  have hne : c.unparsed ≠ [] := hu ▸ item_ne_nil (.request args hs) tail
  have hidle : Idle c := { h with reqtype := .inl h.reqtype }
  have hu' : c.unparsed ++ [] = encodeCommand args ++ tail := by
    rw [append_nil]
    exact hu
  rcases parseCommand_idle hm hidle hs hne hu' with ho | ⟨_, _, _, _, _, hrest⟩
  · generalize hparse : parseCommand m c = r at ho
    cases ho with
    | waits _ _ _ _ _ _ hrest => exact absurd rfl hrest
    | complete c1 hread htail =>
      rw [append_nil] at htail
      have hargv : c1.argv ≠ [] := by
        rw [hread.argv]
        exact hs.nonempty
      obtain ⟨hidle', hnone, hleft, hclose, _, hrecord⟩ := delivered_spec hread.inBounds
      refine ⟨_, inputLoop_deliver fuel hne h.isOpen hparse rfl hargv, ?_, hleft.trans htail, ?_⟩
      · exact .of_idle hidle' hnone (hclose.trans (hread.log.closeAfterReply.trans h.isOpen))
      · rw [hrecord, hread.log.delivered, hread.reqtype, hread.argv, htail]
  · exact absurd rfl hrest

lemma plainByte_of_mem_decimalInt {c : UInt8}
    (h : c ∈ decimalInt count) : plainByte c ∧ c ≠ 13 ∧ c ≠ 10 := by
  have hdigit : ∀ c, isDigit c → plainByte c ∧ c ≠ 13 ∧ c ≠ 10 := forall_byte (by decide +kernel)
  exact of_mem_decimalInt (by decide) hdigit h

lemma inputLoop_empty (hauth : m.authRequired = false) (h : AtItem c false) (hle : count ≤ 0)
    (hlow : -(2 ^ 63 : Int) ≤ count) (hu : c.unparsed = 42 :: (decimalInt count ++ crlf) ++ tail) :
    ∃ c', inputLoop m (fuel + 1) c = inputLoop m fuel c' ∧ AtItem c' false ∧
    c'.unparsed = tail ∧ c'.delivered = c.delivered := by
  have hne : c.unparsed ≠ [] := by
    rw [hu]
    simp
  have hhead : c.unparsed.head? = some 42 := by
    rw [hu]
    rfl
  have hparse : parseCommand m c =
    processMultibulkBuffer m { c with reqtype := some .multibulk } := by
    unfold parseCommand
    rw [h.reqtype]
    simp only [hhead]
    rfl
  have hline : c.unparsed ++ [] = countLine 42 count ++ tail := by
    rw [append_nil, hu]
    simp [countLine, crlf]
  rcases header_arrives (by decide) hlow (by omega) hline with
    ⟨newline, hfound, hlen, -, hread, htail⟩ | ⟨hrest, -⟩
  · let c1 : Client := { c with reqtype := some .multibulk, qbPos := c.qbPos + newline + 2 }
    have hmulti : processMultibulkBuffer m { c with reqtype := some .multibulk } =
      some (c1, { parsingNegativeMbulkLen := true }) := by
      unfold processMultibulkBuffer readMultibulkLen
      rw [if_pos h.multibulklen, if_neg (by simp [h.argv])]
      simp only [show ({ c with reqtype := some .multibulk } : Client).unparsed = c.unparsed
        from rfl, hfound, hread]
      rw [if_neg (by omega), if_neg (by simp [hhead]), if_neg (by omega), if_neg (by simp [hauth]),
        if_pos hle]
    have hleft : c1.unparsed = tail := by
      rw [append_nil] at htail
      rw [← htail, ← unparsed_advance]
      rfl
    exact ⟨resetClient c1, inputLoop_skip fuel hne h.isOpen (hparse.trans hmulti) rfl rfl,
      ⟨rfl, rfl, rfl, rfl, inBounds_advance h.inBounds hlen, h.isOpen⟩, hleft, rfl⟩
  · exact absurd rfl hrest

/-- Behind a line of blanks the count of a request is delivered as a command. -/
lemma inputLoop_misread (hprimary : m.primary = false) (h : AtItem c true)
    (hu : c.unparsed = 42 :: (decimalInt count ++ crlf) ++ tail) :
    ∃ c', inputLoop m (fuel + 1) c = inputLoop m fuel c' ∧ c'.delivered = c.delivered ++
      [⟨some .inline, [42 :: decimalInt count], tail.length⟩] := by
  have hne : c.unparsed ≠ [] := by
    rw [hu]
    simp
  have hplain : ∀ b ∈ (42 :: decimalInt count : Bytes), plainByte b ∧ b ≠ 13 ∧ b ≠ 10 := by
    intro b hb
    rcases mem_cons.mp hb with rfl | hb
    · decide
    · exact plainByte_of_mem_decimalInt hb
  have hinline := parseCommand_inline (m := m) h (.inl rfl)
  have hline : ({ c with reqtype := some .inline } : Client).unparsed =
    (42 :: decimalInt count) ++ lineEnd true ++ tail := by
    show c.unparsed = _
    rw [hu]
    simp [crlf, lineEnd]
  obtain ⟨c1, hparsed, hargv, hunparsed, hbounds, htype, _, _, hlog⟩ :=
    processInlineBuffer_line true hprimary (fun h10 => (hplain 10 h10).2.2 rfl)
      (fun h0 => absurd (hplain 0 h0).1 (by decide)) (by simp)
      (sdssplitargs_word (by simp) (fun b hb => (hplain b hb).1)) hline h.inBounds
  rw [hparsed] at hinline
  have hrecord := (delivered_spec hbounds).2.2.2.2.2
  refine ⟨_, inputLoop_deliver fuel hne h.isOpen hinline rfl (by rw [hargv]; simp), ?_⟩
  rw [hrecord, htype, hargv, hunparsed, hlog.delivered]

lemma not_delivered {fuel : Nat} {log ds : List Delivery} {d : Delivery}
    (hlog : c.delivered = log ++ [d]) (hd : ds.head? ≠ some d) :
    ¬ ∃ c', inputLoop m fuel c = some c' ∧ c'.delivered = log ++ ds := by
  rintro ⟨c', hrun, hdel⟩
  have hprefix := delivered_inputLoop fuel c c' hrun
  rw [hlog, hdel] at hprefix
  obtain ⟨more, hmore⟩ := (prefix_append_right_inj log).mp hprefix
  rw [← hmore] at hd
  exact hd rfl

lemma inputLoop_items (hm : Ordinary m) (items : List (Item m)) :
    ∀ (fuel : Nat) (c : Client) (afterBlank : Bool), AtItem c afterBlank →
    c.unparsed = stream items → c.unparsed.length ≤ fuel →
    ((∃ c', inputLoop m fuel c = some c' ∧
        c'.delivered = c.delivered ++ expected items) ↔ Served afterBlank items) := by
  induction items with
  | nil =>
    intro fuel c afterBlank h hu _
    have hrun : inputLoop m fuel c = some c := by
      cases fuel with
      | zero => rfl
      | succ fuel => rw [inputLoop, if_pos (by rw [hu]; rfl)]
    exact iff_of_true ⟨c, hrun, by simp [expected]⟩ trivial
  | cons item items ih =>
    intro fuel c afterBlank h hu hfuel
    rw [stream_cons] at hu
    have hpos := length_pos_iff.mpr (bytes_ne_nil item)
    have hlen := congrArg length hu
    rw [length_append] at hlen
    cases fuel with
    | zero => omega
    | succ fuel =>
      cases item with
      | line l =>
        by_cases hzero : (0 : UInt8) ∈ l.text
        · obtain ⟨c', hrun, hdel⟩ := inputLoop_nul (m := m) fuel h l hzero hu
          have hserved : Served afterBlank (Item.line l :: items) ↔
            expected (Item.line l :: items) = [] := by
            rw [Served, if_pos hzero, expected_eq_nil_iff]
            simp
          rw [hserved, hrun]
          constructor
          · rintro ⟨c'', hsome, hdel'⟩
            rw [← some.inj hsome, hdel] at hdel'
            exact (self_eq_append_right.mp hdel')
          · intro hnil
            exact ⟨c', rfl, by rw [hdel, hnil, append_nil]⟩
        obtain ⟨c', hrun, hat, hleft, hdel⟩ := inputLoop_line fuel hm.primary h l hzero hu
        rw [Served, if_neg hzero, hrun, ← ih fuel c' l.blank hat hleft (by rw [hleft]; omega), hdel]
        by_cases hwords : l.words = []
        · rw [expected_cons_none items (by simp [Item.command, hwords]), if_pos hwords, append_nil]
        · rw [expected_cons_some items (by simp only [Item.command, hwords]; rfl),
            if_neg hwords, append_assoc]
          rfl
      | request args hs =>
        show _ ↔ afterBlank = false ∧ Served false items
        cases afterBlank with
        | false =>
          obtain ⟨c', hrun, hat, hleft, hdel⟩ := inputLoop_request fuel hm h hs hu
          rw [hrun, expected_cons_some items rfl]
          have hrec := ih fuel c' false hat hleft (by rw [hleft]; omega)
          rw [hdel] at hrec
          simpa using hrec
        | true =>
          have hcount : c.unparsed = 42 :: (decimalInt args.length ++ crlf) ++
            (encodeArgs args ++ stream items) := by
            rw [hu]
            simp [Item.bytes, encodeCommand, header, decimalInt]
          obtain ⟨c', hrun, hdel⟩ := inputLoop_misread fuel hm.primary h hcount
          rw [hrun, expected_cons_some items rfl]
          refine iff_of_false (not_delivered hdel ?_) (by simp)
          simp
      | empty count hle hlow =>
        show _ ↔ afterBlank = false ∧ Served false items
        rw [expected_cons_none items rfl]
        cases afterBlank with
        | false =>
          obtain ⟨c', hrun, hat, hleft, hdel⟩ := inputLoop_empty fuel hm.authRequired h hle hlow hu
          have hrec := ih fuel c' false hat hleft (by rw [hleft]; omega)
          rw [hrun, ← hdel]
          simpa using hrec
        | true =>
          obtain ⟨c', hrun, hdel⟩ := inputLoop_misread fuel hm.primary h hu
          rw [hrun]
          refine iff_of_false (not_delivered hdel ?_) (by simp)
          intro hhead
          have hlt := left_lt_of_mem_expected (mem_of_head? hhead)
          exact Nat.lt_irrefl _ hlt

/-- `processInputBuffer` delivers exactly one command for each line with a word and
each request with arguments, each read as what it is, if and only if no multibulk
request directly follows a line of blanks and no command is due at or behind a
line with a NUL. -/
theorem items_delivered_iff (m : Mode) (hm : Ordinary m) (items : List (Item m)) :
    (∃ c, processInputBuffer m (readToQueryBuf {} (stream items)) = some c ∧
        c.delivered = expected items) ↔ Served false items := by
  have hat : AtItem (readToQueryBuf {} (stream items)) false :=
    ⟨rfl, rfl, rfl, rfl, Nat.zero_le _, rfl⟩
  exact inputLoop_items hm items _ _ false hat rfl (Nat.le_refl _)

/-- A line of two blanks, then `GET a`. -/
private def blankThenGet : List (Item {}) :=
  [.line ⟨ofString "  ", true, by decide, by decide, by decide, by decide⟩,
    .request [ofString "GET", ofString "a"] ⟨by decide, by decide, by decide⟩]

/-- The request is read as five lines. -/
theorem blank_line_hides_request :
    ¬ ∃ c, processInputBuffer {} (readToQueryBuf {} (stream blankThenGet)) = some c ∧
      c.delivered = expected blankThenGet := by
  have hval : (processInputBuffer {} (readToQueryBuf {} (stream blankThenGet))).map
      Client.delivered ≠ some (expected blankThenGet) := by decide +kernel
  rintro ⟨c, hrun, hdel⟩
  exact hval (by rw [hrun, map_some, hdel])

/-- A word, a request, an empty line and a request without arguments. -/
private def mixedStream : List (Item {}) :=
  [.line ⟨ofString "PING", false, by decide, by decide, by decide, by decide⟩,
    .request [ofString "GET", ofString "a"] ⟨by decide, by decide, by decide⟩,
    .line ⟨[], true, by decide, by decide, by decide, by decide⟩,
    .empty (-1) (by decide) (by decide)]

private lemma served_mixedStream : Served false mixedStream := by
  refine ⟨by decide, ?_⟩
  exact ⟨by decide, trivial⟩

theorem items_delivered_iff_sample :
    ∃ c, processInputBuffer {} (readToQueryBuf {} (stream mixedStream)) = some c ∧
      c.delivered = expected mixedStream :=
  (items_delivered_iff {} ⟨rfl, rfl⟩ mixedStream).mpr served_mixedStream

end Dice.Ports.RequestTypes
