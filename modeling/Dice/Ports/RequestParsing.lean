import Dice.Verified.Run
import Dice.Ports.QueryBuffer

/-!
# Requests survive fragmentation

A request is read in pieces: its count, then the length and the bytes of each
argument.  Each piece is consumed as soon as all of it is in the buffer and not
before, so where the reads end does not matter.  The state of the parser is
described by the phase it is in, and the text it still expects by that phase;
what is in the buffer and what has not arrived yet make up that text.
-/

namespace Dice.Ports.RequestParsing

open List Verified CString Run NumberParsing Resp QueryBuffer Nat

/-- A request the protocol admits. -/
structure Sendable (m : Mode) (args : List Bytes) : Prop where
  nonempty : args ≠ []
  count : args.length ≤ intMax
  sizes : ∀ a ∈ args, a.length ≤ m.protoMaxBulkLen

/-- An authenticated client that is not the primary. -/
structure Ordinary (m : Mode) : Prop where
  primary : m.primary = false
  authRequired : m.authRequired = false

/-- The line of a count. -/
def countLine (mark : UInt8) (n : Int) : Bytes := (mark :: decimalInt n) ++ [13, 10]

lemma header_eq (mark : UInt8) (n : Nat) : header mark n = countLine mark n := by
  simp [header, countLine, decimalInt, crlf]

/-- The position is inside the buffer. -/
def InBounds (c : Client) : Prop := c.qbPos ≤ c.querybuf.bytes.length

lemma unparsed_advance (c : Client) (k : Nat) :
    ({ c with qbPos := c.qbPos + k } : Client).unparsed = c.unparsed.drop k := by
  simp [Client.unparsed]

variable {c : Client} {m : Mode} {a rest tail : Bytes} {args : List Bytes}
  {cmds : List (List Bytes)}

lemma inBounds_advance {k : Nat} (h : InBounds c)
    (hk : k ≤ c.unparsed.length) : InBounds { c with qbPos := c.qbPos + k } := by
  unfold InBounds at h ⊢
  simp only [Client.unparsed, length_drop] at hk
  show c.qbPos + k ≤ c.querybuf.bytes.length
  omega

lemma unparsed_alignBigArg (m : Mode) (c : Client) (ll : Nat) :
    (alignBigArg m c ll).unparsed = c.unparsed := by
  unfold alignBigArg
  split
  · simp [Client.unparsed, QueryBuf.bytes]
  · rfl

lemma inBounds_alignBigArg (m : Mode) (ll : Nat) (h : InBounds c) :
    InBounds (alignBigArg m c ll) := by
  unfold alignBigArg
  split
  · exact zero_le _
  · exact h

lemma alignBigArg_frame (m : Mode) (c : Client) (ll : Nat) :
    ∃ querybuf qbPos, alignBigArg m c ll = { c with querybuf := querybuf, qbPos := qbPos } ∧
    (querybuf.isShared → qbPos = c.qbPos) := by
  unfold alignBigArg
  split
  · exact ⟨_, _, rfl, fun h => by cases h⟩
  · exact ⟨c.querybuf, c.qbPos, rfl, fun _ => rfl⟩

/-- The line of a number: all of it is there and the number can be read, or the
parser has to wait. -/
lemma header_arrives {mark : UInt8} (hmark : mark ≠ 13 ∧ mark ≠ 0) {n : Int}
    (hlow : -(2 ^ 63 : Int) ≤ n) (hhigh : n ≤ (llongMax : Int)) {text : Bytes}
    (hu : c.unparsed ++ rest = countLine mark n ++ text) :
    (∃ newline, strchr 13 c.unparsed = some newline ∧ newline + 2 ≤ c.unparsed.length ∧
      c.unparsed.head? = some mark ∧
      string2ll ((c.unparsed.take newline).drop 1) = some n ∧
      c.unparsed.drop (newline + 2) ++ rest = text) ∨
    rest ≠ [] ∧ (strchr 13 c.unparsed = none ∧ c.unparsed.length ≤ protoInlineMaxSize ∨
      ∃ k, strchr 13 c.unparsed = some k ∧ c.unparsed.length < k + 2) := by
  have hclean : ∀ b ∈ mark :: decimalInt n, b ≠ 13 ∧ b ≠ 0 := by
    have hdigit : ∀ b, isDigit b → b ≠ 13 ∧ b ≠ 0 := forall_byte (by decide +kernel)
    intro b hb
    rcases mem_cons.mp hb with rfl | hb
    · exact hmark
    · exact of_mem_decimalInt (by decide) hdigit hb
  rcases strchr_line hclean hu with ⟨u', hparsed, htail, hfound⟩ | ⟨hrest, hshort, hfound⟩
  · refine .inl ⟨_, hfound, ?_, ?_, ?_, ?_⟩
    · rw [hparsed, length_append, length_append]
      exact le_add_right _ _
    · rw [hparsed]
      rfl
    · rw [hparsed, append_assoc, take_left]
      exact string2ll_decimalInt hlow hhigh
    · rw [hparsed, drop_left' (by simp)]
      exact htail
  · refine .inr ⟨hrest, hfound.imp_left fun hnone => ⟨hnone, ?_⟩⟩
    have hlt := length_decimalInt_lt hlow hhigh
    simp only [length_cons, longStrSize, protoInlineMaxSize] at hlt hshort ⊢
    omega

/-- Inside a request: in front of the length of the next argument, or of its
bytes. -/
inductive Phase
  | args (todo : List Bytes)
  | data (arg : Bytes) (todo : List Bytes)

/-- The arguments still to be read. -/
def Phase.todo : Phase → List Bytes
  | .args todo => todo
  | .data arg todo => arg :: todo

/-- The text still expected for them. -/
def Phase.text : Phase → Bytes
  | .args todo => encodeArgs todo
  | .data arg todo => arg ++ crlf ++ encodeArgs todo

def Phase.bulklen : Phase → Option Nat
  | .args _ => none
  | .data arg _ => some arg.length

/-- The client is in that phase of reading a request. -/
structure Reading (m : Mode) (c : Client) (phase : Phase) (args : List Bytes) : Prop where
  reqtype : c.reqtype = some .multibulk
  argv : c.argv ++ phase.todo = args
  multibulklen : c.multibulklen = phase.todo.length
  bulklen : c.bulklen = phase.bulklen
  argvLen_pos : 0 < c.argvLen
  argv_le : c.argv.length ≤ c.argvLen
  inBounds : InBounds c
  /-- a shared buffer is never handed out as an argument -/
  notShared : ∀ n, c.bulklen = some n → protoMbulkBigArg ≤ n →
    c.querybuf.isShared = true → c.qbPos ≠ 0
  sendable : Sendable m args

/-- What parsing does not touch. -/
structure SameLog (c c' : Client) : Prop where
  closeAfterReply : c'.closeAfterReply = c.closeAfterReply
  errorReplies : c'.errorReplies = c.errorReplies
  delivered : c'.delivered = c.delivered

lemma SameLog.refl (c : Client) : SameLog c c := ⟨rfl, rfl, rfl⟩

lemma SameLog.trans {a b : Client} (h : SameLog a b) (h' : SameLog b c) : SameLog a c :=
  ⟨h'.1.trans h.1, h'.2.trans h.2, h'.3.trans h.3⟩

/-- The length of the next argument is read once its line has arrived. -/
lemma readBulkLen_spec (hm : Ordinary m) {todo : List Bytes}
    (h : Reading m c (.args (a :: todo)) args)
    (hu : c.unparsed ++ rest = encodeArgs (a :: todo) ++ tail) :
    (∃ c', readBulkLen m c = .go c' ∧ Reading m c' (.data a todo) args ∧
      SameLog c c' ∧ c'.unparsed ++ rest = (Phase.data a todo).text ++ tail) ∨
    (readBulkLen m c = .stop c {} ∧ rest ≠ []) := by
  have hsize : a.length ≤ m.protoMaxBulkLen := by
    refine h.sendable.sizes a ?_
    rw [← h.argv]
    simp [Phase.todo]
  have hline : c.unparsed ++ rest =
      countLine 36 a.length ++ ((Phase.data a todo).text ++ tail) := by
    rw [hu, ← header_eq]
    simp [bulk, Phase.text]
  unfold readBulkLen
  split
  next n hn => cases h.bulklen.symm.trans hn
  have hmax := le_trans hsize m.maxBulkLen_le
  rcases header_arrives (by decide) (by omega) (by omega) hline with
    ⟨newline, hfound, hlen, hhead, hparse, htail⟩ | ⟨hrest, hfound⟩
  · -- the whole line is there
    left
    obtain ⟨querybuf, qbPos, hframe, hshared⟩ := alignBigArg_frame m
      { c with qbPos := c.qbPos + newline + 2 } a.length
    have hbounds := inBounds_alignBigArg m a.length (inBounds_advance h.inBounds hlen)
    rw [← add_assoc] at hbounds
    simp only [hfound, hparse]
    rw [if_neg (by omega), if_neg (by simp [hhead]), if_neg (by simp; omega),
      if_neg (by simp [hm.authRequired]), Int.toNat_natCast]
    refine ⟨_, rfl, ?_, ?_, ?_⟩
    · rw [hframe] at hbounds ⊢
      refine { h with bulklen := rfl, inBounds := hbounds, notShared := ?_ }
      intro n _ _ hs
      rw [hshared hs]
      show c.qbPos + newline + 2 ≠ 0
      omega
    · rw [hframe]
      exact ⟨rfl, rfl, rfl⟩
    · show (alignBigArg m _ _).unparsed ++ rest = _
      rw [unparsed_alignBigArg, add_assoc, unparsed_advance]
      exact htail
  · refine .inr ⟨?_, hrest⟩
    rcases hfound with ⟨hfound, hshort⟩ | ⟨k, hfound, hk⟩ <;> simp only [hfound]
    · rw [if_neg (by omega)]
    · rw [if_pos (by omega)]

lemma growArgv_spec (hpos : 0 < c.argvLen)
    (hle : c.argv.length ≤ c.argvLen) (hleft : 0 < c.multibulklen)
    (hmax : c.argv.length + c.multibulklen ≤ intMax) :
    ∃ argvLen, growArgv c = { c with argvLen := argvLen } ∧ c.argv.length < argvLen := by
  unfold growArgv
  split
  · refine ⟨_, rfl, ?_⟩
    split <;> omega
  · exact ⟨c.argvLen, rfl, by omega⟩

variable {todo : List Bytes} {text : Bytes}

lemma Reading.next {c' : Client} (h : Reading m c (.data a todo) args)
    (hreqtype : c'.reqtype = c.reqtype) (hargv : c'.argv = c.argv ++ [a])
    (hcount : c'.multibulklen = c.multibulklen - 1) (hbulklen : c'.bulklen = none)
    (hroom : c.argv.length < c'.argvLen) (hbounds : InBounds c') :
    Reading m c' (.args todo) args where
  reqtype := hreqtype.trans h.reqtype
  argv := by
    rw [hargv, ← h.argv]
    simp [Phase.todo]
  multibulklen := by
    rw [hcount, h.multibulklen]
    rfl
  bulklen := hbulklen
  argvLen_pos := zero_lt_of_lt hroom
  argv_le := by
    rw [hargv, length_append]
    exact hroom
  inBounds := hbounds
  notShared n hn := by simp [hbulklen] at hn
  sendable := h.sendable

/-- The bytes of an argument are read once they and the line end behind them have
arrived. -/
lemma readBulkArg_spec (h : Reading m c (.data a todo) args)
    (hu : c.unparsed ++ rest = (Phase.data a todo).text ++ tail) :
    (∃ c', readBulkArg m c = .go c' ∧ Reading m c' (.args todo) args ∧
      SameLog c c' ∧ c'.unparsed ++ rest = (Phase.args todo).text ++ tail) ∨
    (readBulkArg m c = .stop c {} ∧ rest ≠ []) := by
  have hbulk : c.bulklen = some a.length := h.bulklen
  have htoken : c.unparsed ++ rest = (a ++ crlf) ++ (encodeArgs todo ++ tail) := by
    rw [hu]
    simp [Phase.text]
  unfold readBulkArg
  rw [hbulk]
  rcases append_cut htoken with ⟨u', hparsed, htail⟩ | ⟨hshort, _, _, hrest⟩
  · left
    have hcount : c.multibulklen = todo.length + 1 := h.multibulklen
    have htotal : c.argv.length + c.multibulklen ≤ intMax := by
      have hlen := congrArg length h.argv
      have hsent := h.sendable.count
      simp only [Phase.todo, length_append, length_cons] at hlen
      omega
    obtain ⟨argvLen, hgrow, hroom⟩ := growArgv_spec h.argvLen_pos h.argv_le (by omega) htotal
    have hlen : c.unparsed.length = a.length + 2 + u'.length := by
      rw [hparsed]
      simp only [crlf, length_append, length_cons, length_nil]
    have htake : c.unparsed.take a.length = a := by rw [hparsed, append_assoc, take_left]
    have hdrop : c.unparsed.drop (a.length + 2) = u' := by
      rw [hparsed]
      exact drop_left' (by simp [crlf])
    simp only
    rw [if_neg (by omega), hgrow]
    simp only
    rw [if_neg (by omega)]
    split
    · -- the buffer is the argument and its line end, and nothing else
      rename_i hzero
      simp only [Bool.and_eq_true, decide_eq_true_eq] at hzero
      obtain ⟨⟨⟨_, hpos⟩, hbig⟩, hexact⟩ := hzero
      have hown : ¬ c.querybuf.isShared := fun hs => h.notShared a.length hbulk hbig hs hpos
      have hbytes : c.querybuf.bytes = c.unparsed := by simp [Client.unparsed, hpos]
      have hnil : u' = [] := by
        rw [hbytes] at hexact
        exact length_eq_zero_iff.mp (by omega)
      rw [if_neg hown]
      refine ⟨_, rfl, h.next rfl ?_ rfl rfl hroom ?_, ⟨rfl, rfl, rfl⟩, ?_⟩
      · rw [hbytes, htake]
      · show c.qbPos ≤ 0
        omega
      · rw [hnil] at htail
        simpa [Client.unparsed, QueryBuf.bytes, Phase.text] using htail
    · refine ⟨_, rfl, h.next rfl ?_ rfl rfl hroom ?_, ⟨rfl, rfl, rfl⟩, ?_⟩
      · show c.argv ++ [c.unparsed.take a.length] = _
        rw [htake]
      · exact inBounds_advance (c := c) h.inBounds (by omega)
      show (c.querybuf.bytes.drop (c.qbPos + (a.length + 2))) ++ rest = _
      rw [← drop_drop]
      show c.unparsed.drop (a.length + 2) ++ rest = _
      rw [hdrop]
      exact htail
  · right
    refine ⟨?_, hrest⟩
    simp only [length_append, crlf] at hshort
    simp only
    rw [if_pos (by omega)]

/-- All arguments have been read. -/
structure Read (c c' : Client) (args : List Bytes) : Prop where
  log : SameLog c c'
  reqtype : c'.reqtype = some .multibulk
  argv : c'.argv = args
  inBounds : InBounds c'

/-- The rest of a request is read, with `tail` still to come behind it, or the
parser waits inside it for what has not arrived. -/
inductive Outcome (m : Mode) (c : Client) (args : List Bytes) (rest tail : Bytes) :
    Option (Client × ReadFlags) → Prop
  | complete (c' : Client) (hread : Read c c' args) (htail : c'.unparsed ++ rest = tail) :
      Outcome m c args rest tail (some (c', { parsingCompleted := true }))
  | waits (c' : Client) (phase : Phase) (hlog : SameLog c c')
      (h : Reading m c' phase args) (hne : phase.todo ≠ [])
      (hu : c'.unparsed ++ rest = phase.text ++ tail) (hrest : rest ≠ []) :
      Outcome m c args rest tail (some (c', {}))

lemma Outcome.earlier {c1 : Client} {r : Option (Client × ReadFlags)} (hlog : SameLog c c1)
    (h : Outcome m c1 args rest tail r) : Outcome m c args rest tail r := by
  cases h with
  | complete c' hread htail => exact .complete c' { hread with log := hlog.trans hread.log } htail
  | waits c' phase hlog' h hne hu hrest => exact .waits c' phase (hlog.trans hlog') h hne hu hrest

/-- One round of the loop, from an argument whose length is known. -/
lemma outcome_readBulkArg {n : Nat} (hnext : ∀ (todo : List Bytes) (c : Client), todo.length = n →
    Reading m c (.args todo) args →
    c.unparsed ++ rest = (Phase.args todo).text ++ tail →
    Outcome m c args rest tail (readBulks m n c)) {todo : List Bytes} (hn : todo.length = n)
    (h : Reading m c (.data a todo) args)
    (hu : c.unparsed ++ rest = (Phase.data a todo).text ++ tail) :
    Outcome m c args rest tail (match readBulkArg m c with
    | .crash => none
    | .stop c flags => some (c, flags)
    | .go c => readBulks m n c) := by
  rcases readBulkArg_spec h hu with ⟨c1, hgo, h1, hlog, hu1⟩ | ⟨hstop, hrest⟩
  · rw [hgo]
    exact (hnext todo c1 hn h1 hu1).earlier hlog
  · rw [hstop]
    exact .waits c (.data a todo) (SameLog.refl c) h (by simp [Phase.todo]) hu hrest

lemma outcome_readBulks (hm : Ordinary m) (n : Nat) :
    ∀ (phase : Phase) (c : Client), phase.todo.length = n → Reading m c phase args →
    c.unparsed ++ rest = phase.text ++ tail →
    Outcome m c args rest tail (readBulks m n c) := by
  induction n with
  | zero =>
    intro phase c hn h hu
    cases phase with
    | data a todo => simp [Phase.todo] at hn
    | args todo =>
      have hnil : todo = [] := length_eq_zero_iff.mp hn
      subst hnil
      refine .complete _ ⟨⟨rfl, rfl, rfl⟩, h.reqtype, ?_, h.inBounds⟩ ?_
      · simpa [Phase.todo] using h.argv
      · show c.unparsed ++ rest = tail
        simpa [Phase.text] using hu
  | succ n ih =>
    intro phase c hn h hu
    have hnext := fun todo c => ih (.args todo) c
    rw [readBulks]
    cases phase with
    | data a todo =>
      have hgo : readBulkLen m c = .go c := by
        unfold readBulkLen
        rw [show c.bulklen = some a.length from h.bulklen]
      rw [hgo]
      exact outcome_readBulkArg hnext (by simpa [Phase.todo] using hn) h hu
    | args todo =>
      cases todo with
      | nil => simp [Phase.todo] at hn
      | cons a todo =>
        rcases readBulkLen_spec hm h hu with ⟨c1, hgo, h1, hlog, hu1⟩ |
          ⟨hstop, hrest⟩
        · rw [hgo]
          exact (outcome_readBulkArg hnext (by simpa [Phase.todo] using hn) h1 hu1).earlier hlog
        · rw [hstop]
          exact .waits c (.args (a :: todo)) (SameLog.refl c) h (by simp [Phase.todo]) hu hrest

/-- Between requests; the type of the next one may have been seen already. -/
structure Idle (c : Client) : Prop where
  reqtype : c.reqtype = none ∨ c.reqtype = some .multibulk
  argv : c.argv = []
  multibulklen : c.multibulklen = 0
  bulklen : c.bulklen = none
  inBounds : InBounds c

/-- The count of a request is read once its line has arrived. -/
lemma readMultibulkLen_spec (hm : Ordinary m) (h : Idle c)
    (htype : c.reqtype = some .multibulk) (hs : Sendable m args)
    (hu : c.unparsed ++ rest = encodeCommand args ++ tail) :
    (∃ c', readMultibulkLen m c = .go c' ∧ Reading m c' (.args args) args ∧
      SameLog c c' ∧ c'.unparsed ++ rest = (Phase.args args).text ++ tail) ∨
    (readMultibulkLen m c = .stop c {} ∧ rest ≠ []) := by
  have hcount : 0 < args.length := length_pos_iff.mpr hs.nonempty
  have hmax := hs.count
  have hll : args.length ≤ llongMax := by
    unfold intMax at hmax
    unfold llongMax
    omega
  have hline : c.unparsed ++ rest =
      countLine 42 args.length ++ ((Phase.args args).text ++ tail) := by
    rw [hu, ← header_eq]
    simp [encodeCommand, Phase.text]
  unfold readMultibulkLen
  rw [if_neg (by simp [h.argv])]
  rcases header_arrives (by decide) (by omega) (by omega) hline with
    ⟨newline, hfound, hlen, hhead, hparse, htail⟩ | ⟨hrest, hfound⟩
  · left
    have hadvance := inBounds_advance h.inBounds hlen
    simp only [hfound, hparse]
    rw [if_neg (by omega), if_neg (by simp [hhead]), if_neg (by omega),
      if_neg (by simp [hm.authRequired]), if_neg (by omega)]
    refine ⟨_, rfl, ?_, ⟨rfl, rfl, rfl⟩, ?_⟩
    · refine ⟨htype, ?_, Int.toNat_natCast _, h.bulklen, ?_, ?_, hadvance, ?_, hs⟩
      · rw [h.argv]
        rfl
      · show 0 < min ((args.length : Int).toNat) 1024
        omega
      · rw [h.argv]
        exact zero_le _
      · intro n hn
        cases h.bulklen.symm.trans hn
    · show (c.querybuf.bytes.drop (c.qbPos + _ + 2)) ++ rest = _
      rw [add_assoc, ← drop_drop]
      exact htail
  · refine .inr ⟨?_, hrest⟩
    rcases hfound with ⟨hfound, hshort⟩ | ⟨k, hfound, hk⟩ <;> simp only [hfound]
    · rw [if_neg (by omega)]
    · rw [if_pos (by omega)]

lemma parseCommand_reading (hm : Ordinary m) {phase : Phase} (h : Reading m c phase args)
    (hne : phase.todo ≠ []) (hu : c.unparsed ++ rest = phase.text ++ tail) :
    Outcome m c args rest tail (parseCommand m c) := by
  have hparse : parseCommand m c = readBulks m phase.todo.length c := by
    have hpos := length_pos_iff.mpr hne
    have hsame : ({ c with reqtype := some .multibulk } : Client) = c := by rw [← h.reqtype]
    simp only [parseCommand, h.reqtype, Option.getD_some, processMultibulkBuffer]
    rw [hsame, h.multibulklen, if_neg (by omega)]
  rw [hparse]
  exact outcome_readBulks hm phase.todo.length phase c rfl h hu

/-- `parseCommand` in front of a request: its count may not have arrived either. -/
lemma parseCommand_idle (hm : Ordinary m) (h : Idle c) (hs : Sendable m args)
    (hne : c.unparsed ≠ []) (hu : c.unparsed ++ rest = encodeCommand args ++ tail) :
    Outcome m c args rest tail (parseCommand m c) ∨
    ∃ c', parseCommand m c = some (c', {}) ∧ SameLog c c' ∧ Idle c' ∧
      c'.unparsed ++ rest = encodeCommand args ++ tail ∧ rest ≠ [] := by
  have hhead : c.unparsed.head? = some 42 := by
    cases hunparsed : c.unparsed with
    | nil => exact absurd hunparsed hne
    | cons b u =>
      rw [hunparsed] at hu
      simp only [encodeCommand, header, cons_append, cons.injEq] at hu
      rw [hu.1]
      rfl
  have htype : c.reqtype.getD
    (if c.unparsed.head? = some 42 then .multibulk else .inline) = .multibulk := by
    rcases h.reqtype with ht | ht <;> rw [ht]
    · rw [if_pos hhead]
      rfl
    · rfl
  let c1 : Client := { c with reqtype := some .multibulk }
  have hidle : Idle c1 := { h with reqtype := .inr rfl }
  have hparse : parseCommand m c = processMultibulkBuffer m c1 := by
    unfold parseCommand
    rw [htype]
  rw [hparse]
  unfold processMultibulkBuffer
  rw [if_pos hidle.multibulklen]
  have hu1 : c1.unparsed ++ rest = encodeCommand args ++ tail := hu
  rcases readMultibulkLen_spec hm hidle rfl hs hu1 with
    ⟨c2, hgo, h2, hlog, hu2⟩ | ⟨hstop, hrest⟩
  · left
    rw [hgo]
    simp only
    rw [h2.multibulklen]
    exact (outcome_readBulks hm _ (.args args) c2 rfl h2 hu2).earlier ⟨hlog.1, hlog.2, hlog.3⟩
  · right
    rw [hstop]
    exact ⟨c1, rfl, ⟨rfl, rfl, rfl⟩, hidle, hu, hrest⟩

/-! ## The input loop -/

lemma unparsed_resetSharedQueryBuf (c : Client) :
    (resetSharedQueryBuf c).unparsed = c.unparsed := by
  unfold resetSharedQueryBuf
  split
  · rfl
  · have hnil : c.unparsed = [] := length_eq_zero_iff.mp (by omega)
    rw [hnil]
    rfl

lemma inBounds_resetSharedQueryBuf (h : InBounds c) : InBounds (resetSharedQueryBuf c) := by
  unfold resetSharedQueryBuf
  split
  · exact h
  · exact zero_le _

lemma resetSharedQueryBuf_frame (c : Client) : ∃ querybuf qbPos, resetSharedQueryBuf c =
      { c with querybuf := querybuf, qbPos := qbPos } ∧
    querybuf.isShared = false := by
  unfold resetSharedQueryBuf
  split
  · exact ⟨.own c.querybuf.bytes, c.qbPos, rfl, rfl⟩
  · exact ⟨.null, 0, rfl, rfl⟩

/-- The buffer a command is executed with. -/
def beforeCommand (c : Client) : Client :=
  if c.querybuf.isShared then resetSharedQueryBuf c else c

/-- After a command the client is between requests, with the command on record. -/
lemma delivered_spec (h : InBounds c) : Idle (processCommandAndResetClient (beforeCommand c)) ∧
    (processCommandAndResetClient (beforeCommand c)).reqtype = none ∧
    (processCommandAndResetClient (beforeCommand c)).unparsed = c.unparsed ∧
    (processCommandAndResetClient (beforeCommand c)).closeAfterReply = c.closeAfterReply ∧
    (processCommandAndResetClient (beforeCommand c)).errorReplies = c.errorReplies ∧
    (processCommandAndResetClient (beforeCommand c)).delivered =
      c.delivered ++ [⟨c.reqtype, c.argv, c.unparsed.length⟩] := by
  obtain ⟨⟨querybuf, qbPos, hframe⟩, hunparsed, hbounds⟩ :
    (∃ querybuf qbPos, beforeCommand c = { c with querybuf := querybuf, qbPos := qbPos }) ∧
      (beforeCommand c).unparsed = c.unparsed ∧ InBounds (beforeCommand c) := by
    unfold beforeCommand
    split
    · obtain ⟨querybuf, qbPos, hframe, _⟩ := resetSharedQueryBuf_frame c
      exact ⟨⟨querybuf, qbPos, hframe⟩, unparsed_resetSharedQueryBuf c,
        inBounds_resetSharedQueryBuf h⟩
    · exact ⟨⟨c.querybuf, c.qbPos, rfl⟩, rfl, h⟩
  refine ⟨⟨.inl rfl, rfl, rfl, rfl, hbounds⟩, rfl, hunparsed, ?_, ?_, ?_⟩
  · show (beforeCommand c).closeAfterReply = _
    rw [hframe]
  · show (beforeCommand c).errorReplies = _
    rw [hframe]
  · show (beforeCommand c).delivered ++ [⟨(beforeCommand c).reqtype,
      (beforeCommand c).argv, (beforeCommand c).unparsed.length⟩] = _
    rw [hunparsed, hframe]

/-- The text of several requests. -/
def encodeCommands (cmds : List (List Bytes)) : Bytes := cmds.flatMap encodeCommand

/-- The client waits for these requests, of the first of which it may have read a
part already, and `text` is what it expects to come. -/
inductive Waiting (m : Mode) (c : Client) : List (List Bytes) → Bytes → Prop
  | idle (cmds : List (List Bytes)) (h : Idle c) :
      Waiting m c cmds (encodeCommands cmds)
  | reading (phase : Phase) (args : List Bytes) (later : List (List Bytes))
      (h : Reading m c phase args) (hne : phase.todo ≠ []) :
      Waiting m c (args :: later) (phase.text ++ encodeCommands later)

lemma encodeCommand_ne_nil (args : List Bytes) : encodeCommand args ≠ [] := by
  simp [encodeCommand, header]

lemma phase_text_ne_nil {phase : Phase} (h : phase.todo ≠ []) : phase.text ≠ [] := by
  cases phase with
  | args todo =>
    cases todo with
    | nil => exact absurd rfl h
    | cons a todo => simp [Phase.text, bulk, header]
  | data a todo => simp [Phase.text, crlf]

/-- A client that expects nothing more waits for nothing. -/
lemma Waiting.eq_nil (h : Waiting m c cmds text) (htext : text = []) : cmds = [] := by
  cases h with
  | idle cmds _ =>
    cases cmds with
    | nil => rfl
    | cons args later =>
      simp only [encodeCommands, flatMap_cons, append_eq_nil_iff] at htext
      exact absurd htext.1 (encodeCommand_ne_nil args)
  | reading phase args later _ hne =>
    exact absurd (append_eq_nil_iff.mp htext).1 (phase_text_ne_nil hne)

/-- One call of `parseCommand` on a client that waits for requests. -/
lemma parseCommand_spec (hm : Ordinary m) {text : Bytes} (h : Waiting m c cmds text)
    (hs : ∀ args ∈ cmds, Sendable m args) (hne : c.unparsed ≠ []) (hu : c.unparsed ++ rest = text) :
    ∃ args later, cmds = args :: later ∧
    ((∃ c', parseCommand m c = some (c', { parsingCompleted := true }) ∧
        Read c c' args ∧ c'.unparsed ++ rest = encodeCommands later ∧
        c'.unparsed.length < c.unparsed.length) ∨
      (∃ c' text', parseCommand m c = some (c', {}) ∧ SameLog c c' ∧
        Waiting m c' cmds text' ∧ c'.unparsed ++ rest = text' ∧ rest ≠ [])) := by
  have hshorter : ∀ {c' : Client} {x tail : Bytes}, x ≠ [] →
    c.unparsed ++ rest = x ++ tail → c'.unparsed ++ rest = tail →
    c'.unparsed.length < c.unparsed.length := by
    intro c' x tail hx hall htail
    have hlen := congrArg length hall
    have hlen' := congrArg length htail
    have hpos := length_pos_iff.mpr hx
    simp only [length_append] at hlen hlen'
    omega
  have houtcome : ∀ {args : List Bytes} {later : List (List Bytes)} {x : Bytes}
    {r : Option (Client × ReadFlags)}, x ≠ [] →
    c.unparsed ++ rest = x ++ encodeCommands later →
    Outcome m c args rest (encodeCommands later) r →
    (∃ c', r = some (c', { parsingCompleted := true }) ∧
      Read c c' args ∧ c'.unparsed ++ rest = encodeCommands later ∧
      c'.unparsed.length < c.unparsed.length) ∨
      (∃ c' text', r = some (c', {}) ∧ SameLog c c' ∧
        Waiting m c' (args :: later) text' ∧ c'.unparsed ++ rest = text' ∧
        rest ≠ []) := by
    intro args later x r hx hall ho
    cases ho with
    | complete c' hread htail => exact .inl ⟨c', rfl, hread, htail, hshorter hx hall htail⟩
    | waits c' phase hlog h hne hu hrest =>
      exact .inr ⟨c', _, rfl, hlog, .reading phase args later h hne, hu, hrest⟩
  cases h with
  | idle cmds hidle =>
    cases cmds with
    | nil =>
      have hnil := (append_eq_nil_iff.mp hu).1
      exact absurd hnil hne
    | cons args later =>
      refine ⟨args, later, rfl, ?_⟩
      have hu1 : c.unparsed ++ rest = encodeCommand args ++ encodeCommands later := hu
      rcases parseCommand_idle hm hidle (hs args (by simp)) hne hu1 with
        ho | ⟨c', hparse, hlog, hidle', hu', hrest⟩
      · exact houtcome (encodeCommand_ne_nil args) hu ho
      · exact .inr ⟨c', _, hparse, hlog, .idle _ hidle', hu', hrest⟩
  | reading phase args later hreading hne' =>
    exact ⟨args, later, rfl, houtcome (phase_text_ne_nil hne') hu
      (parseCommand_reading hm hreading hne' hu)⟩

/-- The client after some of the requests it waited for have been delivered. -/
structure Progress (m : Mode) (c c' : Client) (cmds : List (List Bytes))
    (rest : Bytes) (done left : List (List Bytes)) (text : Bytes) : Prop where
  split : cmds = done ++ left
  waiting : Waiting m c' left text
  expects : c'.unparsed ++ rest = text
  closeAfterReply : c'.closeAfterReply = false
  errorReplies : c'.errorReplies = c.errorReplies
  delivered : c'.delivered.map Delivery.argv = c.delivered.map Delivery.argv ++ done
  complete : rest = [] → c'.unparsed = []

/-- The input loop delivers requests until something is missing. -/
lemma inputLoop_spec (hm : Ordinary m) (fuel : Nat) :
    ∀ (c : Client) (cmds : List (List Bytes)) (text : Bytes), Waiting m c cmds text →
    (∀ args ∈ cmds, Sendable m args) → c.closeAfterReply = false →
    c.unparsed ++ rest = text → c.unparsed.length ≤ fuel →
    ∃ c' done left text', inputLoop m fuel c = some c' ∧
      Progress m c c' cmds rest done left text' := by
  induction fuel with
  | zero =>
    intro c cmds text h _ hopen hu hfuel
    have hnil : c.unparsed = [] := length_eq_zero_iff.mp (by omega)
    exact ⟨c, [], cmds, text, rfl, rfl, h, hu, hopen, rfl, by simp, fun _ => hnil⟩
  | succ fuel ih =>
    intro c cmds text h hs hopen hu hfuel
    unfold inputLoop
    by_cases hzero : c.unparsed.length = 0
    · have hnil : c.unparsed = [] := length_eq_zero_iff.mp hzero
      rw [if_pos hzero]
      exact ⟨c, [], cmds, text, rfl, rfl, h, hu, hopen, rfl, by simp, fun _ => hnil⟩
    have hne : c.unparsed ≠ [] := fun hnil => hzero (by rw [hnil]; rfl)
    rw [if_neg hzero, hopen]
    obtain ⟨args, later, hcmds, hparse⟩ := parseCommand_spec hm h hs hne hu
    rcases hparse with ⟨c1, hparse, hread, htail, hshorter⟩ |
      ⟨c1, text1, hparse, hlog, hwait, hu1, hrest⟩
    · -- a request is complete: deliver it and go on
      have hsend := hs args (by rw [hcmds]; simp)
      have hargv : ¬ c1.argv = [] := by
        rw [hread.argv]
        exact hsend.nonempty
      rw [hparse]
      simp only [Option.bind_some, handleParseResults, Bool.false_eq_true, if_false, if_true, hargv]
      obtain ⟨hidle, _, hunparsed, hclose, herr, hdel⟩ := delivered_spec hread.inBounds
      have hrec := ih (processCommandAndResetClient (beforeCommand c1)) later
        (encodeCommands later) (.idle later hidle)
        (fun a ha => hs a (by rw [hcmds]; simp [ha]))
        (by rw [hclose, hread.log.closeAfterReply, hopen])
        (by rw [hunparsed]; exact htail) (by rw [hunparsed]; omega)
      obtain ⟨c', done, left, text', hrun, hprogress⟩ := hrec
      refine ⟨c', args :: done, left, text', hrun, ?_⟩
      refine { hprogress with split := ?_, errorReplies := ?_, delivered := ?_ }
      · rw [hcmds, hprogress.split]
        rfl
      · rw [hprogress.errorReplies, herr, hread.log.errorReplies]
      · rw [hprogress.delivered, hdel, hread.log.delivered, hread.argv]
        simp
    · rw [hparse]
      refine ⟨c1, [], cmds, text1, rfl, rfl, hwait, hu1, ?_, ?_, ?_, ?_⟩
      · rw [hlog.closeAfterReply, hopen]
      · exact hlog.errorReplies
      · rw [hlog.delivered]
        simp
      · exact fun hnil => absurd hnil hrest

lemma Waiting.rebuffer (h : Waiting m c cmds text) (querybuf : QueryBuf) (qbPos : Nat)
    (hbounds : qbPos ≤ querybuf.bytes.length)
    (hshared : querybuf.isShared → readsBigArg c → qbPos ≠ 0) :
    Waiting m { c with querybuf := querybuf, qbPos := qbPos } cmds text := by
  cases h with
  | idle cmds hidle => exact .idle cmds { hidle with inBounds := hbounds }
  | reading phase args later hr hne =>
    refine .reading phase args later ?_ hne
    refine { hr with inBounds := hbounds, notShared := ?_ }
    intro n hn hbig hs
    have hpos := length_pos_iff.mpr hne
    have hbulk : c.bulklen = some n := hn
    refine hshared hs ?_
    have hlen : c.multibulklen ≠ 0 := by
      rw [hr.multibulklen]
      omega
    simp [readsBigArg, hr.reqtype, hlen, hbulk, hbig]

lemma Waiting.inBounds (h : Waiting m c cmds text) : InBounds c := by
  cases h with
  | idle _ h => exact h.inBounds
  | reading _ _ _ h _ => exact h.inBounds

lemma trimClientQueryBuffer_spec (h : InBounds c) : ∃ querybuf, trimClientQueryBuffer c =
      some { c with querybuf := querybuf, qbPos := 0 } ∧
    querybuf.isShared = false ∧ querybuf.bytes = c.unparsed := by
  -- the buffer after the shared one has been given up
  have hreset : ∃ querybuf qbPos, (if c.querybuf.isShared
      then resetSharedQueryBuf c else c) = { c with querybuf := querybuf, qbPos := qbPos } ∧
    querybuf.isShared = false ∧ querybuf.bytes.drop qbPos = c.unparsed ∧
    qbPos ≤ querybuf.bytes.length := by
    split
    · obtain ⟨querybuf, qbPos, hframe, hown⟩ := resetSharedQueryBuf_frame c
      have hunparsed := unparsed_resetSharedQueryBuf c
      have hbounds := inBounds_resetSharedQueryBuf h
      rw [hframe] at hunparsed hbounds
      exact ⟨querybuf, qbPos, hframe, hown, hunparsed, hbounds⟩
    · rename_i hown
      exact ⟨c.querybuf, c.qbPos, rfl, by simpa using hown, rfl, h⟩
  obtain ⟨querybuf, qbPos, hframe, hown, hunparsed, hbounds⟩ := hreset
  unfold trimClientQueryBuffer
  rw [hframe]
  cases querybuf with
  | shared bytes => cases hown
  | null =>
    have hzero : qbPos = 0 := le_zero.mp hbounds
    subst hzero
    exact ⟨.null, rfl, rfl, hunparsed⟩
  | own bytes =>
    simp only
    rw [if_pos hbounds]
    by_cases hpos : qbPos > 0
    · rw [if_pos hpos]
      exact ⟨_, rfl, rfl, hunparsed⟩
    · have hzero : qbPos = 0 := by omega
      subst hzero
      exact ⟨.own bytes, by simp, rfl, hunparsed⟩

/-- Between reads: the buffer is trimmed. -/
structure Trimmed (c : Client) : Prop where
  qbPos : c.qbPos = 0
  notShared : c.querybuf.isShared = false

lemma readToQueryBuf_spec (h : Trimmed c) (bytes : Bytes) :
    ∃ querybuf, readToQueryBuf c bytes = { c with querybuf := querybuf } ∧
    querybuf.bytes = c.querybuf.bytes ++ bytes ∧
    (querybuf.isShared → readsBigArg c = false) := by
  unfold readToQueryBuf
  split
  · rename_i hbuf
    cases hbig : readsBigArg c with
    | true => exact ⟨.own bytes, by simp, by simp [hbuf, QueryBuf.bytes], fun hs => by cases hs⟩
    | false => exact ⟨.shared bytes, by simp, by simp [hbuf, QueryBuf.bytes], fun _ => rfl⟩
  · rename_i old hbuf
    have hnot := h.notShared
    rw [hbuf] at hnot
    cases hnot
  · rename_i old hbuf
    exact ⟨.own (old ++ bytes), rfl, by simp [hbuf, QueryBuf.bytes], fun hs => by cases hs⟩

/-- One read event, for a client that waits for requests. -/
lemma readQueryFromClient_spec (hm : Ordinary m) {bytes text : Bytes} (h : Waiting m c cmds text)
    (htrim : Trimmed c) (hs : ∀ args ∈ cmds, Sendable m args)
    (hopen : c.closeAfterReply = false) (hu : c.unparsed ++ (bytes ++ rest) = text) :
    ∃ c' done left text', readQueryFromClient m c bytes = some c' ∧ Trimmed c' ∧
    Progress m c c' cmds rest done left text' := by
  obtain ⟨querybuf, hread, hbytes, hshared⟩ := readToQueryBuf_spec htrim bytes
  have hunparsed : (readToQueryBuf c bytes).unparsed = c.unparsed ++ bytes := by
    rw [hread]
    simp [Client.unparsed, htrim.qbPos, hbytes]
  have hwait : Waiting m (readToQueryBuf c bytes) cmds text := by
    rw [hread]
    have hre := h.rebuffer querybuf c.qbPos (by rw [htrim.qbPos]; exact zero_le _) (by
      intro hs' hbig
      rw [hshared hs'] at hbig
      cases hbig)
    exact hre
  have hlog : (readToQueryBuf c bytes).closeAfterReply = false ∧
    (readToQueryBuf c bytes).errorReplies = c.errorReplies ∧
    (readToQueryBuf c bytes).delivered = c.delivered := by
    rw [hread]
    exact ⟨hopen, rfl, rfl⟩
  obtain ⟨c1, done, left, text', hrun, hprogress⟩ := inputLoop_spec hm
    (readToQueryBuf c bytes).unparsed.length (readToQueryBuf c bytes) cmds text hwait hs
    hlog.1 (by rw [hunparsed, append_assoc]; exact hu) (le_refl _)
  obtain ⟨querybuf', htrim', hown, hbytes'⟩ := trimClientQueryBuffer_spec hprogress.waiting.inBounds
  refine ⟨{ c1 with querybuf := querybuf', qbPos := 0 }, done, left, text', ?_, ⟨rfl, hown⟩, ?_⟩
  · unfold readQueryFromClient processInputBuffer
    rw [hrun]
    exact htrim'
  have hkeep : ({ c1 with querybuf := querybuf', qbPos := 0 } : Client).unparsed = c1.unparsed := by
    simp [Client.unparsed, hbytes']
  refine ⟨hprogress.split, ?_, ?_, hprogress.closeAfterReply, ?_, ?_, ?_⟩
  · exact hprogress.waiting.rebuffer querybuf' 0 (zero_le _)
      (fun hs' => by rw [hown] at hs'; cases hs')
  · rw [hkeep]
    exact hprogress.expects
  · exact hprogress.errorReplies.trans hlog.2.1
  · exact hprogress.delivered.trans (by rw [hlog.2.2])
  · rw [hkeep]
    exact hprogress.complete

/-- All reads of a stream, for a client that waits for the requests in it. -/
lemma reads_spec (hm : Ordinary m) (chunks : List Bytes) :
    ∀ (c : Client) (cmds : List (List Bytes)) (text : Bytes), Waiting m c cmds text →
    Trimmed c → (∀ args ∈ cmds, Sendable m args) → c.closeAfterReply = false →
    c.unparsed ++ chunks.flatten = text → (chunks = [] → c.unparsed = []) →
    ∃ c', run (readQueryFromClient m) c chunks = some c' ∧
      c'.closeAfterReply = false ∧ c'.errorReplies = c.errorReplies ∧
      c'.delivered.map Delivery.argv = c.delivered.map Delivery.argv ++ cmds ∧
      c'.unparsed = [] := by
  induction chunks with
  | nil =>
    intro c cmds text h htrim hs hopen hu hend
    have hnil := hend rfl
    have hcmds : cmds = [] := by
      refine h.eq_nil ?_
      rw [← hu, hnil]
      rfl
    exact ⟨c, rfl, hopen, rfl, by rw [hcmds]; simp, hnil⟩
  | cons bytes chunks ih =>
    intro c cmds text h htrim hs hopen hu _
    have hu1 : c.unparsed ++ (bytes ++ chunks.flatten) = text := by simpa using hu
    obtain ⟨c1, done, left, text1, hread, htrim1, hp⟩ :=
      readQueryFromClient_spec hm h htrim hs hopen hu1
    have hleft : ∀ args ∈ left, Sendable m args := by
      intro args hargs
      exact hs args (by rw [hp.split]; simp [hargs])
    obtain ⟨c', hrun, hclose, herr, hdel, hnil⟩ := ih c1 left text1 hp.waiting htrim1
      hleft hp.closeAfterReply hp.expects (fun hnil => hp.complete (by rw [hnil]; rfl))
    refine ⟨c', ?_, hclose, herr.trans hp.errorReplies, ?_, hnil⟩
    · rw [run_cons, hread]
      exact hrun
    · rw [hdel, hp.delivered, append_assoc, ← hp.split]

/-- Whatever way the bytes of some requests are cut into reads, the requests
delivered are exactly those, no protocol error is raised, and nothing is left in
the query buffer. -/
theorem requests_parsed_exactly (m : Mode) (hm : Ordinary m) (cmds : List (List Bytes))
    (hs : ∀ args ∈ cmds, Sendable m args) (chunks : List Bytes)
    (hcut : chunks.flatten = cmds.flatMap encodeCommand) :
    ∃ c, run (readQueryFromClient m) {} chunks = some c ∧
      c.delivered.map Delivery.argv = cmds ∧ c.closeAfterReply = false ∧
      c.errorReplies = [] ∧ c.unparsed = [] := by
  have hidle : Idle {} := ⟨.inl rfl, rfl, rfl, rfl, le_refl _⟩
  obtain ⟨c, hrun, hclose, herr, hdel, hnil⟩ := reads_spec hm chunks {} cmds
    (encodeCommands cmds) (.idle cmds hidle) ⟨rfl, rfl⟩ hs rfl
    (by simpa [Client.unparsed, QueryBuf.bytes, encodeCommands] using hcut)
    (fun _ => rfl)
  exact ⟨c, hrun, by simpa using hdel, hclose, herr, hnil⟩

/-- Two requests, cut inside the first count and inside an argument. -/
theorem requests_parsed_exactly_sample :
    ∃ c, run (readQueryFromClient {}) {} [ofString "*2\r", ofString "\n$3\r\nGE",
          ofString "T\r\n$1\r\na\r\n*1\r\n$4\r\nPING\r\n"] = some c ∧
      c.delivered.map Delivery.argv = [[ofString "GET", ofString "a"], [ofString "PING"]] ∧
      c.closeAfterReply = false ∧ c.errorReplies = [] ∧ c.unparsed = [] := by
  refine requests_parsed_exactly {} ⟨rfl, rfl⟩ _ ?_ _ (by decide)
  intro args hargs
  simp only [mem_cons, not_mem_nil, or_false] at hargs
  rcases hargs with rfl | rfl <;> exact ⟨by decide, by decide, by decide⟩

end Dice.Ports.RequestParsing
