import Dice.Ports.ReplyStream

/-!
# The framing of an observe push

A push is five elements: the words `observe`, `fingerprint`, the fingerprint,
`result`, and the reply of the observed command.  The command functions write
that last element as if it were an ordinary reply.  When the push goes to the
client whose command is being executed, what they append is postponed but the
lengths they defer are not, so the two come apart.
-/

namespace Dice.Ports.ObserveFraming

open Verified CString Holes NumberParsing Resp ReplyBuffers ReplyStream List

def setPushing (c : Client) (pushing : Bool) : Client :=
  { c with info := { c.info with flags := { c.info.flags with pushing := pushing } } }

/-- The header of the five elements: `shared.mbulkhdr[5]` or `addReplyPushLen`. -/
def addPushHeader (s : Server) (cid : ClientId) (c : Client) : Server × Client :=
  match c.info.resp with
  | .resp2 => addReplyProto s cid c (header 42 5)
  | .resp3 => addReplyAggregateLen s cid c 5 .push

/-- `genericExecuteObserveNotification`; `genericObserveCommand` writes the first
result of a subscription by the same calls. -/
def genericExecuteObserveNotification (s : Server) (cid : ClientId) (c : Client)
    (handler : Reply) (fingerprint : Bytes) : Server × Client :=
  let oldFlags := c.info.flags
  let c := setPushing c true
  let (s, c) := addPushHeader s cid c
  let (s, c) := addReplyBulkCString s cid c (ofString "observe")
  let (s, c) := addReplyBulkCString s cid c (ofString "fingerprint")
  let (s, c) := addReplyBulkCString s cid c fingerprint
  let (s, c) := addReplyBulkCString s cid c (ofString "result")
  let (s, c) := runReply s cid c handler
  (s, if !oldFlags.pushing then setPushing c false else c)

/-- The push up to the reply of the observed command. -/
def preamble (resp : Version) (fingerprint : Bytes) : Bytes :=
  header (match resp with | .resp2 => 42 | .resp3 => 62) 5 ++
    (bulk (ofString "observe") ++ (bulk (ofString "fingerprint") ++
      (bulk (cstr fingerprint) ++ bulk (ofString "result"))))

/-- The push as one block. -/
def pushMessage (resp : Version) (handler : Reply) (fingerprint : Bytes) : Bytes :=
  preamble resp fingerprint ++ handler.text

/-- Appends of a pushing client: all in its own buffers, or all pending. -/
def Appends (s : Server) (cid : ClientId) (c : Client) (r : Server × Client) (x : Bytes) : Prop :=
  Grows s c r (own (postponed s.context cid c.info.flags.pushing) x)
    (own (!postponed s.context cid c.info.flags.pushing) x)

variable {cid : ClientId} {block : Bytes} {w : World}

lemma Appends.trans {s : Server} {c : Client}
    {r r' : Server × Client} {x x' : Bytes} (h : Appends s cid c r x)
    (h' : Appends r.1 cid r.2 r' x') : Appends s cid c r' (x ++ x') := by
  unfold Appends at h h' ⊢
  rw [h.context, h.info] at h'
  have hall := Grows.trans h h'
  cases hpost : postponed s.context cid c.info.flags.pushing with
  | true => simpa [hpost, own] using hall
  | false => simpa [hpost, own] using hall

lemma prepare_of_accepts {c : ClientInfo} (hc : accepts c) : prepareClientToWrite c := by
  simp only [accepts, Bool.and_eq_true] at hc
  exact hc.1.1

section

variable (s : Server) (cid : ClientId) (c : Client)

lemma appends_addPushHeader (hc : accepts c.info) : Appends s cid c (addPushHeader s cid c)
    (header (match c.info.resp with | .resp2 => 42 | .resp3 => 62) 5) := by
  unfold addPushHeader
  split
  · exact grows_addReplyProto s cid c _ hc
  · unfold addReplyAggregateLen addReplyLengthWithMark
    rw [if_pos (prepare_of_accepts hc)]
    exact grows_addReplyToBufferOrList s cid c _ hc

lemma appends_addReplyBulkCString (p : Bytes) (hc : accepts c.info) :
    Appends s cid c (addReplyBulkCString s cid c p) (bulk (cstr p)) := by
  unfold addReplyBulkCString addReplyBulkCBuffer addReplyLengthWithMark bulk
  rw [if_pos (prepare_of_accepts hc), lengthHeader_eq]
  have h1 : Appends s cid c _ _ :=
    grows_addReplyToBufferOrList s cid c (header 36 (cstr p).length) hc
  generalize addReplyToBufferOrList s cid c (header 36 (cstr p).length) = r1 at h1 ⊢
  have hc1 : accepts r1.2.info := by rw [Grows.info h1]; exact hc
  have h2 : Appends r1.1 cid r1.2 _ _ := grows_addReplyToBufferOrList r1.1 cid r1.2 (cstr p) hc1
  generalize hr2 : addReplyToBufferOrList r1.1 cid r1.2 (cstr p) = r2 at h2 ⊢
  have hc2 : accepts r2.2.info := by rw [Grows.info h2]; exact hc1
  have h3 : Appends r2.1 cid r2.2 _ _ := grows_addReplyToBufferOrList r2.1 cid r2.2 crlf hc2
  simp only [hr2]
  exact (h1.trans h2).trans h3

end

/-- What a push adds to the client's own buffers. -/
def ownPart (isPostponed : Bool) (resp : Version) (handler : Reply) (fingerprint : Bytes) : Bytes :=
  if isPostponed then handler.lengths else pushMessage resp handler fingerprint

/-- What a push adds to the pending push messages. -/
def pendingPart (isPostponed : Bool) (resp : Version) (handler : Reply)
    (fingerprint : Bytes) : Bytes :=
  if isPostponed then preamble resp fingerprint ++ handler.appends else []

lemma push_spec (s : Server) (cid : ClientId) (c : Client) (handler : Reply)
    (fingerprint : Bytes) (hc : accepts (setPushing c true).info) :
    let r := genericExecuteObserveNotification s cid c handler fingerprint
    let isPostponed := postponed s.context cid true
    r.1.context = s.context ∧ clientStream r.2 = clientStream c ++
        solid (ownPart isPostponed c.info.resp handler fingerprint) ∧
      nodesStream r.1.pendingPushMessages = nodesStream s.pendingPushMessages ++
        solid (pendingPart isPostponed c.info.resp handler fingerprint) := by
  unfold genericExecuteObserveNotification
  generalize hcp : setPushing c true = cp at hc ⊢
  have hpushing : cp.info.flags.pushing := by rw [← hcp]; rfl
  have hresp : cp.info.resp = c.info.resp := by rw [← hcp]; rfl
  have hstream : clientStream cp = clientStream c := by rw [← hcp]; rfl
  have h1 := appends_addPushHeader s cid cp hc
  dsimp only
  generalize addPushHeader s cid cp = r1 at h1 ⊢
  have hc1 : accepts r1.2.info := by rw [Grows.info h1]; exact hc
  have h2 := appends_addReplyBulkCString r1.1 cid r1.2 (ofString "observe") hc1
  generalize addReplyBulkCString r1.1 cid r1.2 (ofString "observe") = r2 at h2 ⊢
  have hc2 : accepts r2.2.info := by rw [Grows.info h2]; exact hc1
  have h3 := appends_addReplyBulkCString r2.1 cid r2.2 (ofString "fingerprint") hc2
  generalize addReplyBulkCString r2.1 cid r2.2 (ofString "fingerprint") = r3 at h3 ⊢
  have hc3 : accepts r3.2.info := by rw [Grows.info h3]; exact hc2
  have h4 := appends_addReplyBulkCString r3.1 cid r3.2 fingerprint hc3
  generalize addReplyBulkCString r3.1 cid r3.2 fingerprint = r4 at h4 ⊢
  have hc4 : accepts r4.2.info := by rw [Grows.info h4]; exact hc3
  have h5 := appends_addReplyBulkCString r4.1 cid r4.2 (ofString "result") hc4
  generalize addReplyBulkCString r4.1 cid r4.2 (ofString "result") = r5 at h5 ⊢
  have hpre : Appends s cid cp r5 (preamble c.info.resp fingerprint) := by
    have hall := h1.trans (h2.trans (h3.trans (h4.trans h5)))
    rw [hresp] at hall
    exact hall
  have hc5 : accepts r5.2.info := by rw [Grows.info h5]; exact hc4
  have h6 := grows_runReply cid handler r5.1 r5.2 hc5
  rw [Grows.context hpre, Grows.info hpre] at h6
  have hall := Grows.trans hpre h6
  generalize runReply r5.1 cid r5.2 handler = r6 at hall ⊢
  rw [hpushing] at hall
  have hback : clientStream (if (!c.info.flags.pushing) then setPushing r6.2 false else r6.2) =
        clientStream r6.2 := by
    split <;> rfl
  refine ⟨hall.context, ?_, ?_⟩
  · rw [hback, hall.stream, hstream]
    cases hpost : postponed s.context cid true with
    | true => simp [own, ownPart]
    | false => simp [own, ownPart, pushMessage]
  · rw [hall.pending]
    cases hpost : postponed s.context cid true with
    | true => simp [own, pendingPart]
    | false => simp [own, pendingPart]

/-! ## Later operations -/

/-- Text that is contiguous in the first stream is so in the second. -/
def Keeps (x y : List (Item UInt8)) : Prop :=
  ∀ block : Bytes, solid block <:+: x → solid block <:+: y

lemma keeps_append (x y : List (Item UInt8)) : Keeps x (x ++ y) :=
  fun _ h => h.trans (List.prefix_append x y).isInfix

lemma keeps_of_eq {x y : List (Item UInt8)} (h : y = x) : Keeps x y := fun _ hblock => h ▸ hblock

/-- No append breaks up a block, of this client or pending. -/
lemma keeps_addReplyProto (s : Server) (cid : ClientId) (c : Client) (bytes : Bytes) :
    (addReplyProto s cid c bytes).1.context = s.context ∧
    Keeps (clientStream c) (clientStream (addReplyProto s cid c bytes).2) ∧
    Keeps (nodesStream s.pendingPushMessages)
      (nodesStream (addReplyProto s cid c bytes).1.pendingPushMessages) := by
  cases hc : accepts c.info with
  | true =>
    have hgrows := grows_addReplyProto s cid c bytes hc
    refine ⟨hgrows.context, ?_, ?_⟩
    · rw [hgrows.stream]
      exact keeps_append _ _
    · rw [hgrows.pending]
      exact keeps_append _ _
  | false =>
    -- a client that takes no replies is at most closed
    have hsame : addReplyProto s cid c bytes = (s, c) ∨
      addReplyProto s cid c bytes = (s, closeAsap c) := by
      unfold addReplyProto addReplyToBufferOrList
      unfold accepts at hc
      cases hprepare : prepareClientToWrite c.info with
      | false => simp
      | true =>
        cases hclose : c.info.flags.closeAfterReply with
        | true => simp
        | false =>
          cases hreplica : isReplica c.info with
          | true => simp
          | false => simp [hprepare, hclose, hreplica] at hc
    rcases hsame with hsame | hsame <;> rw [hsame] <;>
      exact ⟨rfl, keeps_of_eq rfl, keeps_of_eq rfl⟩

lemma keeps_addReplyDeferredLen (allocator : Allocator) (c : Client) :
    Keeps (clientStream c) (clientStream (addReplyDeferredLen allocator c).1) := by
  unfold addReplyDeferredLen
  split
  · split
    · exact keeps_of_eq rfl
    have hstream : clientStream { trimReplyUnusedTailSpace allocator c with
      reply := (trimReplyUnusedTailSpace allocator c).reply ++
        [.placeholder (freshAddress (trimReplyUnusedTailSpace allocator c).reply)] } =
      clientStream (trimReplyUnusedTailSpace allocator c) ++
        [.hole (freshAddress (trimReplyUnusedTailSpace allocator c).reply)] := by
      simp [clientStream, nodeItems]
    rw [hstream, clientStream_trim]
    exact keeps_append _ _
  · exact keeps_of_eq rfl

lemma on_clients_self (w : World) (cid : ClientId) (f : Server → Client → Server × Client) :
    (w.on cid f).clients cid = (f w.server (w.clients cid)).2 :=
  Function.update_self _ _ _

lemma on_clients_of_ne (w : World) {target : ClientId} (h : cid ≠ target)
    (f : Server → Client → Server × Client) : (w.on target f).clients cid = w.clients cid :=
  Function.update_of_ne h _ _

/-- A block is complete in the output of the client, or pending for it. -/
def Held (cid : ClientId) (block : Bytes) (w : World) : Prop :=
  solid block <:+: clientStream (w.clients cid) ∨ (w.server.context.currentClient = some cid ∧
      solid block <:+: nodesStream w.server.pendingPushMessages)

lemma held_on (target : ClientId) (f : Server → Client → Server × Client)
    (hf : (f w.server (w.clients target)).1.context = w.server.context ∧
    Keeps (clientStream (w.clients target))
      (clientStream (f w.server (w.clients target)).2) ∧
    Keeps (nodesStream w.server.pendingPushMessages)
      (nodesStream (f w.server (w.clients target)).1.pendingPushMessages))
    (h : Held cid block w) : Held cid block (w.on target f) := by
  obtain ⟨hcontext, hclient, hpending⟩ := hf
  rcases h with h | ⟨hcurrent, h⟩
  · refine .inl ?_
    by_cases hcid : cid = target
    · subst hcid
      rw [on_clients_self]
      exact hclient block h
    · rw [on_clients_of_ne w hcid]
      exact h
  · refine .inr ⟨?_, hpending block h⟩
    show (f w.server (w.clients target)).1.context.currentClient = some cid
    rw [hcontext]
    exact hcurrent

lemma held_applyOp (op : ReplyOp) (h : Held cid block w) : Held cid block (applyOp w op) := by
  cases op with
  | info target info =>
    exact held_on target (fun s c => (s, { c with info := info }))
      ⟨rfl, keeps_of_eq rfl, keeps_of_eq rfl⟩ h
  | append target bytes =>
    exact held_on target (fun s c => addReplyProto s target c bytes) (keeps_addReplyProto _ _ _ _) h
  | deferredLen target =>
    exact held_on target (fun s c => (s, (addReplyDeferredLen s.allocator c).1))
      ⟨rfl, keeps_addReplyDeferredLen _ _, keeps_of_eq rfl⟩ h
  | setDeferred target node n kind =>
    refine held_on target (fun s c => (s, setDeferredAggregateLen s.allocator c (some node) n kind))
      ⟨rfl, ?_, keeps_of_eq rfl⟩ h
    intro b hb
    show solid b <:+: clientStream (setDeferredReply _ _ _ _)
    rw [clientStream_setDeferredReply]
    exact solid_infix_fill node _ hb

lemma held_run (later : List ReplyOp) :
    ∀ w : World, Held cid block w → Held cid block (later.foldl applyOp w) := by
  induction later with
  | nil => exact fun _ h => h
  | cons op later ih => exact fun w h => ih _ (held_applyOp op h)

/-- The stream of a client after the end of the command. -/
lemma clientStream_afterCommand (w : World) (cid : ClientId) :
    clientStream ((afterCommand w).clients cid) = clientStream (w.clients cid) ++
    (if w.server.context.currentClient = some cid
      then nodesStream w.server.pendingPushMessages else []) := by
  unfold afterCommand
  cases hcurrent : w.server.context.currentClient with
  | none => simp
  | some current =>
    by_cases hcid : cid = current
    · subst hcid
      rw [on_clients_self]
      simp [clientStream]
    rw [on_clients_of_ne w hcid]
    have hne : ¬ (some current = some cid) := by
      rw [Option.some.injEq]
      exact Ne.symm hcid
    simp [hne]

/-- At the end of the command a block that was held is in the output. -/
lemma infix_output_of_held
    (h : Held cid block w) : block <:+: ((afterCommand w).clients cid).output := by
  rw [← text_clientStream, clientStream_afterCommand]
  rcases h with h | ⟨hcurrent, h⟩
  · exact infix_text (keeps_append _ _ block h)
  · rw [if_pos hcurrent]
    exact infix_text (h.trans (List.suffix_append _ _).isInfix)

/-! ## The push -/

/-- A push to a client in the middle of whatever the server does. -/
def pushTo (w : World) (cid : ClientId) (handler : Reply) (fingerprint : Bytes) : World :=
  w.on cid fun s c => genericExecuteObserveNotification s cid c handler fingerprint

/-- Whatever the buffers hold at the time of the push and whatever is written
later, the push is one block of the output at the end of the command. -/
def Contiguous (context : Context) (cid : ClientId) (info : ClientInfo)
    (handler : Reply) (fingerprint : Bytes) : Prop :=
  ∀ (w : World) (later : List ReplyOp), w.server.context = context → (w.clients cid).info = info →
    pushMessage info.resp handler fingerprint <:+:
      ((afterCommand (later.foldl applyOp (pushTo w cid handler fingerprint))).clients cid).output

lemma text_eq_appends {r : Reply} (h : r.hasDeferred = false) : r.text = r.appends := by
  induction r with
  | done => rfl
  | append bytes rest ih =>
    simp only [Reply.text, Reply.appends]
    rw [ih h]
  | deferred kind n body rest => simp [Reply.hasDeferred] at h

lemma lengths_ne_nil {r : Reply} (h : r.hasDeferred) : r.lengths ≠ [] := by
  induction r with
  | done => simp [Reply.hasDeferred] at h
  | append bytes rest ih => exact ih h
  | deferred kind n body rest => simp [Reply.lengths, header]

lemma length_text (r : Reply) : r.text.length = r.lengths.length + r.appends.length := by
  induction r with
  | done => rfl
  | append bytes rest ih =>
    simp only [Reply.text, Reply.lengths, Reply.appends, length_append]
    omega
  | deferred kind n body rest ihBody ihRest =>
    simp only [Reply.text, Reply.lengths, Reply.appends, length_append]
    omega

lemma dollar_notMem_header (kind : Aggregate) (n : Nat) : (36 : UInt8) ∉ header kind.mark n := by
  have hdecimal : (36 : UInt8) ∉ decimal n := by
    intro hmem
    have hdigit := isDigit_of_mem_decimal hmem
    exact absurd hdigit (by decide)
  cases kind <;> simp [header, crlf, Aggregate.mark, hdecimal]

lemma dollar_notMem_lengths (r : Reply) : (36 : UInt8) ∉ r.lengths := by
  induction r with
  | done => simp [Reply.lengths]
  | append bytes rest ih => exact ih
  | deferred kind n body rest ihBody ihRest =>
    simp [Reply.lengths, dollar_notMem_header, ihBody, ihRest]

/-- The first dollar sign of a push is its fifth byte. -/
lemma takeWhile_preamble (resp : Version) (fingerprint rest : Bytes) :
    ((preamble resp fingerprint ++ rest).takeWhile (· != 36)).length = 4 := by
  cases resp <;> rfl

lemma current_of_postponed {context : Context} {pushing : Bool}
    (h : postponed context cid pushing) : context.currentClient = some cid := by
  simp only [postponed, Bool.and_eq_true, beq_iff_eq] at h
  exact h.1.2

/-- The world in which no client has any output. -/
def quietWorld (context : Context) (info : ClientInfo) : World where
  server := ⟨context, ⟨id, fun _ => Nat.le_refl _⟩, []⟩
  clients := fun _ => ⟨info, ⟨[], protoReplyChunkBytes, Nat.zero_le _⟩, []⟩

/-- A postponed push on empty buffers: the lengths come first. -/
lemma output_postponed {context : Context} {info : ClientInfo}
    (handler : Reply) (fingerprint : Bytes)
    (haccepts : accepts { info with flags := { info.flags with pushing := true } } =
    true) (hpost : postponed context cid true) :
    ((afterCommand (pushTo (quietWorld context info) cid handler fingerprint)).clients cid).output =
      handler.lengths ++ (preamble info.resp fingerprint ++ handler.appends) := by
  have hspec := push_spec (quietWorld context info).server cid
    ((quietWorld context info).clients cid) handler fingerprint haccepts
  obtain ⟨hcontext, hstream, hpending⟩ := hspec
  have hserver : (pushTo (quietWorld context info) cid handler fingerprint).server =
    (genericExecuteObserveNotification (quietWorld context info).server cid
      ((quietWorld context info).clients cid) handler fingerprint).1 := rfl
  have hcurrent : (quietWorld context info).server.context.currentClient = some cid :=
    current_of_postponed hpost
  rw [← text_clientStream, clientStream_afterCommand, hserver, hcontext,
    if_pos hcurrent, pushTo, on_clients_self, hstream, hpending]
  show text (clientStream ⟨info, ⟨[], _, _⟩, []⟩ ++
    solid (ownPart (postponed context cid true) info.resp handler fingerprint) ++
      (nodesStream [] ++ solid (pendingPart (postponed context cid true) info.resp
        handler fingerprint))) = _
  rw [hpost]
  simp [clientStream, ownPart, pendingPart]

/-- With a deferred length in front, the push is not in that output. -/
lemma pushMessage_not_infix {resp : Version} {handler : Reply} {fingerprint : Bytes}
    (hdeferred : handler.hasDeferred) :
    ¬ pushMessage resp handler fingerprint <:+:
    handler.lengths ++ (preamble resp fingerprint ++ handler.appends) := by
  intro hinfix
  -- the two have the same bytes, so they would be equal
  have heq := hinfix.eq_of_length (by
    simp only [pushMessage, length_append, length_text]
    omega)
  have hfirst := congrArg (fun x => (x.takeWhile (· != (36 : UInt8))).length) heq
  have hlengths : ∀ b ∈ handler.lengths, (b != (36 : UInt8)) := by
    intro b hb
    have hne : b ≠ 36 := fun h => dollar_notMem_lengths handler (h ▸ hb)
    simpa using hne
  simp only [pushMessage] at hfirst
  rw [takeWhile_preamble, takeWhile_append_of_pos hlengths, length_append,
    takeWhile_preamble] at hfirst
  have hpos := length_pos_iff.mpr (lengths_ne_nil hdeferred)
  omega

lemma held_pushTo {handler : Reply} {fingerprint : Bytes}
    (haccepts : accepts (setPushing (w.clients cid) true).info)
    (hcond : postponed w.server.context cid true = false ∨ handler.hasDeferred = false) :
    Held cid (pushMessage (w.clients cid).info.resp handler fingerprint)
    (pushTo w cid handler fingerprint) := by
  have hspec := push_spec w.server cid (w.clients cid) handler fingerprint haccepts
  obtain ⟨hcontext, hstream, hpending⟩ := hspec
  cases hpost : postponed w.server.context cid true with
  | false =>
    refine .inl ?_
    rw [pushTo, on_clients_self, hstream, hpost]
    exact (List.suffix_append _ _).isInfix
  | true =>
    have hplain : handler.hasDeferred = false := by
      rcases hcond with h | h
      · rw [h] at hpost
        cases hpost
      · exact h
    refine .inr ⟨?_, ?_⟩
    · show (genericExecuteObserveNotification _ _ _ _ _).1.context.currentClient = _
      rw [hcontext]
      exact current_of_postponed hpost
    show solid _ <:+:
      nodesStream (genericExecuteObserveNotification _ _ _ _ _).1.pendingPushMessages
    rw [hpending, hpost, pushMessage, text_eq_appends hplain]
    exact (List.suffix_append _ _).isInfix

/-- The push is one block exactly when it is not postponed or the observed
command defers no length. -/
theorem push_contiguous_iff (context : Context) (cid : ClientId) (info : ClientInfo)
    (handler : Reply) (fingerprint : Bytes)
    (haccepts : accepts { info with flags := { info.flags with pushing := true } } = true) :
    Contiguous context cid info handler fingerprint ↔
      postponed context cid true = false ∨ handler.hasDeferred = false := by
  constructor
  · intro hcontiguous
    by_contra hcond
    rw [not_or, Bool.not_eq_false, Bool.not_eq_false] at hcond
    obtain ⟨hpost, hdeferred⟩ := hcond
    have hinfix := hcontiguous (quietWorld context info) [] rfl rfl
    rw [foldl_nil, output_postponed handler fingerprint haccepts hpost] at hinfix
    exact pushMessage_not_infix hdeferred hinfix
  · intro hcond w later hcontext hinfo
    subst hcontext hinfo
    exact infix_output_of_held (held_run later _ (held_pushTo haccepts hcond))

/-- Client 1 sends `OBSERVE SMEMBERS` for a set with the one member `x`:
`sinterCommand` defers the length of the set. -/
theorem push_lengths_leave_block :
    ¬ Contiguous { currentClient := some 1, executingClient := some (some .other) } 1
      { resp := .resp3 }
      (.deferred .set 1 (.append (bulk (ofString "x")) .done) .done)
      (ofString "59d8ee8d9dbb8ac4") := by
  intro h
  refine absurd (h (quietWorld _ _) [] rfl rfl) ?_
  decide +kernel

/-- The same push to client 2, for a write of client 1. -/
theorem push_contiguous_iff_sample :
    Contiguous { currentClient := some 1, executingClient := some (some .other) } 2
      { resp := .resp3 }
      (.deferred .set 1 (.append (bulk (ofString "x")) .done) .done)
      (ofString "59d8ee8d9dbb8ac4") :=
  (push_contiguous_iff _ 2 _ _ _ (by decide)).mpr (.inl (by decide))

end Dice.Ports.ObserveFraming
