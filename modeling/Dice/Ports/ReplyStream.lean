import Dice.Verified.Holes
import Dice.Ports.ReplyBuffers

/-!
# The reply buffers as a stream with holes

How the bytes of a reply are spread over the static buffer and the blocks is a
matter of allocation.  What a client is sent is the stream they make up, with a
hole for every length that is still deferred: appending extends the stream,
deferring a length opens a hole at its end, and setting the length fills that
hole, whatever node the text is glued to.
-/

namespace Dice.Ports.ReplyStream

open List Verified CString Holes Resp ReplyBuffers Bool

def nodeItems : Node → List (Item UInt8)
  | .placeholder address => [.hole address]
  | .block b => solid b.buf

/-- The stream of a reply list. -/
def nodesStream (nodes : List Node) : List (Item UInt8) := nodes.flatMap nodeItems

/-- The stream of a client: its static buffer, then its reply list. -/
def clientStream (c : Client) : List (Item UInt8) := solid c.static.buf ++ nodesStream c.reply

@[simp] lemma nodesStream_nil : nodesStream [] = [] := rfl

@[simp] lemma nodesStream_cons (node : Node) (nodes : List Node) :
    nodesStream (node :: nodes) = nodeItems node ++ nodesStream nodes := rfl

@[simp] lemma nodesStream_append (xs ys : List Node) :
    nodesStream (xs ++ ys) = nodesStream xs ++ nodesStream ys := by
  simp [nodesStream]

@[simp] lemma nodeItems_block (b : ReplyBlock) : nodeItems (.block b) = solid b.buf := rfl

/-- The text of the stream is the output of the client. -/
lemma text_clientStream (c : Client) : text (clientStream c) = c.output := by
  have hnodes : ∀ nodes : List Node, text (nodesStream nodes) = nodes.flatMap Node.text := by
    intro nodes
    induction nodes with
    | nil => rfl
    | cons node nodes ih =>
      rw [nodesStream_cons, text_append, ih]
      cases node with
      | placeholder address => rfl
      | block b => simp [Node.text]
  rw [clientStream, text_append, text_solid, hnodes]
  rfl

/-! ## Appending -/

lemma put_append_rest (b : ReplyBlock) (s : Bytes) : (b.put s).buf ++ b.rest s = b.buf ++ s := by
  simp [ReplyBlock.put, ReplyBlock.rest]

lemma eq_dropLast_append_block {nodes : List Node} {b : ReplyBlock}
    (h : nodes.getLast? = some (.block b)) : nodes = nodes.dropLast ++ [.block b] := by
  obtain ⟨ys, rfl⟩ := getLast?_eq_some_iff.mp h
  simp

section

variable (allocator : Allocator) (nodes : List Node) (s : Bytes)

lemma nodesStream_addBlock : nodesStream (if s = [] then nodes
    else nodes ++ [.block (.new allocator s (max s.length protoReplyChunkBytes)
      (Nat.le_max_left _ _))]) = nodesStream nodes ++ solid s := by
  by_cases hs : s = []
  · simp [hs]
  · rw [if_neg hs]
    simp [ReplyBlock.new]

lemma nodesStream_addReplyProtoToList : nodesStream (addReplyProtoToList allocator nodes s) =
    nodesStream nodes ++ solid s := by
  unfold addReplyProtoToList
  split
  · rename_i tail hlast
    rw [nodesStream_addBlock, nodesStream_append]
    conv_rhs => rw [eq_dropLast_append_block hlast, nodesStream_append]
    simp only [nodesStream_cons, nodesStream_nil, nodeItems_block, append_nil, append_assoc]
    rw [← solid_append, put_append_rest, solid_append]
  · exact nodesStream_addBlock allocator nodes s

end

section

variable (context : Context) (c : Client) (s : Bytes)

/-- What `_addReplyToBuffer` leaves over is what is missing from the stream. -/
lemma clientStream_addReplyToBuffer : clientStream (addReplyToBuffer context c s).1 ++
      solid (addReplyToBuffer context c s).2 = clientStream c ++ solid s := by
  unfold addReplyToBuffer
  split
  · rfl
  split
  · rfl
  · have hnil : c.reply = [] := length_eq_zero_iff.mp (by omega)
    simp [clientStream, hnil, ← solid_append]

lemma info_addReplyToBuffer : (addReplyToBuffer context c s).1.info = c.info := by
  unfold addReplyToBuffer
  split
  · rfl
  · split <;> rfl

end

/-- The client takes replies. -/
def accepts (c : ClientInfo) : Bool :=
  prepareClientToWrite c && !c.flags.closeAfterReply && !isReplica c

/-- The part of a text that goes to the client's own buffers. -/
def own (postponed : Bool) (x : Bytes) : Bytes := if postponed then [] else x

/-- Nothing but output changes, and the output grows by `x` in the client's own
buffers and by `y` in the pending push messages. -/
structure Grows (s : Server) (c : Client) (r : Server × Client) (x y : Bytes) :
    Prop where
  context : r.1.context = s.context
  allocator : r.1.allocator = s.allocator
  info : r.2.info = c.info
  stream : clientStream r.2 = clientStream c ++ solid x
  pending : nodesStream r.1.pendingPushMessages = nodesStream s.pendingPushMessages ++ solid y

lemma Grows.refl (s : Server) (c : Client) : Grows s c (s, c) [] [] :=
  ⟨rfl, rfl, rfl, by simp, by simp⟩

lemma Grows.trans {s : Server} {c : Client} {r r' : Server × Client}
    {x x' y y' : Bytes} (h : Grows s c r x y) (h' : Grows r.1 r.2 r' x' y') :
    Grows s c r' (x ++ x') (y ++ y') where
  context := h'.context.trans h.context
  allocator := h'.allocator.trans h.allocator
  info := h'.info.trans h.info
  stream := by rw [h'.stream, h.stream, solid_append, append_assoc]
  pending := by rw [h'.pending, h.pending, solid_append, append_assoc]

section

variable (allocator : Allocator) (c : Client)

section

variable (s : Server) (cid : ClientId) (c : Client) (bytes : Bytes) (hc : accepts c.info)

include hc

lemma grows_addReplyToBufferOrList : Grows s c (addReplyToBufferOrList s cid c bytes)
    (own (postponed s.context cid c.info.flags.pushing) bytes)
    (own (!postponed s.context cid c.info.flags.pushing) bytes) := by
  have hc' := hc
  simp only [accepts, and_eq_true, not_eq_true'] at hc'
  obtain ⟨⟨_, hclose⟩, hreplica⟩ := hc'
  unfold addReplyToBufferOrList
  rw [hclose, hreplica]
  cases hpost : postponed s.context cid c.info.flags.pushing with
  | true =>
    refine ⟨rfl, rfl, rfl, by simp [own], ?_⟩
    simp [nodesStream_addReplyProtoToList, own]
  | false =>
    have hbuf := clientStream_addReplyToBuffer s.context c bytes
    have hinfo := info_addReplyToBuffer s.context c bytes
    generalize addReplyToBuffer s.context c bytes = r at hbuf hinfo ⊢
    obtain ⟨c', rest⟩ := r
    simp only [false_eq_true, if_false]
    by_cases hrest : rest.length > 0
    · rw [if_pos hrest]
      refine ⟨rfl, rfl, hinfo, ?_, by simp [own]⟩
      rw [clientStream, nodesStream_addReplyProtoToList, ← append_assoc]
      exact hbuf
    · have hnil : rest = [] := length_eq_zero_iff.mp (by omega)
      rw [if_neg hrest]
      refine ⟨rfl, rfl, hinfo, ?_, by simp [own]⟩
      simpa [hnil, own] using hbuf

lemma grows_addReplyProto : Grows s c (addReplyProto s cid c bytes)
    (own (postponed s.context cid c.info.flags.pushing) bytes)
    (own (!postponed s.context cid c.info.flags.pushing) bytes) := by
  have hprepare : prepareClientToWrite c.info := by
    simp only [accepts, and_eq_true] at hc
    exact hc.1.1
  unfold addReplyProto
  rw [if_pos hprepare]
  exact grows_addReplyToBufferOrList s cid c bytes hc

end

/-! ## Deferred lengths -/

lemma clientStream_trim : clientStream (trimReplyUnusedTailSpace allocator c) = clientStream c := by
  unfold trimReplyUnusedTailSpace
  split
  · rename_i tail hlast
    split
    · unfold clientStream
      conv_rhs => rw [eq_dropLast_append_block hlast]
      simp [ReplyBlock.new]
    · rfl
  · rfl

lemma info_trim : (trimReplyUnusedTailSpace allocator c).info = c.info := by
  unfold trimReplyUnusedTailSpace
  split
  · split <;> rfl
  · rfl

lemma hole_fresh_notMem : Item.hole (freshAddress c.reply) ∉ clientStream c := by
  have hle : ∀ (nodes : List Node) (address : Nat), Item.hole address ∈ nodesStream nodes →
    address ≤ (nodes.map Node.address).foldr max 0 := by
    intro nodes
    induction nodes with
    | nil => simp
    | cons node nodes ih =>
      intro address hmem
      rw [nodesStream_cons, mem_append] at hmem
      rcases hmem with hmem | hmem
      · cases node with
        | placeholder other =>
          simp only [nodeItems, mem_singleton, Item.hole.injEq] at hmem
          subst hmem
          exact Nat.le_max_left _ _
        | block b => exact absurd hmem (hole_notMem_solid _ _)
      · exact Nat.le_trans (ih address hmem) (Nat.le_max_right _ _)
  intro hmem
  rw [clientStream, mem_append] at hmem
  rcases hmem with hmem | hmem
  · exact hole_notMem_solid _ _ hmem
  · have := hle _ _ hmem
    unfold freshAddress at this
    omega

/-- Deferring a length opens a hole at the end of the stream. -/
lemma addReplyDeferredLen_spec (hc : accepts c.info) :
    ∃ c' address, addReplyDeferredLen allocator c = (c', some address) ∧
    c'.info = c.info ∧ Item.hole address ∉ clientStream c ∧
    clientStream c' = clientStream c ++ [.hole address] := by
  have hc' := hc
  simp only [accepts, and_eq_true, not_eq_true'] at hc'
  obtain ⟨⟨hprepare, _⟩, hreplica⟩ := hc'
  unfold addReplyDeferredLen
  rw [hprepare, hreplica]
  refine ⟨_, _, rfl, info_trim allocator c, ?_, ?_⟩
  · rw [← clientStream_trim allocator c]
    exact hole_fresh_notMem _
  · rw [← clientStream_trim allocator c]
    simp [clientStream, nodeItems]

lemma nodesStream_glueToNext (pendingIo : Bool) (after : List Node) (s : Bytes) :
    nodesStream (glueToNext allocator pendingIo after s) = solid s ++ nodesStream after := by
  unfold glueToNext
  split
  · split
    · simp [ReplyBlock.prepend]
    · simp [ReplyBlock.new]
  · simp [ReplyBlock.new]

lemma nodesStream_glueToPrev (pendingIo : Bool) (before : List Node) (s : Bytes) :
    nodesStream (glueToPrev pendingIo before s).1 ++
      solid ((glueToPrev pendingIo before s).2.getD []) =
    nodesStream before ++ solid s := by
  unfold glueToPrev
  split
  · rename_i prev hlast
    split
    · have hleft : ((if (prev.rest s).length = 0 then none
        else some (prev.rest s)).getD [] : Bytes) = prev.rest s := by
        split
        · rename_i hzero
          simp [length_eq_zero_iff.mp hzero]
        · rfl
      simp only [hleft]
      conv_rhs => rw [eq_dropLast_append_block hlast]
      simp only [nodesStream_append, nodesStream_cons, nodesStream_nil, nodeItems_block,
        append_nil, append_assoc]
      rw [← solid_append, put_append_rest, solid_append]
    · rfl
  · rfl

/-- A reply list, cut at the first placeholder of an address. -/
lemma reply_cut (nodes : List Node) (address : Nat) :
    (nodes.dropWhile (fun n => !n.isAt address) = [] ∧ Item.hole address ∉ nodesStream nodes) ∨
    ∃ after, nodes.dropWhile (fun n => !n.isAt address) = .placeholder address :: after ∧
      nodes = nodes.takeWhile (fun n => !n.isAt address) ++ .placeholder address :: after ∧
      Item.hole address ∉ nodesStream (nodes.takeWhile fun n => !n.isAt address) := by
  induction nodes with
  | nil => exact .inl ⟨rfl, by simp⟩
  | cons node nodes ih =>
    cases hat : node.isAt address with
    | true =>
      cases node with
      | block b => simp [Node.isAt] at hat
      | placeholder other =>
        have heq : other = address := by simpa [Node.isAt] using hat
        subst heq
        exact .inr ⟨nodes, by simp [hat], by simp [hat], by simp [hat]⟩
    | false =>
      have hnode : Item.hole address ∉ nodeItems node := by
        cases node with
        | block b => exact hole_notMem_solid _ _
        | placeholder other =>
          have hne : other ≠ address := by simpa [Node.isAt] using hat
          simpa [nodeItems] using Ne.symm hne
      rcases ih with ⟨hdrop, hnot⟩ | ⟨after, hdrop, hsplit, hnot⟩
      · exact .inl ⟨by simp [hat, hdrop], by simp [hnode, hnot]⟩
      refine .inr ⟨after, by simp [hat, hdrop], ?_, ?_⟩
      · simp only [takeWhile_cons, hat, Bool.not_false, if_true, cons_append]
        rw [← hsplit]
      · simp [hat, hnode, hnot]

lemma clientStream_setDeferredReply (address : Nat) (s : Bytes) :
    clientStream (setDeferredReply allocator c (some address) s) =
    fill address s (clientStream c) := by
  have hstatic : Item.hole address ∉ solid c.static.buf := hole_notMem_solid _ _
  unfold setDeferredReply
  rcases reply_cut c.reply address with ⟨hdrop, hnot⟩ | ⟨after, hdrop, hsplit, hnot⟩
  · simp only [hdrop]
    rw [fill_of_notMem]
    simp [clientStream, hstatic, hnot]
  have hfill : fill address s (clientStream c) = solid c.static.buf ++
    (nodesStream (c.reply.takeWhile fun n => !n.isAt address) ++
      (solid s ++ nodesStream after)) := by
    rw [clientStream, fill_append _ _ _ _ hstatic]
    conv_lhs => rw [hsplit]
    rw [nodesStream_append, fill_append _ _ _ _ hnot]
    exact congrArg _ (congrArg _ (fill_hole address s (nodesStream after)))
  simp only [hdrop]
  rw [hfill]
  have hprev := nodesStream_glueToPrev c.info.pendingIo
    (c.reply.takeWhile fun n => !n.isAt address) s
  generalize glueToPrev c.info.pendingIo
    (c.reply.takeWhile fun n => !n.isAt address) s = g at hprev ⊢
  obtain ⟨before, left⟩ := g
  cases left with
  | none =>
    simp only [Option.getD_none, solid_nil, append_nil] at hprev
    simp [clientStream, hprev]
  | some left =>
    simp only [Option.getD_some] at hprev
    simp only [clientStream, nodesStream_append, nodesStream_glueToNext]
    rw [← append_assoc (nodesStream before), hprev, append_assoc]

lemma info_setDeferredReply (node : Option Nat) (s : Bytes) :
    (setDeferredReply allocator c node s).info = c.info := by
  unfold setDeferredReply
  split
  · rfl
  dsimp only
  split
  · rfl
  · split <;> rfl

end

lemma lengthHeader_eq (shared : List UInt8) (mark : UInt8) (n : Nat) :
    lengthHeader shared mark n = header mark n := by
  unfold lengthHeader
  split
  · rename_i h
    have hlen : ∀ m < objSharedBulkhdrLen,
      (decimal m).length + 3 = objSharedHdrStrlen m := by decide
    refine take_of_length_le ?_
    have := hlen n h.2
    simp only [header, crlf, length_cons, length_append, length_nil]
    omega
  · rfl

/-- Running a reply: postponed, only its lengths reach the client's own buffers
and only its appends are pending; otherwise all of it is written in place. -/
lemma grows_runReply (cid : ClientId) (r : Reply) : ∀ (s : Server) (c : Client), accepts c.info →
    Grows s c (runReply s cid c r)
      (if postponed s.context cid c.info.flags.pushing then r.lengths else r.text)
      (own (!postponed s.context cid c.info.flags.pushing) r.appends) := by
  induction r with
  | done =>
    intro s c _
    simpa [runReply, Reply.lengths, Reply.text, Reply.appends, own] using Grows.refl s c
  | append bytes rest ih =>
    intro s c hc
    have hfirst := grows_addReplyProto s cid c bytes hc
    unfold runReply
    generalize addReplyProto s cid c bytes = r1 at hfirst ⊢
    have hrest := ih r1.1 r1.2 (by rw [hfirst.info]; exact hc)
    rw [hfirst.context, hfirst.info] at hrest
    have hall := hfirst.trans hrest
    cases hpost : postponed s.context cid c.info.flags.pushing with
    | true => simpa [hpost, own, Reply.lengths, Reply.appends] using hall
    | false => simpa [hpost, own, Reply.text] using hall
  | deferred kind n body rest ihBody ihRest =>
    intro s c hc
    obtain ⟨c1, address, hopen, hinfo1, hfresh, hstream1⟩ :=
      addReplyDeferredLen_spec s.allocator c hc
    have hbody := ihBody s c1 (by rw [hinfo1]; exact hc)
    rw [hinfo1] at hbody
    unfold runReply
    rw [hopen]
    simp only
    generalize runReply s cid c1 body = r2 at hbody ⊢
    obtain ⟨s2, c2⟩ := r2
    -- the hole is still where it was opened, with the body behind it
    have hset : Grows s c (s2, setDeferredAggregateLen s2.allocator c2 (some address) n kind)
      (header kind.mark n ++ (if postponed s.context cid c.info.flags.pushing then body.lengths
        else body.text))
      (own (!postponed s.context cid c.info.flags.pushing) body.appends) := by
      refine { hbody with info := ?_, stream := ?_ }
      · exact (info_setDeferredReply _ _ _ _).trans (hbody.info.trans hinfo1)
      show clientStream (setDeferredReply _ c2 _ _) = _
      rw [clientStream_setDeferredReply, lengthHeader_eq, hbody.stream, hstream1,
        append_assoc, fill_append _ _ _ _ hfresh, singleton_append,
        fill_hole, solid_append]
    have hrest := ihRest s2 (setDeferredAggregateLen s2.allocator c2 (some address) n kind)
      (by rw [hset.info]; exact hc)
    rw [hset.context, hset.info] at hrest
    have hall := hset.trans hrest
    cases hpost : postponed s.context cid c.info.flags.pushing with
    | true => simpa [hpost, own, Reply.lengths, Reply.appends] using hall
    | false => simpa [hpost, own, Reply.text] using hall

/-- Appends and well nested deferred texts, each with the allocator it meets. -/
inductive Writing
  | done
  | append (allocator : Allocator) (bytes : Bytes) (rest : Writing)
  | deferred (atOpen atSet : Allocator) (bytes : Bytes) (body rest : Writing)

/-- The calls of `_addReplyToBufferOrList`, `addReplyDeferredLen` and `setDeferredReply`. -/
def Writing.run (s : Server) (cid : ClientId) (c : Client) : Writing → Server × Client
  | .done => (s, c)
  | .append allocator bytes rest =>
    let r := addReplyToBufferOrList { s with allocator } cid c bytes
    rest.run r.1 cid r.2
  | .deferred atOpen atSet bytes body rest =>
    let opened := addReplyDeferredLen atOpen c
    let r := body.run s cid opened.1
    rest.run r.1 cid (setDeferredReply atSet r.2 opened.2 bytes)

/-- The texts with each deferred one in its own place. -/
def Writing.text : Writing → Bytes
  | .done => []
  | .append _ bytes rest => bytes ++ rest.text
  | .deferred _ _ bytes body rest => bytes ++ body.text ++ rest.text

lemma stream_writing (cid : ClientId) (w : Writing) (s : Server) {c : Client}
    (hc : accepts c.info) (hpush : c.info.flags.pushing = false) :
    clientStream (w.run s cid c).2 = clientStream c ++ solid w.text ∧
    (w.run s cid c).2.info = c.info := by
  induction w generalizing s c with
  | done => simp [Writing.run, Writing.text]
  | append allocator bytes rest ih =>
    have hgrow := grows_addReplyToBufferOrList { s with allocator } cid c bytes hc
    obtain ⟨hstream, hinfo⟩ := ih (addReplyToBufferOrList { s with allocator } cid c bytes).1
      (by rwa [hgrow.info]) (by rwa [hgrow.info])
    refine ⟨?_, hinfo.trans hgrow.info⟩
    rw [Writing.run, hstream, hgrow.stream]
    simp [postponed, hpush, own, Writing.text]
  | deferred atOpen atSet bytes body rest ihBody ihRest =>
    obtain ⟨c1, address, hopen, hinfo1, hfresh, hstream1⟩ := addReplyDeferredLen_spec atOpen c hc
    obtain ⟨hbody, hinfo2⟩ := ihBody s (c := c1) (by rwa [hinfo1]) (by rwa [hinfo1])
    rw [Writing.run, hopen]
    have hset := info_setDeferredReply atSet (body.run s cid c1).2 (some address) bytes
    rw [hinfo2, hinfo1] at hset
    obtain ⟨hrest, hinfo3⟩ := ihRest (body.run s cid c1).1 (by rwa [hset]) (by rwa [hset])
    refine ⟨?_, hinfo3.trans hset⟩
    rw [hrest, clientStream_setDeferredReply, hbody, hstream1, append_assoc,
      fill_append _ _ _ _ hfresh, singleton_append, fill_hole]
    simp [Writing.text]

lemma hole_mem_nodesStream (nodes : List Node) (address : Nat) :
    Item.hole address ∈ nodesStream nodes ↔ Node.placeholder address ∈ nodes := by
  simp only [nodesStream, mem_flatMap]
  constructor
  · rintro ⟨node, hnode, hmem⟩
    cases node with
    | placeholder other =>
      simp only [nodeItems, mem_singleton, Item.hole.injEq] at hmem
      rwa [hmem]
    | block b => exact absurd hmem (hole_notMem_solid _ _)
  · exact fun hmem => ⟨_, hmem, by simp [nodeItems]⟩

/-- For a client that takes replies and is not in pushing mode: the output grows
by the texts in their places, the placeholders are those that were there before,
and no block holds more than its size. -/
theorem deferred_texts_in_place (s : Server) (cid : ClientId) (c : Client) (w : Writing)
    (hc : accepts c.info = true) (hpush : c.info.flags.pushing = false) :
    (w.run s cid c).2.output = c.output ++ w.text ∧
      (∀ address, Node.placeholder address ∈ (w.run s cid c).2.reply ↔
        Node.placeholder address ∈ c.reply) ∧
      ∀ b, Node.block b ∈ (w.run s cid c).2.reply → b.buf.length ≤ b.size := by
  obtain ⟨hstream, -⟩ := stream_writing cid w s hc hpush
  refine ⟨?_, fun address => ?_, fun b _ => b.fits⟩
  · rw [← text_clientStream, hstream, text_append, text_solid, text_clientStream]
  have hholes : ∀ c' : Client, Node.placeholder address ∈ c'.reply ↔
      Item.hole address ∈ clientStream c' := by
    intro c'
    rw [clientStream, mem_append, or_iff_right (hole_notMem_solid _ _), hole_mem_nodesStream]
  rw [hholes, hholes, hstream, mem_append, or_iff_left (hole_notMem_solid _ _)]

private def exactRoom : Allocator := ⟨id, fun _ => Nat.le_refl _⟩

private def nested : Writing :=
  .append exactRoom [97] (.deferred exactRoom exactRoom [98]
    (.deferred exactRoom exactRoom [99] (.append exactRoom [100] .done) .done) .done)

private def blank (closing : Bool) : Client :=
  ⟨{ flags := { closeAfterReply := closing } }, ⟨[], 0, Nat.le_refl _⟩, []⟩

theorem deferred_texts_in_place_nested :
    (nested.run ⟨{}, exactRoom, []⟩ 1 (blank false)).2.output = [97, 98, 99, 100] :=
  (deferred_texts_in_place ⟨{}, exactRoom, []⟩ 1 (blank false) nested (by decide) rfl).1

/-- A client that is to be closed after its reply takes no more appends. -/
theorem closing_client_loses_appends :
    (nested.run ⟨{}, exactRoom, []⟩ 1 (blank true)).2.output = [98, 99] := by
  decide +kernel

end Dice.Ports.ReplyStream
