import Dice.Ports.Resp

/-!
# The reply buffers of a client

A reply is appended to the static buffer of a client, then to a list of blocks.
A length that is not known yet is a node without a block in that list, filled in
later and glued to a neighbour when it fits.  While a push message is written to
the client whose command is being executed, plain appends go to a list of the
server instead, and `afterCommand` joins that list to the reply of the client.

The output-buffer limits are not part of the model.
-/

namespace Dice.Ports.ReplyBuffers

open Verified.CString Resp

abbrev ClientId := Nat

/-- `zmalloc_usable`: the room of a block for which `n` bytes were asked. -/
structure Allocator where
  room : Nat → Nat
  le_room : ∀ n, n ≤ room n

/-- `clientReplyBlock`; `used` is the length of `buf`. -/
structure ReplyBlock where
  buf : Bytes
  size : Nat
  fits : buf.length ≤ size

/-- A node of a reply list.  `listNodeValue` is NULL for the placeholder of a
deferred length, which is known by its address. -/
inductive Node
  | placeholder (address : Nat)
  | block (b : ReplyBlock)

/-- `PROTO_REPLY_CHUNK_BYTES`. -/
def protoReplyChunkBytes : Nat := 16 * 1024

/-- The bits of `ClientFlags` that decide whether a client takes replies. -/
structure ClientFlags where
  script : Bool := false
  module : Bool := false
  closeAsap : Bool := false
  closeAfterReply : Bool := false
  replyOff : Bool := false
  replySkip : Bool := false
  pushing : Bool := false
  primary : Bool := false
  primaryForceReply : Bool := false
  fake : Bool := false
  replica : Bool := false
  monitor : Bool := false
deriving DecidableEq

/-- The protocol version a client speaks. -/
inductive Version
  | resp2
  | resp3
deriving DecidableEq

/-- What a client is, apart from its output. -/
structure ClientInfo where
  flags : ClientFlags := {}
  resp : Version := .resp2
  /-- `id == CLIENT_ID_CACHED_RESPONSE` -/
  cachedResponse : Bool := false
  /-- `io_write_state == CLIENT_PENDING_IO` -/
  pendingIo : Bool := false
deriving DecidableEq

/-- The static buffer: `bufpos` is the length of `buf`. -/
structure StaticBuffer where
  buf : Bytes
  usableSize : Nat
  fits : buf.length ≤ usableSize

structure Client where
  info : ClientInfo
  static : StaticBuffer
  reply : List Node

/-- The command functions `cmdHasPushAsReply` compares with. -/
inductive Proc
  | subscribeCommand
  | unsubscribeCommand
  | psubscribeCommand
  | punsubscribeCommand
  | ssubscribeCommand
  | sunsubscribeCommand
  | other
deriving DecidableEq

/-- What the server is doing.  `executingClient` holds the command of
`server.executing_client`, if there is one. -/
structure Context where
  currentClient : Option ClientId := none
  executingClient : Option (Option Proc) := none
  debugClientEnforceReplyList : Bool := false
deriving DecidableEq

structure Server where
  context : Context
  allocator : Allocator
  pendingPushMessages : List Node

/-- Copy into the block what still fits. -/
def ReplyBlock.put (b : ReplyBlock) (s : Bytes) : ReplyBlock where
  buf := b.buf ++ s.take (b.size - b.buf.length)
  size := b.size
  fits := by
    have := b.fits
    simp only [List.length_append, List.length_take]
    omega

/-- What did not fit. -/
def ReplyBlock.rest (b : ReplyBlock) (s : Bytes) : Bytes := s.drop (b.size - b.buf.length)

variable (s : Server) (cid : ClientId) (allocator : Allocator) (c : Client)

/-- A new block that holds `s`, allocated for `request` bytes. -/
def ReplyBlock.new (s : Bytes) (request : Nat) (h : s.length ≤ request) : ReplyBlock :=
  ⟨s, allocator.room request, Nat.le_trans h (allocator.le_room request)⟩

/-- `s` moved in front of what the block holds. -/
def ReplyBlock.prepend (b : ReplyBlock) (s : Bytes)
    (h : s.length ≤ b.size - b.buf.length) : ReplyBlock where
  buf := s ++ b.buf
  size := b.size
  fits := by
    have := b.fits
    simp only [List.length_append]
    omega

/-- `prepareClientToWrite(c) == C_OK`. -/
def prepareClientToWrite (c : ClientInfo) : Bool :=
  if c.flags.script || c.flags.module then true
  else if c.flags.closeAsap then false
  else if (c.flags.replyOff || c.flags.replySkip) && !c.flags.pushing then false
  else if c.flags.primary && !c.flags.primaryForceReply then false
  else if c.flags.fake && !c.cachedResponse then false
  else true

/-- `getClientType(c) == CLIENT_TYPE_REPLICA`. -/
def isReplica (c : ClientInfo) : Bool := c.flags.replica && !c.flags.monitor

def cmdHasPushAsReply : Option Proc → Bool
  | none => false
  | some .other => false
  | some _ => true

/-- `_addReplyProtoToList`. -/
def addReplyProtoToList (nodes : List Node) (s : Bytes) : List Node :=
  match nodes.getLast? with
  | some (.block tail) =>
    let nodes := nodes.dropLast ++ [.block (tail.put s)]
    let s := tail.rest s
    if s = [] then nodes
    else nodes ++ [.block (.new allocator s (max s.length protoReplyChunkBytes)
      (Nat.le_max_left _ _))]
  | _ =>
    if s = [] then nodes
    else nodes ++ [.block (.new allocator s (max s.length protoReplyChunkBytes)
      (Nat.le_max_left _ _))]

/-- `_addReplyToBuffer`: the client and what was not copied. -/
def addReplyToBuffer (context : Context) (c : Client) (s : Bytes) : Client × Bytes :=
  if context.debugClientEnforceReplyList then (c, s)
  else if c.reply.length > 0 then (c, s)
  else
    let available := c.static.usableSize - c.static.buf.length
    ({ c with static :=
        { buf := c.static.buf ++ s.take available
          usableSize := c.static.usableSize
          fits := by
            have := c.static.fits
            simp only [List.length_append, List.length_take]
            omega } },
      s.drop available)

/-- A push to the client whose command is being executed is postponed. -/
def postponed (context : Context) (cid : ClientId) (pushing : Bool) : Bool :=
  pushing && context.currentClient == some cid &&
    match context.executingClient with
    | none => false
    | some cmd => !cmdHasPushAsReply cmd

/-- `freeClientAsync` as far as replies notice it. -/
def closeAsap (c : Client) : Client :=
  { c with info := { c.info with flags := { c.info.flags with closeAsap := true } } }

/-- `_addReplyToBufferOrList`. -/
def addReplyToBufferOrList (bytes : Bytes) : Server × Client :=
  if c.info.flags.closeAfterReply then (s, c)
  else if isReplica c.info then (s, closeAsap c)
  else if postponed s.context cid c.info.flags.pushing then
    ({ s with pendingPushMessages :=
        addReplyProtoToList s.allocator s.pendingPushMessages bytes }, c)
  else
    let (c, rest) := addReplyToBuffer s.context c bytes
    if rest.length > 0 then
      (s, { c with reply := addReplyProtoToList s.allocator c.reply rest })
    else (s, c)

/-- `addReplyProto`, and `addReply` of a string object. -/
def addReplyProto (bytes : Bytes) : Server × Client :=
  if prepareClientToWrite c.info then addReplyToBufferOrList s cid c bytes else (s, c)

/-! ## Lengths -/

/-- `OBJ_SHARED_BULKHDR_LEN`. -/
def objSharedBulkhdrLen : Nat := 32

/-- `OBJ_SHARED_HDR_STRLEN`. -/
def objSharedHdrStrlen (n : Nat) : Nat := if n < 10 then 4 else 5

/-- The header of a length: for small ones of the marks in `shared` the first
bytes of a shared object, otherwise printed. -/
def lengthHeader (shared : List UInt8) (mark : UInt8) (n : Nat) : Bytes :=
  if mark ∈ shared ∧ n < objSharedBulkhdrLen then
    (header mark n).take (objSharedHdrStrlen n)
  else header mark n

/-- The aggregate types that can have a deferred length. -/
inductive Aggregate
  | array
  | map
  | set
  | attribute
  | push
deriving DecidableEq

def Aggregate.mark : Aggregate → UInt8
  | .array => 42
  | .map => 37
  | .set => 126
  | .attribute => 124
  | .push => 62

/-- `_addReplyLongLongWithPrefix` for a length: `*`, `$`, `%` and `~` are
shared. -/
def addReplyLengthWithMark (n : Nat) (mark : UInt8) : Server × Client :=
  addReplyToBufferOrList s cid c (lengthHeader [42, 36, 37, 126] mark n)

def addReplyAggregateLen (n : Nat) (kind : Aggregate) : Server × Client :=
  if prepareClientToWrite c.info then addReplyLengthWithMark s cid c n kind.mark
  else (s, c)

def addReplyBulkCBuffer (p : Bytes) : Server × Client :=
  if prepareClientToWrite c.info then
    let (s, c) := addReplyLengthWithMark s cid c p.length 36
    let (s, c) := addReplyToBufferOrList s cid c p
    addReplyToBufferOrList s cid c crlf
  else (s, c)

def addReplyBulkCString (p : Bytes) : Server × Client := addReplyBulkCBuffer s cid c (cstr p)

def trimReplyUnusedTailSpace : Client :=
  match c.reply.getLast? with
  | some (.block tail) =>
    if tail.size - tail.buf.length > tail.size / 4 &&
        tail.buf.length < protoReplyChunkBytes && !c.info.pendingIo then
      { c with reply := c.reply.dropLast ++
          [.block (.new allocator tail.buf tail.buf.length (Nat.le_refl _))] }
    else c
  | _ => c

def Node.address : Node → Nat
  | .placeholder address => address
  | .block _ => 0

/-- The address of a new node: not that of a live one. -/
def freshAddress (nodes : List Node) : Nat := (nodes.map Node.address).foldr max 0 + 1

/-- `addReplyDeferredLen`: the client and the placeholder, NULL when the client
takes no replies. -/
def addReplyDeferredLen : Client × Option Nat :=
  if prepareClientToWrite c.info then
    if isReplica c.info then (closeAsap c, none)
    else
      let c := trimReplyUnusedTailSpace allocator c
      let address := freshAddress c.reply
      ({ c with reply := c.reply ++ [.placeholder address] }, some address)
  else (c, none)

/-- The node is the placeholder of that address. -/
def Node.isAt (address : Nat) : Node → Bool
  | .placeholder other => other == address
  | .block _ => false

/-- The first half of `setDeferredReply`: suffix the text to the previous node.
Gives the nodes in front of the placeholder and the text that is left; none when
all of it was glued. -/
def glueToPrev (pendingIo : Bool) (before : List Node) (s : Bytes) : List Node × Option Bytes :=
  match before.getLast? with
  | some (.block prev) =>
    if prev.buf.length < prev.size && !pendingIo then
      (before.dropLast ++ [.block (prev.put s)],
        if (prev.rest s).length = 0 then none else some (prev.rest s))
    else (before, some s)
  | _ => (before, some s)

/-- The second half of `setDeferredReply`: the node that takes the place of the
placeholder, or the text in front of the next one. -/
def glueToNext (pendingIo : Bool) (after : List Node) (s : Bytes) : List Node :=
  match after with
  | .block next :: rest =>
    if h : s.length ≤ next.size - next.buf.length ∧
        next.buf.length < protoReplyChunkBytes * 4 ∧ pendingIo = false then
      .block (next.prepend s h.1) :: rest
    else .block (.new allocator s s.length (Nat.le_refl _)) :: after
  | _ => .block (.new allocator s s.length (Nat.le_refl _)) :: after

/-- `setDeferredReply`.  The source asserts that the node is a placeholder of
the list; any other node leaves the model unchanged. -/
def setDeferredReply (node : Option Nat) (s : Bytes) : Client :=
  match node with
  | none => c
  | some address =>
    let before := c.reply.takeWhile fun n => !n.isAt address
    match c.reply.dropWhile fun n => !n.isAt address with
    | [] => c
    | _ :: after =>
      match glueToPrev c.info.pendingIo before s with
      | (before, none) => { c with reply := before ++ after }
      | (before, some s) =>
        { c with reply :=
            before ++ glueToNext allocator c.info.pendingIo after s }

/-- `setDeferredAggregateLen`: `*`, `%` and `~` are shared. -/
def setDeferredAggregateLen (node : Option Nat) (n : Nat) (kind : Aggregate) : Client :=
  setDeferredReply allocator c node (lengthHeader [42, 37, 126] kind.mark n)

/-- What a command function does to the output: appends, and lengths set after
what they announce has been written, well nested. -/
inductive Reply
  | done
  | append (bytes : Bytes) (rest : Reply)
  | deferred (kind : Aggregate) (n : Nat) (body rest : Reply)
deriving DecidableEq

/-- The command function at work. -/
def runReply (s : Server) (cid : ClientId) (c : Client) : Reply → Server × Client
  | .done => (s, c)
  | .append bytes rest =>
    let (s, c) := addReplyProto s cid c bytes
    runReply s cid c rest
  | .deferred kind n body rest =>
    let (c, node) := addReplyDeferredLen s.allocator c
    let (s, c) := runReply s cid c body
    let c := setDeferredAggregateLen s.allocator c node n kind
    runReply s cid c rest

/-- The reply as it is meant: every length at its own position. -/
def Reply.text : Reply → Bytes
  | .done => []
  | .append bytes rest => bytes ++ rest.text
  | .deferred kind n body rest => header kind.mark n ++ body.text ++ rest.text

/-- The lengths alone, in order. -/
def Reply.lengths : Reply → Bytes
  | .done => []
  | .append _ rest => rest.lengths
  | .deferred kind n body rest => header kind.mark n ++ body.lengths ++ rest.lengths

/-- The appends alone, in order. -/
def Reply.appends : Reply → Bytes
  | .done => []
  | .append bytes rest => bytes ++ rest.appends
  | .deferred _ _ body rest => body.appends ++ rest.appends

/-- Some length is deferred. -/
def Reply.hasDeferred : Reply → Bool
  | .done => false
  | .append _ rest => rest.hasDeferred
  | .deferred _ _ _ _ => true

/-- The server and the output of every client. -/
structure World where
  server : Server
  clients : ClientId → Client

/-- Let a function of one client act. -/
def World.on (w : World) (cid : ClientId) (f : Server → Client → Server × Client) : World :=
  let (s, c) := f w.server (w.clients cid)
  ⟨s, Function.update w.clients cid c⟩

/-- One operation on the output of a client. -/
inductive ReplyOp
  | info (cid : ClientId) (info : ClientInfo)
  | append (cid : ClientId) (bytes : Bytes)
  | deferredLen (cid : ClientId)
  | setDeferred (cid : ClientId) (node : Nat) (n : Nat) (kind : Aggregate)

def applyOp (w : World) : ReplyOp → World
  | .info cid info => w.on cid fun s c => (s, { c with info := info })
  | .append cid bytes => w.on cid fun s c => addReplyProto s cid c bytes
  | .deferredLen cid => w.on cid fun s c => (s, (addReplyDeferredLen s.allocator c).1)
  | .setDeferred cid node n kind =>
    w.on cid fun s c => (s, setDeferredAggregateLen s.allocator c (some node) n kind)

/-- `afterCommand` of the current client, when the call is not nested. -/
def afterCommand (w : World) : World :=
  match w.server.context.currentClient with
  | none => w
  | some cid =>
    w.on cid fun s c =>
      ({ s with pendingPushMessages := [] },
        { c with reply := c.reply ++ s.pendingPushMessages })

def Node.text : Node → Bytes
  | .placeholder _ => []
  | .block b => b.buf

/-- The bytes placed in the output of a client. -/
def Client.output : Bytes := c.static.buf ++ c.reply.flatMap Node.text

end Dice.Ports.ReplyBuffers
