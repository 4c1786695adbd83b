import Dice.Ports.Resp
import Dice.Ports.Sds

/-!
# The query buffer of a client

`processInputBuffer` cuts the bytes a client has sent into requests.  How far a
request has been read is kept in the client (`reqtype`, `multibulklen`,
`bulklen`, `argv`, `qb_pos`), and the buffer itself may be the one the thread
shares between clients, the client's own, or absent.

The commands of the client neither block nor close it; `processCommand` records
the arguments it is given.  `none` stands for a failed assertion or a write
outside `argv`.
-/

namespace Dice.Ports.QueryBuffer

open Verified.CString NumberParsing Sds

/-- `PROTO_INLINE_MAX_SIZE`. -/
def protoInlineMaxSize : Nat := 1024 * 64

/-- `PROTO_MBULK_BIG_ARG`. -/
def protoMbulkBigArg : Nat := 1024 * 32

/-- `INT_MAX`. -/
def intMax : Nat := 2 ^ 31 - 1

/-- `c->querybuf`: NULL, `thread_shared_qb`, or a buffer of the client. -/
inductive QueryBuf
  | null
  | shared (bytes : Bytes)
  | own (bytes : Bytes)
deriving DecidableEq

def QueryBuf.bytes : QueryBuf → Bytes
  | .null => []
  | .shared bytes => bytes
  | .own bytes => bytes

def QueryBuf.isShared : QueryBuf → Bool
  | .shared _ => true
  | _ => false

/-- `PROTO_REQ_INLINE` and `PROTO_REQ_MULTIBULK`. -/
inductive ReqType
  | inline
  | multibulk
deriving DecidableEq

/-- The `READ_FLAGS_ERROR_*` of the parser. -/
inductive ParseError
  | bigInlineRequest
  | bigMultibulk
  | invalidMultibulkLen
  | unauthenticatedMultibulkLen
  | unauthenticatedBulkLen
  | bigBulkCount
  | mbulkUnexpectedCharacter
  | mbulkInvalidBulkLen
  | unbalancedQuotes
  | unexpectedInlineFromPrimary
deriving DecidableEq

/-- The outcome of parsing in `c->read_flags`. -/
structure ReadFlags where
  error : Option ParseError := none
  inlineZeroQueryLen : Bool := false
  parsingNegativeMbulkLen : Bool := false
  parsingCompleted : Bool := false
deriving DecidableEq

/-- What the parser is told about the client. -/
structure Mode where
  primary : Bool := false
  authRequired : Bool := false
  protoMaxBulkLen : Nat := 512 * 1024 * 1024
  /-- the option is a `long long` -/
  maxBulkLen_le : protoMaxBulkLen ≤ llongMax := by decide

/-- A call of `processCommand`: how the request was read, its arguments, and how
many bytes of the buffer were left behind it. -/
structure Delivery where
  reqtype : Option ReqType
  argv : List Bytes
  left : Nat
deriving DecidableEq

structure Client where
  querybuf : QueryBuf := .null
  qbPos : Nat := 0
  reqtype : Option ReqType := none
  multibulklen : Nat := 0
  /-- `none` is -1 -/
  bulklen : Option Nat := none
  argv : List Bytes := []
  argvLen : Nat := 0
  argvLenSum : Nat := 0
  netInputBytesCurrCmd : Nat := 0
  closeAfterReply : Bool := false
  errorReplies : List Bytes := []
  delivered : List Delivery := []
deriving DecidableEq

variable (m : Mode) (c : Client)

/-- The bytes from `qb_pos` on. -/
def Client.unparsed : Bytes := c.querybuf.bytes.drop c.qbPos

/-- The carriage return in front of the line end belongs to it. -/
def endsInCr (text : Bytes) (newline : Nat) : Bool := newline != 0 && text[newline - 1]? == some 13

def processInlineBuffer : Client × ReadFlags :=
  match strchr 10 c.unparsed with
  | none =>
    if c.unparsed.length > protoInlineMaxSize then
      (c, { error := some .bigInlineRequest })
    else (c, {})
  | some newline =>
    let withCr := endsInCr c.unparsed newline
    let querylen := if withCr then newline - 1 else newline
    let linefeedChars := if withCr then 2 else 1
    match sdssplitargs (c.unparsed.take querylen) with
    | none => (c, { error := some .unbalancedQuotes })
    | some argv =>
      if querylen ≠ 0 && m.primary then
        (c, { error := some .unexpectedInlineFromPrimary })
      else
        let argvLenSum :=
          if argv.length = 0 then c.argvLenSum else (argv.map List.length).sum
        ({ c with
            qbPos := c.qbPos + querylen + linefeedChars
            argv := argv
            argvLen := if argv.length = 0 then c.argvLen else argv.length
            argvLenSum := argvLenSum
            netInputBytesCurrCmd := argvLenSum + argv.length + 1 },
          { inlineZeroQueryLen := querylen == 0, parsingCompleted := true })

/-- The parser dies, returns, or goes on. -/
inductive Parse
  | crash
  | stop (c : Client) (flags : ReadFlags)
  | go (c : Client)

/-- The first part of `processMultibulkBuffer`: the number of arguments. -/
def readMultibulkLen : Parse :=
  if c.argv ≠ [] then .crash
  else
    match strchr 13 c.unparsed with
    | none =>
      if c.unparsed.length > protoInlineMaxSize then
        .stop c { error := some .bigMultibulk }
      else .stop c {}
    | some newline =>
      -- the line feed must be there as well
      if newline + 2 > c.unparsed.length then .stop c {}
      else if c.unparsed.head? ≠ some 42 then .crash
      else
        let text := (c.unparsed.take newline).drop 1
        match string2ll text with
        | none => .stop c { error := some .invalidMultibulkLen }
        | some ll =>
          if ll > intMax then .stop c { error := some .invalidMultibulkLen }
          else if ll > 10 && m.authRequired then
            .stop c { error := some .unauthenticatedMultibulkLen }
          else
            let c := { c with qbPos := c.qbPos + newline + 2 }
            if ll ≤ 0 then .stop c { parsingNegativeMbulkLen := true }
            else
              .go { c with
                multibulklen := ll.toNat
                argvLen := min ll.toNat 1024
                argvLenSum := 0
                netInputBytesCurrCmd := c.netInputBytesCurrCmd + (text.length + 1) }

/-- The buffer is made to start with a large argument, if it holds nothing
else. -/
def alignBigArg (ll : Nat) : Client :=
  if !m.primary && protoMbulkBigArg ≤ ll && c.unparsed.length ≤ ll + 2 then
    { c with querybuf := .own c.unparsed, qbPos := 0 }
  else c

/-- The length of the next argument, if it is not known yet. -/
def readBulkLen : Parse :=
  match c.bulklen with
  | some _ => .go c
  | none =>
    match strchr 13 c.unparsed with
    | none =>
      if c.unparsed.length > protoInlineMaxSize then
        .stop c { error := some .bigBulkCount }
      else .stop c {}
    | some newline =>
      if newline + 2 > c.unparsed.length then .stop c {}
      else if c.unparsed.head? ≠ some 36 then
        .stop c { error := some .mbulkUnexpectedCharacter }
      else
        let text := (c.unparsed.take newline).drop 1
        match string2ll text with
        | none => .stop c { error := some .mbulkInvalidBulkLen }
        | some ll =>
          if ll < 0 || (!m.primary && ll > m.protoMaxBulkLen) then
            .stop c { error := some .mbulkInvalidBulkLen }
          else if ll > 16384 && m.authRequired then
            .stop c { error := some .unauthenticatedBulkLen }
          else
            let c := alignBigArg m { c with qbPos := c.qbPos + newline + 2 }
              ll.toNat
            .go { c with
              bulklen := some ll.toNat
              netInputBytesCurrCmd := c.netInputBytesCurrCmd + text.length }

/-- Room for one more argument. -/
def growArgv : Client :=
  if c.argv.length ≥ c.argvLen then
    let doubled := if c.argvLen < intMax / 2 then c.argvLen * 2 else intMax
    { c with argvLen := min doubled (c.argv.length + c.multibulklen) }
  else c

/-- The bytes of the next argument, whose length is known. -/
def readBulkArg : Parse :=
  match c.bulklen with
  | none => .crash
  | some bulklen =>
    if c.unparsed.length < bulklen + 2 then .stop c {}
    else
      let c := growArgv c
      if c.argv.length ≥ c.argvLen then .crash
      else if !m.primary && c.qbPos = 0 && protoMbulkBigArg ≤ bulklen &&
          c.querybuf.bytes.length = bulklen + 2 then
        -- the buffer itself becomes the argument, so it must not be shared
        if c.querybuf.isShared then .crash
        else
          .go { c with
            argv := c.argv ++ [c.querybuf.bytes.take bulklen]
            argvLenSum := c.argvLenSum + bulklen
            querybuf := .own []
            bulklen := none
            multibulklen := c.multibulklen - 1 }
      else
        .go { c with
          argv := c.argv ++ [c.unparsed.take bulklen]
          argvLenSum := c.argvLenSum + bulklen
          qbPos := c.qbPos + (bulklen + 2)
          bulklen := none
          multibulklen := c.multibulklen - 1 }

/-- The loop of `processMultibulkBuffer`, as often as there are arguments left
to read. -/
def readBulks (m : Mode) : Nat → Client → Option (Client × ReadFlags)
  | 0, c =>
    some ({ c with netInputBytesCurrCmd :=
        c.netInputBytesCurrCmd + (c.argvLenSum + (c.argv.length * 5 + 2)) },
      { parsingCompleted := true })
  | n + 1, c =>
    match readBulkLen m c with
    | .crash => none
    | .stop c flags => some (c, flags)
    | .go c =>
      match readBulkArg m c with
      | .crash => none
      | .stop c flags => some (c, flags)
      | .go c => readBulks m n c

def processMultibulkBuffer : Option (Client × ReadFlags) :=
  if c.multibulklen = 0 then
    match readMultibulkLen m c with
    | .crash => none
    | .stop c flags => some (c, flags)
    | .go c => readBulks m c.multibulklen c
  else readBulks m c.multibulklen c

/-! ## The input loop -/

def parseCommand : Option (Client × ReadFlags) :=
  let reqtype := c.reqtype.getD
    (if c.unparsed.head? = some 42 then .multibulk else .inline)
  let c := { c with reqtype := some reqtype }
  match reqtype with
  | .inline => some (processInlineBuffer m c)
  | .multibulk => processMultibulkBuffer m c

def resetClient : Client :=
  { c with
    argv := []
    argvLen := 0
    argvLenSum := 0
    reqtype := none
    multibulklen := 0
    netInputBytesCurrCmd := 0
    bulklen := none }

/-- The error replies of `handleParseError`; the primary gets none. -/
def parseErrorReply : ParseError → Option Bytes
  | .bigInlineRequest => some (ofString "Protocol error: too big inline request")
  | .bigMultibulk => some (ofString "Protocol error: too big mbulk count string")
  | .invalidMultibulkLen => some (ofString "Protocol error: invalid multibulk length")
  | .unauthenticatedMultibulkLen =>
    some (ofString "Protocol error: unauthenticated multibulk length")
  | .unauthenticatedBulkLen => some (ofString "Protocol error: unauthenticated bulk length")
  | .bigBulkCount => some (ofString "Protocol error: too big bulk count string")
  | .mbulkUnexpectedCharacter =>
    some (ofString "Protocol error: expected '$', got '" ++ c.unparsed.take 1 ++ ofString "'")
  | .mbulkInvalidBulkLen => some (ofString "Protocol error: invalid bulk length")
  | .unbalancedQuotes => some (ofString "Protocol error: unbalanced quotes in request")
  | .unexpectedInlineFromPrimary => none

/-- `handleParseError`: the reply, and `setProtocolError`. -/
def handleParseError (e : ParseError) : Client :=
  { c with
    errorReplies := c.errorReplies ++ (parseErrorReply c e).toList
    closeAfterReply := true }

inductive ParseResult
  | ok
  | err
  | needMore
deriving DecidableEq

def handleParseResults (flags : ReadFlags) : Client × ParseResult :=
  match flags.error with
  | some e => (handleParseError c e, .err)
  | none =>
    if flags.inlineZeroQueryLen then (resetClient c, .ok)
    else if flags.parsingNegativeMbulkLen then (resetClient c, .ok)
    else if flags.parsingCompleted then (c, .ok)
    else (c, .needMore)

/-- `resetSharedQueryBuf`: what is left makes the buffer the client's own. -/
def resetSharedQueryBuf : Client :=
  if c.unparsed.length > 0 then { c with querybuf := .own c.querybuf.bytes }
  else { c with querybuf := .null, qbPos := 0 }

/-- `processCommandAndResetClient`, for a command that is handled. -/
def processCommandAndResetClient : Client :=
  resetClient { c with delivered :=
    c.delivered ++ [⟨c.reqtype, c.argv, c.unparsed.length⟩] }

/-- The loop of `processInputBuffer`; every round that is followed by another
one consumes a byte. -/
def inputLoop (m : Mode) : Nat → Client → Option Client
  | 0, c => some c
  | fuel + 1, c =>
    if c.unparsed.length = 0 then some c
    else if c.closeAfterReply then some c
    else
      (parseCommand m c).bind fun (c, flags) =>
        match handleParseResults c flags with
        | (c, .ok) =>
          if c.argv = [] then inputLoop m fuel c
          else
            let c := if c.querybuf.isShared then resetSharedQueryBuf c else c
            inputLoop m fuel (processCommandAndResetClient c)
        | (c, _) => some c

def processInputBuffer : Option Client := inputLoop m c.unparsed.length c

/-- The request being read has a large argument. -/
def readsBigArg : Bool :=
  c.reqtype == some .multibulk && c.multibulklen != 0 &&
    match c.bulklen with
    | none => false
    | some bulklen => protoMbulkBigArg ≤ bulklen

/-- `readToQueryBuf`, when `connRead` gives these bytes. -/
def readToQueryBuf (bytes : Bytes) : Client :=
  match c.querybuf with
  | .null => { c with querybuf := if readsBigArg c then .own bytes else .shared bytes }
  | .shared old => { c with querybuf := .shared (old ++ bytes) }
  | .own old => { c with querybuf := .own (old ++ bytes) }

/-- `trimClientQueryBuffer`; it asserts that the position is inside the buffer. -/
def trimClientQueryBuffer : Option Client :=
  let c := if c.querybuf.isShared then resetSharedQueryBuf c else c
  match c.querybuf with
  | .null => some c
  | _ =>
    if c.qbPos ≤ c.querybuf.bytes.length then
      some (if c.qbPos > 0 then { c with querybuf := .own c.unparsed, qbPos := 0 }
        else c)
    else none

/-- One read event: read, process, trim. -/
def readQueryFromClient (bytes : Bytes) : Option Client :=
  (processInputBuffer m (readToQueryBuf c bytes)).bind trimClientQueryBuffer

end Dice.Ports.QueryBuffer
