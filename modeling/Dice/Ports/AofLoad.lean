import Dice.Ports.Resp

/-!
# Loading an append only file

`loadSingleAppendOnlyFile` replays a file: an RDB preamble if the file starts
with one, then commands in the wire format, with annotation lines between
them.  `MULTI` makes the commands after it wait for their `EXEC`.  A file that
ends in the middle of a command or of a transaction is cut at the offset of the
last good command, which is kept in two variables that follow the loop.
-/

namespace Dice.Ports.AofLoad

open Verified.CString NumberParsing Resp

/-- What matters about a command here. -/
inductive CommandKind
  | multi
  | exec
  | other
  deriving DecidableEq, Repr

/-- The command table, the RDB loader (how many bytes it takes from the file,
if it succeeds) and the configuration. -/
structure LoadEnv where
  lookupCommand : List Bytes → Option CommandKind
  rdbLoadRio : Bytes → Option Nat
  aofLoadTruncated : Bool

/-- The return values, and the end of the process. -/
inductive AofStatus
  | ok
  | truncated
  | empty
  | failed
  | aborted
  deriving DecidableEq, Repr

/-- The bytes `fgets` puts into `buf`, of `AOF_ANNOTATION_LINE_MAX_LEN`. -/
def lineMax : Nat := 1023

/-- One round of the loop, up to the command lookup. -/
inductive ReadResult
  | endOfFile
  | annotationLine (rest : Bytes)
  | command (argv : List Bytes) (rest : Bytes)
  | shortRead
  | readError
  | formatError
  | outOfMemory
  deriving DecidableEq, Repr

/-- The loop over the arguments of a command. -/
def readArgs : Nat → List Bytes → Bytes → ReadResult
  | 0, argv, input => .command argv input
  | argc + 1, argv, input =>
    if input.isEmpty then .shortRead
    else
      let (buf, rest) := takeLine lineMax input
      if buf.head? ≠ some 36 then .formatError
      else
        let len := atoll buf.tail
        -- a negative number is a huge `unsigned long` for `sdsnewlen`
        if len < 0 then .outOfMemory
        else if rest.length < len.toNat then .shortRead
        else
          let after := rest.drop len.toNat
          if after.length < 2 then .shortRead
          else readArgs argc (argv ++ [rest.take len.toNat]) (after.drop 2)

/-- The next annotation or command. -/
def readCommand (input : Bytes) : ReadResult :=
  if input.isEmpty then .endOfFile
  else
    let (buf, rest) := takeLine lineMax input
    if buf.head? = some 35 then .annotationLine rest
    else if buf.head? ≠ some 42 then .formatError
    else if buf.tail.headD 0 = 0 then
      -- `readerr`: whether `feof` holds depends on how `fgets` ended
      if rest.isEmpty && !buf.contains 10 && buf.length < lineMax then .shortRead
      else .readError
    else
      let argc := atoi buf.tail
      if argc < 1 then .formatError else readArgs argc.toNat [] rest

/-- `executed` is the log of what has been run; `queued` is the transaction of
the fake client, if it is in one. -/
structure LoadState where
  executed : List (List Bytes) := []
  queued : Option (List (List Bytes)) := none
  validUpTo : Nat := 0
  validBeforeMulti : Nat := 0
  deriving DecidableEq, Repr

/-- A command that was read; `offset` is `ftello` behind it.  There is no
successor for a command that is not known. -/
def runCommand (env : LoadEnv) (offset : Nat) (st : LoadState) (argv : List Bytes) :
    Option LoadState :=
  (env.lookupCommand argv).map fun kind =>
    let st := if kind = .multi then { st with validBeforeMulti := st.validUpTo } else st
    let st :=
      match st.queued, kind with
      | some queue, .exec => { st with executed := st.executed ++ queue, queued := none }
      | some queue, _ => { st with queued := some (queue ++ [argv]) }
      | none, .multi => { st with queued := some [] }
      -- "EXEC without MULTI"
      | none, .exec => st
      | none, .other => { st with executed := st.executed ++ [argv] }
    if env.aofLoadTruncated then { st with validUpTo := offset } else st

/-- How the loop is left. -/
inductive LoopEnd
  | endOfFile
  | shortRead
  | failed
  | aborted
  deriving DecidableEq, Repr

/-- The loop; every round takes at least one byte, so the length of the file
bounds `fuel`. -/
def loadLoop (env : LoadEnv) (size : Nat) : Nat → LoadState → Bytes → LoadState × LoopEnd
  | 0, st, _ => (st, .failed)
  | fuel + 1, st, input =>
    match readCommand input with
    | .endOfFile => (st, .endOfFile)
    | .annotationLine rest => loadLoop env size fuel st rest
    | .command argv rest =>
      match runCommand env (size - rest.length) st argv with
      | none => (st, .failed)
      | some st => loadLoop env size fuel st rest
    | .shortRead => (st, .shortRead)
    | .readError | .formatError => (st, .failed)
    | .outOfMemory => (st, .aborted)

/-- What a call leaves behind: the RDB data that was loaded, the commands that
were run, and the file. -/
structure LoadResult where
  status : AofStatus
  preamble : Bytes := []
  executed : List (List Bytes) := []
  file : Bytes
  deriving DecidableEq, Repr

/-- `uxeof`, for a `truncate` that succeeds. -/
def unexpectedEof (env : LoadEnv) (preamble : Bytes) (executed : List (List Bytes))
    (validUpTo : Nat) (file : Bytes) : LoadResult :=
  if env.aofLoadTruncated then
    { status := .truncated, preamble, executed, file := file.take validUpTo }
  else { status := .failed, preamble, executed, file }

/-- Where the commands start: after the RDB data, if there is any. -/
def commandsStart (env : LoadEnv) (file : Bytes) : Option Nat :=
  if file.take 5 = ofString "REDIS" then env.rdbLoadRio file else some 0

/-- `loadSingleAppendOnlyFile`, for a file that exists and can be read. -/
def loadSingleAppendOnlyFile (env : LoadEnv) (file : Bytes) : LoadResult :=
  if file.isEmpty then { status := .empty, file }
  else
    match commandsStart env file with
    | none => { status := .failed, file }
    | some start =>
      let preamble := file.take start
      let (st, loopEnd) := loadLoop env file.length (file.length + 1) {} (file.drop start)
      match loopEnd with
      | .endOfFile =>
        if st.queued.isSome then
          unexpectedEof env preamble st.executed st.validBeforeMulti file
        else { status := .ok, preamble, executed := st.executed, file }
      | .shortRead => unexpectedEof env preamble st.executed st.validUpTo file
      | .failed => { status := .failed, preamble, executed := st.executed, file }
      | .aborted => { status := .aborted, preamble, executed := st.executed, file }

/-- The line of `genAofTimestampAnnotationIfNeeded`. -/
def timestampLine (unixtime : Int) : Bytes := ofString "#TS:" ++ decimalInt unixtime ++ crlf

end Dice.Ports.AofLoad
