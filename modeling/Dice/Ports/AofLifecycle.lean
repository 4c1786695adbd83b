import Dice.Ports.AofManifestText
import Dice.Verified.Faults

/-!
# The life of the append only files

A rewrite makes a new BASE file, turns what it replaces into HISTORY, and the
history is removed when the manifest that says so is on disk.  Every function
below works on the AOF directory through system calls that may fail, or be cut
off by a crash; what it holds in memory is passed along.

The manifest file is kept as the manifest it was written from.  Reading it
gives `reread`, which is what the loader makes of the text
(`AofManifestText.aofLoadManifestFromFile_text`).
-/

namespace Dice.Ports.AofLifecycle

open Verified CString Faults AofManifest AofManifestText

/-- The AOF directory: the names in it and the manifest file. -/
structure Disk where
  files : List Bytes := []
  manifest : Option Manifest := none
  deriving DecidableEq, Repr

/-- `open` with `O_CREAT`, or a rename from outside the directory. -/
def create (name : Bytes) (d : Disk) : Option Disk :=
  some { d with files := if name ∈ d.files then d.files else name :: d.files }

def remove (name : Bytes) (d : Disk) : Option Disk :=
  some { d with files := d.files.filter (· ≠ name) }

/-- `rename` inside the directory. -/
def rename (old new : Bytes) (d : Disk) : Option Disk :=
  if old ∈ d.files then (remove old d).bind (create new) else none

/-- How the system calls of one operation go. -/
structure Calls where
  mkdir : Outcome := .done
  writeBase : Outcome := .done
  openIncr : Outcome := .done
  renameBase : Outcome := .done
  renameIncr : Outcome := .done
  persist : Outcome := .done
  gcPersist : Outcome := .done
  unlink : Bytes → Outcome := fun _ => .done
  fork : Bool := true

/-- `aof_state`. -/
inductive AofState
  | off
  | on
  | waitRewrite
  deriving DecidableEq, Repr

/-- What the process knows.  `aofFd` says whether `aof_fd` is open, `aofChild`
whether a rewrite is running. -/
structure Server where
  aofManifest : Manifest
  aofFd : Bool
  aofState : AofState
  aofDisableAutoGc : Bool
  aofChild : Bool := false
  rewriteUseRdbPreamble : Bool := false
  deriving DecidableEq, Repr

variable (aofFilename : Bytes) (calls : Calls) (s : Server) (am : Manifest)

def getNewBaseFileNameAndMarkPreAsHistory (rdbPreamble : Bool) : Manifest × Bytes :=
  let seq := am.currBaseFileSeq + 1
  let name := baseFileName aofFilename seq rdbPreamble
  ({ am with
      historyAofList :=
        (am.baseAofInfo.map fun ai => { ai with fileType := .hist }).toList ++ am.historyAofList
      baseAofInfo := some ⟨name, seq, .base⟩
      currBaseFileSeq := seq
      dirty := true }, name)

def getNewIncrAofName : Manifest × Bytes :=
  let seq := am.currIncrFileSeq + 1
  let name := incrFileName aofFilename seq
  ({ am with
      incrAofList := am.incrAofList ++ [⟨name, seq, .incr⟩]
      currIncrFileSeq := seq
      dirty := true }, name)

def getLastIncrAofName : Manifest × Bytes :=
  match am.incrAofList.getLast? with
  | none => getNewIncrAofName aofFilename am
  | some ai => (am, ai.fileName)

/-- `markRewrittenIncrAofAsHistory`.  With `aof_fd` open the last file is the one
being written and stays. -/
def markRewrittenIncrAofAsHistory (aofFd : Bool) (am : Manifest) : Manifest :=
  if am.incrAofList.isEmpty then am
  else
    let rewritten := if aofFd then am.incrAofList.dropLast else am.incrAofList
    let kept := if aofFd then am.incrAofList.getLast?.toList else []
    { am with
      historyAofList := (rewritten.map fun ai => { ai with fileType := .hist }) ++ am.historyAofList
      incrAofList := kept
      dirty := true }

/-! ## Operations -/

/-- `persistAofManifest`.  The call stands for writing the temporary file,
renaming it into place and syncing the directory: it fails with the old
manifest in place, or after the rename. -/
def persistAofManifest (o : Outcome) (am : Manifest) : Prog Disk (Manifest × Bool) :=
  if am.dirty then do
    let ok ← call o fun d => some { d with manifest := some am }
    pure (if ok then { am with dirty := false } else am, ok)
  else pure (am, true)

/-- `bg_unlink`. -/
def bgUnlink (name : Bytes) : Prog Disk Bool := call (calls.unlink name) (remove name)

def aofDelHistoryFiles (aofDisableAutoGc : Bool) (am : Manifest) : Prog Disk Manifest :=
  if aofDisableAutoGc || am.historyAofList.isEmpty then pure am
  else do
    callAll (fun ai => bgUnlink calls ai.fileName) am.historyAofList
    let (am, _) ← persistAofManifest calls.gcPersist
      { am with historyAofList := [], dirty := true }
    pure am

def openNewIncrAofForAppend : Prog Disk (Server × Bool) :=
  match s.aofState with
  | .off => pure (s, true)
  | .waitRewrite => do
      let ok ← call calls.openIncr (create (getTempIncrAofName aofFilename))
      pure (if ok then { s with aofFd := true } else s, ok)
  | .on => do
      let (am, name) := getNewIncrAofName aofFilename s.aofManifest
      let ok ← call calls.openIncr (create name)
      if ok then do
        let (am, ok) ← persistAofManifest calls.persist am
        pure (if ok then { s with aofManifest := am, aofFd := true } else s, ok)
      else pure (s, false)

def rewriteAppendOnlyFileBackground (useRdbPreamble : Bool) (s : Server) :
    Prog Disk (Server × Bool) :=
  if s.aofChild then pure (s, false)
  else do
    let ok ← call calls.mkdir some
    if ok then do
      let (s, ok) ← openNewIncrAofForAppend aofFilename calls s
      if ok && calls.fork then
        pure ({ s with aofChild := true, rewriteUseRdbPreamble := useRdbPreamble }, true)
      else pure (s, false)
    else pure (s, false)

/-- The end of a successful rewrite: the new manifest goes to disk, or the new
files are removed again. -/
def installRewrite (newFiles : List Bytes) (s : Server) : Prog Disk Server := do
  let (am, ok) ← persistAofManifest calls.persist
    (markRewrittenIncrAofAsHistory s.aofFd am)
  if ok then do
    let am ← aofDelHistoryFiles calls s.aofDisableAutoGc am
    pure { s with
      aofManifest := am
      aofState := if s.aofState = .waitRewrite then .on else s.aofState }
  else do
    callAll (bgUnlink calls) newFiles
    pure s

/-- `backgroundRewriteDoneHandler` for a child that has succeeded, up to its
`cleanup`. -/
def rewriteSucceeded : Prog Disk Server := do
  let (am, baseName) :=
    getNewBaseFileNameAndMarkPreAsHistory aofFilename s.aofManifest s.rewriteUseRdbPreamble
  let ok ← call calls.renameBase (create baseName)
  if ok then
    if s.aofState = .waitRewrite then do
      let (am, incrName) := getNewIncrAofName aofFilename am
      let ok ← call calls.renameIncr (rename (getTempIncrAofName aofFilename) incrName)
      if ok then installRewrite calls am [baseName, incrName] s
      else do
        let _ ← bgUnlink calls baseName
        pure s
    else installRewrite calls am [baseName] s
  else pure s

/-- The `cleanup` of `backgroundRewriteDoneHandler`. -/
def rewriteCleanup : Prog Disk Server :=
  if s.aofState = .waitRewrite then do
    -- `aofDelTempIncrAofFile`
    let _ ← bgUnlink calls (getTempIncrAofName aofFilename)
    pure { s with aofChild := false }
  else pure { s with aofChild := false }

def backgroundRewriteDoneHandler (success : Bool) (s : Server) : Prog Disk Server :=
  if success then do
    let s ← rewriteSucceeded aofFilename calls s
    rewriteCleanup aofFilename calls s
  else rewriteCleanup aofFilename calls s

def stopAppendOnly : Server := { s with aofFd := false, aofState := .off, aofChild := false }

/-- `startAppendOnly`; `busy` stands for another child process or a running
transaction, which put the rewrite off. -/
def startAppendOnly (busy useRdbPreamble : Bool) (s : Server) : Prog Disk Server :=
  if busy then pure { s with aofState := .waitRewrite }
  else do
    let (s, ok) ← rewriteAppendOnlyFileBackground aofFilename calls useRdbPreamble
      { s with aofState := .waitRewrite, aofChild := false }
    pure (if ok then s else { s with aofState := .off })

def aofLoadManifestFromDisk (d : Disk) : Manifest := (d.manifest.map reread).getD {}

/-- A server that starts without any file makes a BASE file of what it has. -/
def createBaseIfEmpty (useRdbPreamble : Bool) (am : Manifest) : Prog Disk Manifest :=
  if am.baseAofInfo.isNone && am.incrAofList.isEmpty then do
    let (am, baseName) := getNewBaseFileNameAndMarkPreAsHistory aofFilename am useRdbPreamble
    let ok ← call calls.writeBase (create baseName)
    if ok then pure am else exit
  else pure am

/-- Open the last INCR file, or a new one. -/
def openLastIncr : Prog Disk (Manifest × Bool) := do
  let (am, incrName) := getLastIncrAofName aofFilename am
  let ok ← call calls.openIncr (create incrName)
  if ok then do
    let (am, ok) ← persistAofManifest calls.persist am
    if ok then pure (am, true) else exit
  else exit

/-- `aofOpenIfNeededOnServerStart`, and whether `aof_fd` is open after it. -/
def aofOpenIfNeededOnServerStart (appendonly useRdbPreamble : Bool) (am : Manifest) :
    Prog Disk (Manifest × Bool) :=
  if appendonly then do
    let ok ← call calls.mkdir some
    if ok then do
      let am ← createBaseIfEmpty aofFilename calls useRdbPreamble am
      openLastIncr aofFilename calls am
    else exit
  else pure (am, false)

/-- The start of the server, as far as the append only files go. -/
def startServer (appendonly aofDisableAutoGc useRdbPreamble : Bool) : Prog Disk Server := do
  let d ← get
  let (am, aofFd) ← aofOpenIfNeededOnServerStart aofFilename calls appendonly useRdbPreamble
    (aofLoadManifestFromDisk d)
  let am ← aofDelHistoryFiles calls aofDisableAutoGc am
  pure { aofManifest := am, aofFd, aofDisableAutoGc
         aofState := if appendonly then .on else .off }

/-- The directory, and the server unless it is down. -/
structure World where
  disk : Disk := {}
  server : Option Server := none
  deriving DecidableEq, Repr

inductive Event
  | rewriteStart (calls : Calls) (useRdbPreamble : Bool)
  | rewriteDone (calls : Calls) (success : Bool)
  | delHistory (calls : Calls)
  | setDisableAutoGc (calls : Calls) (value : Bool)
  | enable (calls : Calls) (busy useRdbPreamble : Bool)
  | disable
  | crash
  | restart (calls : Calls) (appendonly aofDisableAutoGc useRdbPreamble : Bool)

/-- What a running server does. -/
def serverStep : Event → Option (Prog Disk Server)
  | .rewriteStart calls useRdbPreamble => some do
      let (s, _) ← rewriteAppendOnlyFileBackground aofFilename calls useRdbPreamble s
      pure s
  | .rewriteDone calls success =>
    if s.aofChild then some (backgroundRewriteDoneHandler aofFilename calls success s)
    else none
  | .delHistory calls => some do
      let am ← aofDelHistoryFiles calls s.aofDisableAutoGc s.aofManifest
      pure { s with aofManifest := am }
  | .setDisableAutoGc calls value => some do
      -- `updateAofAutoGCEnabled`; with the value on `aofDelHistoryFiles` does nothing
      let am ← aofDelHistoryFiles calls value s.aofManifest
      pure { s with aofManifest := am, aofDisableAutoGc := value }
  | .enable calls busy useRdbPreamble =>
    if s.aofState = .off then
      some (startAppendOnly aofFilename calls busy useRdbPreamble s)
    else none
  | .disable => if s.aofState = .off then none else some (pure (stopAppendOnly s))
  | .crash => some exit
  | .restart .. => none

/-- One event; what is left of a dead server is the directory. -/
def step (w : World) (e : Event) : Option World :=
  let prog :=
    match w.server, e with
    | some s, e => serverStep aofFilename s e
    | none, .restart calls appendonly aofDisableAutoGc useRdbPreamble =>
      some (startServer aofFilename calls appendonly aofDisableAutoGc useRdbPreamble)
    | none, _ => none
  prog.map fun prog =>
    let (server, disk) := prog w.disk
    { disk, server }

end Dice.Ports.AofLifecycle
