import Dice.Verified.CString
import Dice.Verified.Index
import Dice.Verified.Run

/-!
# Clients blocked on keys

`blocked.c`.  A client that blocks on keys is appended to the list of every
key, and remembers the node it got in each list.  Nodes are numbered as they
are allocated.  Where an assertion of the source fails, or a pointer leads
nowhere, the functions have no result.

What the keys hold is a parameter of the model, of which only the type of the
object under a key is looked at here.  A command that is executed again is
described by what it does: it changes the data, signals keys, and may block once
more.  The loop that serves ready keys can be stopped after any number of
rounds, the fuel.
-/

namespace Dice.Ports.BlockedClients

open Function Verified CString Table Index

abbrev ClientId := Nat

abbrev DbId := Nat

/-- The address of a list node. -/
abbrev NodeId := Nat

/-- A node of the list of a key, and the client it holds. -/
structure Waiter where
  node : NodeId
  cid : ClientId
deriving DecidableEq, Repr

/-- `OBJ_STRING` and the others. -/
inductive ObjType where
  | string
  | list
  | set
  | zset
  | hash
  | module
  | stream
deriving DecidableEq, Repr

/-- `blocking_type`, without the types that have nothing to do with keys. -/
inductive BlockType where
  | none
  | list
  | module
  | stream
  | zset
deriving DecidableEq, Repr

def getBlockedTypeByType : ObjType → BlockType
  | .list => .list
  | .zset => .zset
  | .module => .module
  | .stream => .stream
  | _ => .none

/-- The part of a client that blocking uses: its flags and `bstate`. -/
structure Client where
  db : DbId := 0
  /-- `flag.module`: the client of a command called by a module. -/
  isModule : Bool := false
  /-- `flag.primary`. -/
  primary : Bool := false
  blocked : Bool := false
  /-- `flag.unblocked`. -/
  unblocked : Bool := false
  pendingCommand : Bool := false
  reexecutingCommand : Bool := false
  btype : BlockType := .none
  timeout : Nat := 0
  unblockOnNokey : Bool := false
  keys : Dict Bytes NodeId := ∅
  /-- `bc->unblocked` of `module_blocked_handle`. -/
  handleUnblocked : Bool := false
  /-- `bc->timeout_callback` of `module_blocked_handle` is set. -/
  timeoutCallback : Bool := false

/-- The server; `σ` is what the databases hold. -/
structure Server (σ : Type) where
  data : σ
  clients : Dict ClientId Client := ∅
  /-- `db->blocking_keys`. -/
  blockingKeys : DbId → Dict Bytes (List Waiter) := fun _ => ∅
  /-- `db->blocking_keys_unblock_on_nokey`. -/
  unblockOnNokey : DbId → Dict Bytes Int := fun _ => ∅
  /-- `db->ready_keys`. -/
  ready : DbId → Dict Bytes Unit := fun _ => ∅
  /-- `server.ready_keys`. -/
  readyKeys : List (DbId × Bytes) := []
  blockedClients : Int := 0
  blockedClientsByType : BlockType → Int := fun _ => 0
  /-- `server.unblocked_clients`. -/
  unblockedClients : List ClientId := []
  /-- `moduleUnblockedClients`, the handles that still have a client. -/
  moduleUnblockedClients : List ClientId := []
  /-- The next address. -/
  nextNode : NodeId := 0

variable {σ : Type}

variable (srv : Server σ) (cid : ClientId) (c : Client)

/-- Store a client. -/
def Server.put : Server σ := { srv with clients := srv.clients.insert cid c }

def blockClient (btype : BlockType) : Option (Server σ) :=
  if c.primary ∧ btype ≠ .module then none
  else some { srv.put cid { c with blocked := true, btype := btype } with
    blockedClients := if c.isModule then srv.blockedClients else srv.blockedClients + 1
    blockedClientsByType := update srv.blockedClientsByType btype
      (srv.blockedClientsByType btype + 1) }

/-- `dictIncrUnsignedIntegerVal` by one, with the entry created if needed. -/
def countNokey (d : Dict Bytes Int) (key : Bytes) : Dict Bytes Int :=
  match d.lookup key with
  | none => d.insert key 1
  | some n => d.insert key (n + 1)

/-- The body of the loop of `blockForKeys`, with the client that is being
blocked. -/
def blockForKey (nokey : Bool) (sc : Server σ × Client) (key : Bytes) : Server σ × Client :=
  let srv := sc.1
  let c := sc.2
  if (c.keys.lookup key).isSome then (srv, c)
  else
    let node := srv.nextNode
    let blocking := link (srv.blockingKeys c.db) key { node := node, cid := cid }
    let counts :=
      if nokey then countNokey (srv.unblockOnNokey c.db) key else srv.unblockOnNokey c.db
    ({ srv with
        nextNode := node + 1
        blockingKeys := update srv.blockingKeys c.db blocking
        unblockOnNokey := update srv.unblockOnNokey c.db counts },
      { c with keys := c.keys.insert key node })

/-- The arguments of `blockForKeys`, and for a module whether it has a timeout
callback. -/
structure Block where
  btype : BlockType
  keys : List Bytes
  timeout : Nat := 0
  nokey : Bool := false
  timeoutCallback : Bool := false

def blockForKeys (b : Block) : Option (Server σ) :=
  let c := if c.reexecutingCommand then c else { c with timeout := b.timeout }
  let sc := b.keys.foldl (blockForKey cid b.nokey) (srv, c)
  let c := { sc.2 with
    unblockOnNokey := b.nokey
    pendingCommand := if b.btype = .module then sc.2.pendingCommand else true
    handleUnblocked := false
    timeoutCallback := b.timeoutCallback }
  blockClient sc.1 cid c b.btype

/-- The reference count of a client that leaves the list of `key`. -/
def uncountNokey (d : Dict Bytes Int) (key : Bytes) : Option (Dict Bytes Int) :=
  (d.lookup key).map fun n => if n - 1 = 0 then d.erase key else d.insert key (n - 1)

/-- `releaseBlockedEntry` for the entry of `key`, without the removal from the
client's own table. -/
def releaseBlockedEntry (key : Bytes) (pos : NodeId) : Option (Server σ) :=
  ((srv.blockingKeys c.db).lookup key).bind fun l =>
    let blocking := update srv.blockingKeys c.db
      (unlink (srv.blockingKeys c.db) key ⟨pos, cid⟩)
    if l.erase ⟨pos, cid⟩ = [] then
      some { srv with
        blockingKeys := blocking
        unblockOnNokey := update srv.unblockOnNokey c.db
          ((srv.unblockOnNokey c.db).erase key) }
    else if c.unblockOnNokey then
      (uncountNokey (srv.unblockOnNokey c.db) key).map fun counts =>
        { srv with
          blockingKeys := blocking
          unblockOnNokey := update srv.unblockOnNokey c.db counts }
    else some { srv with blockingKeys := blocking }

/-- The loop of `unblockClientWaitingData` over the entries of `bstate.keys`. -/
def releaseEntries (cid : ClientId) (c : Client) :
    Server σ → List (Bytes × NodeId) → Option (Server σ)
  | srv, [] => some srv
  | srv, (key, pos) :: entries =>
    (releaseBlockedEntry srv cid c key pos).bind fun srv' => releaseEntries cid c srv' entries

/-- `unblockClientWaitingData`; the caller stores the client with no keys. -/
def unblockClientWaitingData : Option (Server σ) :=
  releaseEntries cid c srv (c.keys.entries.map fun e => (e.1, e.2))

def queueClientForReprocessing : Server σ :=
  if c.unblocked then srv.put cid c
  else { srv.put cid { c with unblocked := true } with
    unblockedClients := srv.unblockedClients ++ [cid] }

/-- The first lines of `unblockClient`: the client leaves the lists it is in. -/
def leaveLists : Option (Server σ) :=
  match c.btype with
  | .list | .zset | .stream => unblockClientWaitingData srv cid c
  | .module =>
    -- the handle is kept by the module, but has no client any more
    (unblockClientWaitingData srv cid c).map fun srv' =>
      { srv' with moduleUnblockedClients := srv'.moduleUnblockedClients.filter (· ≠ cid) }
  | .none => none

def unblockClient (queue : Bool) : Option (Server σ) :=
  (leaveLists srv cid c).map fun srv' =>
    let c' := { c with
      blocked := false, btype := .none, unblockOnNokey := false, keys := ∅
      handleUnblocked := false }
    let srv'' : Server σ := { srv' with
      blockedClients := if c.isModule then srv'.blockedClients else srv'.blockedClients - 1
      blockedClientsByType := update srv'.blockedClientsByType c.btype
        (srv'.blockedClientsByType c.btype - 1) }
    if queue then queueClientForReprocessing srv'' cid c' else srv''.put cid c'

def blockedClientMayTimeout : Bool :=
  match c.btype with
  | .module => c.timeoutCallback
  | .list | .zset | .stream => true
  | .none => false

def unblockClientOnTimeout : Option (Server σ) :=
  if c.btype = .module ∧ c.handleUnblocked then some srv
  else unblockClient srv cid { c with pendingCommand := false } true

def unblockClientOnError : Option (Server σ) :=
  unblockClient srv cid { c with pendingCommand := false } true

/-- The part of `unlinkClient` about `server.unblocked_clients`. -/
def unlinkClient : Option (Server σ) :=
  if ¬c.unblocked then some { srv with clients := srv.clients.erase cid }
  else if cid ∈ srv.unblockedClients then some { srv with
    clients := srv.clients.erase cid
    unblockedClients := srv.unblockedClients.erase cid }
  else none

def freeClient : Option (Server σ) :=
  (if c.blocked then unblockClient srv cid c true else some srv).bind fun srv' =>
    (srv'.clients.lookup cid).bind (unlinkClient srv' cid)

/-! ## Ready keys -/

/-- The arguments of `signalKeyAsReadyLogic`. -/
structure Signal where
  db : DbId
  key : Bytes
  type : ObjType
  deleted : Bool := false

def signalKeyAsReadyLogic (s : Signal) : Server σ :=
  let btype := getBlockedTypeByType s.type
  if btype = .none then srv
  else if srv.blockedClientsByType btype = 0 ∧ srv.blockedClientsByType .module = 0 then srv
  else if s.deleted ∧ (srv.unblockOnNokey s.db).lookup s.key = none then srv
  else if ¬s.deleted ∧ (srv.blockingKeys s.db).lookup s.key = none then srv
  else if ((srv.ready s.db).lookup s.key).isSome then srv
  else { srv with
    ready := update srv.ready s.db ((srv.ready s.db).insert s.key ())
    readyKeys := srv.readyKeys ++ [(s.db, s.key)] }

/-- What a command does when it is executed. -/
structure Ran (σ : Type) where
  data : σ
  signals : List Signal := []
  block : Option Block := none

/-- What the commands of the blocked clients do when they are executed again,
and what the callbacks of modules do and answer. -/
structure Behaviour (σ : Type) where
  exec : ClientId → σ → Ran σ
  serve : ClientId → Bytes → σ → Ran σ × Bool

/-- A type by which a client can be blocked on keys. -/
def BlockType.onKeys : BlockType → Bool
  | .none => false
  | _ => true

/-- What a client may ask for: to be blocked on keys, and the primary's client
only by a module. -/
def Block.fits (b : Block) (c : Client) : Bool :=
  b.btype.onKeys && (!c.primary || b.btype = .module)

/-- `processCommandAndResetClient`: the client's command takes effect. -/
def processCommand (r : Ran σ) : Option (Server σ) :=
  let srv' := r.signals.foldl signalKeyAsReadyLogic { srv with data := r.data }
  match r.block with
  | none => some (srv'.put cid c)
  | some b => if b.fits c then blockForKeys srv' cid c b else some (srv'.put cid c)

/-- `moduleCallCommandUnblockedHandler`: the client goes back to the pool.  What
the handler does is counted to the command. -/
def moduleCallCommandUnblockedHandler : Server σ := srv.put cid { c with db := 0 }

/-- The end of `unblockClientOnKey`, after the command was executed. -/
def afterReexecution : Option (Server σ) :=
  (srv.clients.lookup cid).map fun c =>
    let c' := { c with reexecutingCommand := false }
    if c.blocked then srv.put cid c'
    else if c.isModule then moduleCallCommandUnblockedHandler srv cid c'
    else queueClientForReprocessing srv cid c'

/-- The second half of `unblockClientOnKey`: the pending command is executed
again. -/
def reexecute (B : Behaviour σ) (srv : Server σ) (cid : ClientId) : Option (Server σ) :=
  (srv.clients.lookup cid).bind fun c =>
    if c.pendingCommand then
      (processCommand srv cid { c with pendingCommand := false, reexecutingCommand := true }
        (B.exec cid srv.data)).bind fun srv' => afterReexecution srv' cid
    else some srv

def unblockClientOnKey (B : Behaviour σ) (srv : Server σ) (cid : ClientId) (c : Client)
    (key : Bytes) : Option (Server σ) :=
  (c.keys.lookup key).bind fun pos =>
    (releaseBlockedEntry srv cid c key pos).bind fun srv₁ =>
      let c₁ := { c with keys := c.keys.erase key }
      if c.btype = .stream ∨ c.btype = .list ∨ c.btype = .zset then
        (unblockClient (srv₁.put cid c₁) cid c₁ false).bind fun srv₂ => reexecute B srv₂ cid
      else none

/-- `moduleUnblockClientOnKey`: a client that is served stays blocked until
`moduleHandleBlockedClients` gets to its handle. -/
def moduleUnblockClientOnKey (B : Behaviour σ) (srv : Server σ) (cid : ClientId) (c : Client)
    (key : Bytes) : Server σ :=
  if c.handleUnblocked then srv
  else
    let r := B.serve cid key srv.data
    let srv' := r.1.signals.foldl signalKeyAsReadyLogic { srv with data := r.1.data }
    if r.2 then
      { srv'.put cid { c with handleUnblocked := true } with
        moduleUnblockedClients := srv'.moduleUnblockedClients ++ [cid] }
    else srv'

section Serving

variable (typeOf : σ → DbId → Bytes → Option ObjType) (B : Behaviour σ)

/-- The condition in the loop of `handleClientsBlockedOnKey`; `o` is the type of
the object under the key. -/
def serves (o : Option ObjType) (c : Client) : Bool :=
  o.any (fun type => c.btype = getBlockedTypeByType type) ||
    (o.isSome && c.btype = .module) || c.unblockOnNokey

/-- The loop of `handleClientsBlockedOnKey`.  Clients that block again are
appended behind the initial count, and the iterator is past a node before it
goes, so the loop visits the clients that were in the list at its start. -/
def serveClients (db : DbId) (key : Bytes) : Server σ → List Waiter → Option (Server σ)
  | srv, [] => some srv
  | srv, w :: rest =>
    (srv.clients.lookup w.cid).bind fun c =>
      (if serves (typeOf srv.data db key) c then
          if c.btype ≠ .module then unblockClientOnKey B srv w.cid c key
          else some (moduleUnblockClientOnKey B srv w.cid c key)
        else some srv).bind fun srv' => serveClients db key srv' rest

def handleClientsBlockedOnKey (srv : Server σ) (db : DbId) (key : Bytes) : Option (Server σ) :=
  serveClients typeOf B db key srv (members (srv.blockingKeys db) key)

/-- The inner loop of `handleClientsBlockedOnKeys`, over the list that was
taken from `server.ready_keys`. -/
def handleReady : Server σ → List (DbId × Bytes) → Option (Server σ)
  | srv, [] => some srv
  | srv, (db, key) :: rest =>
    (handleClientsBlockedOnKey typeOf B
      { srv with ready := update srv.ready db ((srv.ready db).erase key) }
      db key).bind fun srv' => handleReady srv' rest

/-- `handleClientsBlockedOnKeys`, for at most `fuel` rounds. -/
def handleClientsBlockedOnKeys : Nat → Server σ → Option (Server σ)
  | 0, srv => some srv
  | fuel + 1, srv =>
    if srv.readyKeys = [] then some srv
    else
      (handleReady typeOf B { srv with readyKeys := [] } srv.readyKeys).bind fun srv' =>
        handleClientsBlockedOnKeys fuel srv'

end Serving

/-- `moduleHandleBlockedClients` for one handle. -/
def moduleHandleBlockedClient : Option (Server σ) :=
  (srv.clients.lookup cid).bind fun c => unblockClient srv cid c true

/-- `processUnblockedClients` for one client. -/
def processUnblockedClient (queue : List ClientId) : Server σ :=
  let srv := { srv with unblockedClients := queue }
  let c := { c with unblocked := false }
  if c.isModule ∧ ¬c.blocked then moduleCallCommandUnblockedHandler srv cid c else srv.put cid c

/-- What can happen.  `handle` comes with the commands of the clients and with
the number of rounds. -/
inductive Event (σ : Type) where
  | connect (cid : ClientId) (isModule primary : Bool)
  | select (cid : ClientId) (db : DbId)
  | data (d : σ)
  | block (cid : ClientId) (b : Block)
  | signal (s : Signal)
  | handle (B : Behaviour σ) (fuel : Nat)
  | moduleHandle
  | processUnblocked
  | timeout (cid : ClientId)
  | unblock (cid : ClientId) (error : Bool)
  | release (cid : ClientId)

/-- Do something with a connected client. -/
def Server.withClient (f : Client → Option (Server σ)) : Option (Server σ) :=
  match srv.clients.lookup cid with
  | none => some srv
  | some c => f c

/-- One event.  A blocked client runs no command; a timeout needs a deadline. -/
def step (typeOf : σ → DbId → Bytes → Option ObjType) (srv : Server σ) : Event σ → Option (Server σ)
  | .connect cid isModule primary =>
    if (srv.clients.lookup cid).isSome then some srv
    else some (srv.put cid { isModule, primary })
  | .select cid db => srv.withClient cid fun c =>
    some (if c.blocked then srv else srv.put cid { c with db })
  | .data d => some { srv with data := d }
  | .block cid b => srv.withClient cid fun c =>
    if c.blocked ∨ ¬b.fits c then some srv else blockForKeys srv cid c b
  | .signal s => some (signalKeyAsReadyLogic srv s)
  | .handle B fuel => handleClientsBlockedOnKeys typeOf B fuel srv
  | .moduleHandle =>
    match srv.moduleUnblockedClients with
    | [] => some srv
    | cid :: rest => moduleHandleBlockedClient { srv with moduleUnblockedClients := rest } cid
  | .processUnblocked =>
    match srv.unblockedClients with
    | [] => some srv
    | cid :: rest => srv.withClient cid fun c => some (processUnblockedClient srv cid c rest)
  | .timeout cid => srv.withClient cid fun c =>
    if c.blocked ∧ c.timeout ≠ 0 then unblockClientOnTimeout srv cid c else some srv
  | .unblock cid error => srv.withClient cid fun c =>
    if c.blocked ∧ blockedClientMayTimeout c then
      if error then unblockClientOnError srv cid c else unblockClientOnTimeout srv cid c
    else some srv
  | .release cid => srv.withClient cid (freeClient srv cid)

/-- The server before any client has connected. -/
def start (data : σ) : Server σ := { data }

end Dice.Ports.BlockedClients
