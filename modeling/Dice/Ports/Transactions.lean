import Dice.Verified.CString
import Dice.Verified.Index
import Dice.Verified.Run

/-!
# Transactions and watched keys

`multi.c`.  A `watchedKey` structure is linked into two lists, the client's own
and the list of the key in the database.  The model keeps the structure in the
client and the client's number in the list of the key, which finds it again: a
client watches a key of a database at most once.  Where the source would follow a
pointer that leads nowhere, or an assertion fails, the functions have no result.

A database is a map from keys to a value and an optional deadline.  A key whose
deadline has passed stays until somebody removes it.
-/

namespace Dice.Ports.Transactions

open Function Verified CString Table Index Run

abbrev ClientId := Nat

abbrev DbId := Nat

/-- A value of the keyspace and, in `db->expires`, its deadline. -/
structure Entry (V : Type) where
  value : V
  deadline : Option Nat := none

/-- What the databases hold. -/
abbrev Keyspace (V : Type) := DbId → Dict Bytes (Entry V)

/-- The changes of the keyspace that are signalled: a write or a removal of
one key, `FLUSHDB` (with a database) or `FLUSHALL`, and `SWAPDB`. -/
inductive Effect (V : Type) where
  | write (db : DbId) (key : Bytes) (entry : Option (Entry V))
  | flush (db : Option DbId)
  | swap (id1 id2 : DbId)

/-- The commands that can be queued.  What a data command does to the keys
depends on the time, the selected database and what the databases hold. -/
inductive Command (V : Type) where
  | select (db : DbId)
  | unwatch
  | data (effects : Nat → DbId → Keyspace V → List (Effect V))

/-- `watchedKey`. -/
structure WatchedKey where
  db : DbId
  key : Bytes
  /-- The key was already expired when it was watched. -/
  expired : Bool
deriving DecidableEq, Repr

/-- The part of a client that transactions use. -/
structure Client (V : Type) where
  db : DbId := 0
  watchedKeys : List WatchedKey := []
  multi : Bool := false
  dirtyCas : Bool := false
  dirtyExec : Bool := false
  /-- `mstate.commands`. -/
  commands : List (Command V) := []

/-- The server.  `now` is the time `commandTimeSnapshot` returns. -/
structure Server (V : Type) where
  now : Nat := 0
  dbnum : Nat := 16
  keys : Keyspace V := fun _ => ∅
  /-- `db->watched_keys`. -/
  watched : DbId → Dict Bytes (List ClientId) := fun _ => ∅
  clients : ClientId → Client V := fun _ => {}
  watchingClients : Int := 0

variable {V : Type}

variable (c : Client V) (srv : Server V) (cid : ClientId)

/-- Change one client. -/
def Server.modify (f : Client V → Client V) : Server V :=
  { srv with clients := update srv.clients cid (f (srv.clients cid)) }

def Server.dbFind (db : DbId) (key : Bytes) : Option (Entry V) := (srv.keys db).lookup key

/-- The deadline has passed. -/
def Entry.isExpired (now : Nat) (e : Entry V) : Bool :=
  e.deadline.any fun deadline => decide (deadline < now)

/-- `keyIsExpired`; nothing is being loaded. -/
def Server.keyIsExpired (db : DbId) (key : Bytes) : Bool :=
  (srv.dbFind db key).any (Entry.isExpired srv.now)

/-! ## Watching -/

/-- This is the structure for `key` of `db`. -/
def WatchedKey.isFor (db : DbId) (key : Bytes) (wk : WatchedKey) : Bool :=
  wk.db = db && wk.key = key

/-- The structure behind a member of the list of `key`. -/
def Client.watchedKey (db : DbId) (key : Bytes) : Option WatchedKey :=
  c.watchedKeys.find? (WatchedKey.isFor db key)

/-- `wk->expired = expired`. -/
def Client.setExpired (db : DbId) (key : Bytes) (expired : Bool) (c : Client V) : Client V :=
  { c with watchedKeys := c.watchedKeys.map fun wk =>
      if wk.isFor db key then { wk with expired := expired } else wk }

def watchForKey (key : Bytes) : Server V :=
  let c := srv.clients cid
  if c.watchedKeys.any (WatchedKey.isFor c.db key) then srv
  else
    let wk : WatchedKey := { db := c.db, key, expired := srv.keyIsExpired c.db key }
    { srv with
      watchingClients :=
        if c.watchedKeys = [] then srv.watchingClients + 1 else srv.watchingClients
      watched := update srv.watched c.db (link (srv.watched c.db) key cid)
      clients := update srv.clients cid
        { c with watchedKeys := c.watchedKeys ++ [wk] } }

/-- The loop of `unwatchAllKeys` over the client's list. -/
def unlinkKeys (cid : ClientId) (watched : DbId → Dict Bytes (List ClientId)) :
    List WatchedKey → Option (DbId → Dict Bytes (List ClientId))
  | [] => some watched
  | wk :: wks =>
    ((watched wk.db).lookup wk.key).bind fun _ =>
      unlinkKeys cid
        (update watched wk.db (unlink (watched wk.db) wk.key cid)) wks

def unwatchAllKeys : Option (Server V) :=
  let c := srv.clients cid
  if c.watchedKeys = [] then some srv
  else
    (unlinkKeys cid srv.watched c.watchedKeys).map fun watched =>
      { srv with
        watched
        watchingClients := srv.watchingClients - 1
        clients := update srv.clients cid { c with watchedKeys := [] } }

def isWatchedKeyExpired : Bool :=
  (srv.clients cid).watchedKeys.any fun wk =>
    !wk.expired && srv.keyIsExpired wk.db wk.key

def resetClientMultiState : Client V := { c with commands := [] }

/-- What both touching functions do to a client whose key changed. -/
def Client.setDirty : Client V := { resetClientMultiState c with dirtyCas := true }

/-- The loop of `touchWatchedKey`.  `unwatchAllKeys` takes the current node out
of the list, after the iterator has moved past it. -/
def touchWatchers (db : DbId) (key : Bytes) : Server V → List ClientId → Option (Server V)
  | srv, [] => some srv
  | srv, cid :: cids =>
    ((srv.clients cid).watchedKey db key).bind fun wk =>
      if wk.expired then
        if (srv.dbFind db key).isNone then
          touchWatchers db key (srv.modify cid (Client.setExpired db key false)) cids
        -- the source leaves the loop here, not only this client
        else some srv
      else
        (unwatchAllKeys (srv.modify cid Client.setDirty) cid).bind fun srv' =>
          touchWatchers db key srv' cids

def touchWatchedKey (db : DbId) (key : Bytes) : Option (Server V) :=
  touchWatchers db key srv (members (srv.watched db) key)

/-- What `touchAllWatchedKeysInDb` decides about one `watchedKey`: the new
value of `expired`, or nothing if the client becomes dirty. -/
def replacedFlag (emptied : DbId) (replacedWith : Option DbId) (key : Bytes) (expired : Bool) :
    Option Bool :=
  let existsInEmptied := (srv.dbFind emptied key).isSome
  let existsInReplaced := replacedWith.any fun db => (srv.dbFind db key).isSome
  let expiredInReplaced := replacedWith.any fun db => srv.keyIsExpired db key
  if expired then
    if !existsInReplaced then some false
    else if expiredInReplaced then some true
    else none
  else if !existsInEmptied && expiredInReplaced then some true
  else none

/-- The effect of that decision. -/
def Client.replaced (emptied : DbId) (key : Bytes) (flag : Option Bool) (c : Client V) : Client V :=
  match flag with
  | some expired => c.setExpired emptied key expired
  | none => c.setDirty

/-- The inner loop of `touchAllWatchedKeysInDb`, over the clients of a key. -/
def touchReplaced (emptied : DbId) (replacedWith : Option DbId) (key : Bytes) :
    Server V → List ClientId → Option (Server V)
  | srv, [] => some srv
  | srv, cid :: cids =>
    ((srv.clients cid).watchedKey emptied key).bind fun wk =>
      touchReplaced emptied replacedWith key
        (srv.modify cid (Client.replaced emptied key
          (replacedFlag srv emptied replacedWith key wk.expired))) cids

/-- The key has an entry in one of the two databases. -/
def Server.existsInEither (emptied : DbId) (replacedWith : Option DbId) (key : Bytes) : Bool :=
  (srv.dbFind emptied key).isSome || replacedWith.any fun db => (srv.dbFind db key).isSome

/-- The outer loop of `touchAllWatchedKeysInDb`, over the watched keys. -/
def touchEntries (emptied : DbId) (replacedWith : Option DbId) :
    Server V → List (Bytes × List ClientId) → Option (Server V)
  | srv, [] => some srv
  | srv, (key, cids) :: entries =>
    if srv.existsInEither emptied replacedWith key then
      (touchReplaced emptied replacedWith key srv cids).bind fun srv' =>
        touchEntries emptied replacedWith srv' entries
    else touchEntries emptied replacedWith srv entries

def touchAllWatchedKeysInDb (emptied : DbId) (replacedWith : Option DbId) : Option (Server V) :=
  touchEntries emptied replacedWith srv
    ((srv.watched emptied).entries.map fun e => (e.1, e.2))

/-- The table of a database after `key` was written or removed. -/
def put (d : Dict Bytes (Entry V)) (key : Bytes) : Option (Entry V) → Dict Bytes (Entry V)
  | some e => d.insert key e
  | none => d.erase key

/-- `dbAdd`, `dbOverwrite` or `dbDelete`. -/
def Server.store (db : DbId) (key : Bytes) (entry : Option (Entry V)) : Server V :=
  { srv with keys := update srv.keys db (put (srv.keys db) key entry) }

/-- The databases of a flush. -/
def Server.flushed : Option DbId → List DbId
  | none => List.range srv.dbnum
  | some db => if db < srv.dbnum then [db] else []

def signalFlushedDb : Server V → List DbId → Option (Server V)
  | srv, [] => some srv
  | srv, db :: dbs => (touchAllWatchedKeysInDb srv db none).bind fun srv' =>
    signalFlushedDb srv' dbs

/-- `emptyDbStructure`. -/
def Server.emptyDbs (dbs : List DbId) : Server V :=
  { srv with keys := fun db => if db ∈ dbs then ∅ else srv.keys db }

/-- The exchange of the tables in `dbSwapDatabases`. -/
def Server.swapKeys (id1 id2 : DbId) : Server V :=
  let keys := update srv.keys id1 (srv.keys id2)
  { srv with keys := update keys id2 (srv.keys id1) }

def dbSwapDatabases (id1 id2 : DbId) : Option (Server V) :=
  if srv.dbnum ≤ id1 ∨ srv.dbnum ≤ id2 ∨ id1 = id2 then some srv
  else
    (touchAllWatchedKeysInDb srv id1 (some id2)).bind fun srv₁ =>
      (touchAllWatchedKeysInDb srv₁ id2 (some id1)).map fun srv₂ => srv₂.swapKeys id1 id2

/-- A signalled change of the keyspace. -/
def Server.apply : Effect V → Option (Server V)
  | .write db key entry => touchWatchedKey (srv.store db key entry) db key
  | .flush db => (signalFlushedDb srv (srv.flushed db)).map fun srv' =>
    srv'.emptyDbs (srv.flushed db)
  | .swap id1 id2 => dbSwapDatabases srv id1 id2

/-! ## Transactions -/

def discardTransaction : Option (Server V) :=
  unwatchAllKeys (srv.modify cid fun c =>
    { resetClientMultiState c with multi := false, dirtyCas := false, dirtyExec := false }) cid

def flagTransaction : Server V :=
  srv.modify cid fun c =>
    if c.multi then { resetClientMultiState c with dirtyExec := true } else c

def queueMultiCommand (cmd : Command V) : Server V :=
  srv.modify cid fun c =>
    if c.dirtyCas || c.dirtyExec then c else { c with commands := c.commands ++ [cmd] }

def multiCommand : Server V := srv.modify cid fun c => { c with multi := true }

def watchCommand (keys : List Bytes) : Server V :=
  if (srv.clients cid).dirtyCas then srv
  else keys.foldl (fun srv key => watchForKey srv cid key) srv

def unwatchCommand : Option (Server V) :=
  (unwatchAllKeys srv cid).map fun srv' => srv'.modify cid fun c => { c with dirtyCas := false }

def selectCommand (db : DbId) : Server V :=
  if db < srv.dbnum then srv.modify cid fun c => { c with db } else srv

/-- What `EXEC` answers. -/
inductive ExecReply where
  /-- `EXEC without MULTI`. -/
  | withoutMulti
  /-- `EXECABORT`, after an error while queueing. -/
  | execAbort
  /-- The null array: a watched key changed. -/
  | null
  /-- The queue is run; the number of commands. -/
  | array (count : Nat)
deriving DecidableEq, Repr

/-- The checks at the start of `execCommand`. -/
def execReply : ExecReply :=
  let c := srv.clients cid
  if !c.multi then .withoutMulti
  else if c.dirtyExec then .execAbort
  else if isWatchedKeyExpired srv cid || c.dirtyCas then .null
  else .array c.commands.length

/-! ## The system

The state is the server together with an observer, who notes for every
`WATCH` whether what the key holds has changed since, and whether some write so
far has put a value over a key that a client watches as expired. -/

/-- What a key logically holds. -/
def Server.holds (db : DbId) (key : Bytes) : Option V :=
  if srv.keyIsExpired db key then none else (srv.dbFind db key).map Entry.value

/-- A key a client has asked to watch. -/
structure Mark where
  db : DbId
  key : Bytes
  changed : Bool := false
deriving DecidableEq, Repr

/-- The observed server. -/
structure State (V : Type) where
  server : Server V
  /-- The keys each client has asked to watch since its last `UNWATCH`, `EXEC`
  or `DISCARD`. -/
  marks : ClientId → List Mark := fun _ => []
  /-- No write has overwritten a key that is watched as an expired one. -/
  clean : Bool := true

/-- Some client watches the key with `expired` set. -/
def Server.watchedAsExpired (db : DbId) (key : Bytes) : Bool :=
  (members (srv.watched db) key).any fun cid =>
    ((srv.clients cid).watchedKey db key).any WatchedKey.expired

/-- The effect leaves a value under a key that is watched as an expired one. -/
def Server.overwritesExpired : Effect V → Bool
  | .write db key (some _) => srv.watchedAsExpired db key
  | _ => false

variable [DecidableEq V] (srv : Server V) (cid : ClientId)

/-- The observer compares what the keys hold. -/
def Mark.note (before after : Server V) (m : Mark) : Mark :=
  { m with changed := m.changed ||
      decide (before.holds m.db m.key ≠ after.holds m.db m.key) }

/-- Note a change of the server. -/
def State.become (s : State V) (srv : Server V) : State V :=
  { s with server := srv, marks := fun cid => (s.marks cid).map (Mark.note s.server srv) }

/-- Note that a client asks to watch a key; the first time counts. -/
def addMark (db : DbId) (marks : List Mark) (key : Bytes) : List Mark :=
  if marks.any fun m => m.db = db && m.key = key then marks else marks ++ [{ db := db, key := key }]

/-- Forget the marks of one client. -/
def State.forget (s : State V) (cid : ClientId) : State V :=
  { s with marks := update s.marks cid [] }

/-- A signalled change of the keyspace. -/
def State.effect (s : State V) (e : Effect V) : Option (State V) :=
  (s.server.apply e).map fun srv =>
    { s.become srv with clean := s.clean && !s.server.overwritesExpired e }

def State.call (s : State V) : Command V → Option (State V)
  | .select db => some (s.become (selectCommand s.server cid db))
  | .unwatch => (unwatchCommand s.server cid).map fun srv => (s.become srv).forget cid
  | .data effects =>
    run State.effect s (effects s.server.now (s.server.clients cid).db s.server.keys)

/-- `discardTransaction`. -/
def State.discard (s : State V) (cid : ClientId) : Option (State V) :=
  (discardTransaction s.server cid).map fun srv => (s.become srv).forget cid

def State.execCommand (s : State V) (cid : ClientId) : Option (State V × ExecReply) :=
  match execReply s.server cid with
  | .withoutMulti => some (s, .withoutMulti)
  | .execAbort => (s.discard cid).map fun s' => (s', .execAbort)
  | .null => (s.discard cid).map fun s' => (s', .null)
  | .array count =>
    ((unwatchAllKeys s.server cid).bind fun srv =>
      (run (State.call cid) ((s.become srv).forget cid)
        (s.server.clients cid).commands).bind fun s' => s'.discard cid).map
      fun s' => (s', .array count)

/-- What a client sends.  `invalid` is a command that is rejected before it is
queued or called. -/
inductive Request (V : Type) where
  | watch (keys : List Bytes)
  | multi
  | exec
  | discard
  | invalid
  | command (cmd : Command V)

/-- What happens next: a client is served, the keyspace changes for another
reason (the replication stream, the expire cycle), or time passes. -/
inductive Event (V : Type) where
  | request (cid : ClientId) (r : Request V)
  | effect (e : Effect V)
  | tick (ms : Nat)

/-- `processCommand`: inside `MULTI`, commands are queued and `WATCH` and
`MULTI` are rejected. -/
def State.process (s : State V) (cid : ClientId) : Request V → Option (State V)
  | .watch keys =>
    if (s.server.clients cid).multi then some (s.become (flagTransaction s.server cid))
    else
      let marks := keys.foldl (addMark (s.server.clients cid).db) (s.marks cid)
      some { s.become (watchCommand s.server cid keys) with
        marks := update s.marks cid marks }
  | .multi =>
    if (s.server.clients cid).multi then some (s.become (flagTransaction s.server cid))
    else some (s.become (multiCommand s.server cid))
  | .exec => (s.execCommand cid).map Prod.fst
  | .discard => if (s.server.clients cid).multi then s.discard cid else some s
  | .invalid => some (s.become (flagTransaction s.server cid))
  | .command cmd =>
    if (s.server.clients cid).multi then some (s.become (queueMultiCommand s.server cid cmd))
    else s.call cid cmd

/-- One event. -/
def step (s : State V) : Event V → Option (State V)
  | .request cid r => s.process cid r
  | .effect e => s.effect e
  | .tick ms => some (s.become { s.server with now := s.server.now + ms })

/-- The server before any client has watched anything. -/
def start (now dbnum : Nat) (keys : Keyspace V) : State V := { server := { now, dbnum, keys } }

end Dice.Ports.Transactions
