import Dice.Verified.CString
import Dice.Verified.Index

/-!
# Client side caching

`tracking.c`: the table of the keys each tracking client has read, the
invalidation messages, and the prefixes of the clients in broadcasting mode.

A command is split into what it does to this state: the client becomes
`server.current_client`, keys are read, modified or evicted in its context in
any order and number, and `trackingHandlePendingKeyInvalidations` ends it.
Without a current client the same happens in the server's own context.
-/

namespace Dice.Ports.Tracking

open Verified CString Table Index

abbrev ClientId := Nat

/-- The fields of `client` that are read or written; a redirection of 0 is none. -/
structure Client where
  resp : Nat := 2
  pubsub : Bool := false
  executingCommand : Bool := false
  tracking : Bool := false
  brokenRedir : Bool := false
  bcast : Bool := false
  optin : Bool := false
  optout : Bool := false
  caching : Bool := false
  noloop : Bool := false
  redirection : ClientId := 0
  prefixes : List Bytes := []
deriving DecidableEq

/-- The push messages, in either protocol.  `invalidateAll` carries the null. -/
inductive Message where
  | invalidate (keys : List Bytes)
  | invalidateAll
  | redirBroken (redirection : ClientId)
deriving DecidableEq

/-- `bcastState`: the modified keys with the client that did it last, and the
clients of a prefix. -/
structure BcastState where
  keys : Dict Bytes (Option ClientId) := ∅
  clients : List ClientId := []

/-- `sent` records what was written to the clients. -/
structure Server where
  clients : Dict ClientId Client := ∅
  currentClient : Option ClientId := none
  trackingClients : Nat := 0
  trackingTable : Dict Bytes (List ClientId) := ∅
  totalItems : Nat := 0
  prefixTable : Dict Bytes BcastState := ∅
  pendingKeys : List (Option Bytes) := []
  maxKeys : Nat := 1000000
  timeoutCounter : Nat := 0
  sent : List (ClientId × Message) := []

variable (s : Server) (cid : ClientId) (c : Client)

/-- Write a client's record. -/
def Server.put : Server := { s with clients := s.clients.insert cid c }

def Server.push (msg : Message) : Server := { s with sent := s.sent ++ [(cid, msg)] }

def sendTrackingMessage (msg : Message) : Server :=
  match s.clients.lookup cid with
  | none => s
  | some c =>
    if c.redirection = 0 then
      if 2 < c.resp then s.push cid msg else s
    else match s.clients.lookup c.redirection with
      | none =>
        let s := s.put cid { c with brokenRedir := true }
        if 2 < c.resp then s.push cid (.redirBroken c.redirection) else s
      | some redir =>
        if 2 < redir.resp ∨ redir.pubsub = true then s.push c.redirection msg else s

/-- A pending null stands for all keys. -/
def pendingMessage : Option Bytes → Message
  | some key => .invalidate [key]
  | none => .invalidateAll

def trackingHandlePendingKeyInvalidations : Server :=
  match s.currentClient with
  | none => { s with pendingKeys := [] }
  | some cid =>
    { s.pendingKeys.foldl (fun s key => sendTrackingMessage s cid (pendingMessage key)) s with
      pendingKeys := [] }

/-- The loop of `trackingRememberKeys`. -/
def rememberKey (s : Server) (key : Bytes) : Server :=
  if cid ∈ members s.trackingTable key then s
  else { s with trackingTable := link s.trackingTable key cid, totalItems := s.totalItems + 1 }

/-- `isPubsub` is `CMD_PUBSUB` of the executed command. -/
def trackingRememberKeys (isPubsub : Bool) (keys : List Bytes) : Server :=
  if (c.optin && !c.caching) || (c.optout && c.caching) then s
  else if isPubsub then s
  else keys.foldl (rememberKey cid) s

def trackingRememberKeyToBroadcast (modifier : Option ClientId) (key : Bytes) : Server :=
  { s with prefixTable := s.prefixTable.keys.foldl (fun t p =>
      match t.lookup p with
      | none => t
      | some bs =>
        if p.isPrefixOf key then t.insert p { bs with keys := bs.keys.insert key modifier }
        else t) s.prefixTable }

/-- The loop of `trackingInvalidateKey`. -/
def invalidateFor (key : Bytes) (s : Server) (id : ClientId) : Server :=
  match s.clients.lookup id with
  | none => s
  | some target =>
    if !target.tracking || target.bcast then s
    else if target.noloop ∧ s.currentClient = some id then s
    else if s.currentClient = some id ∧ target.executingCommand = true then
      { s with pendingKeys := s.pendingKeys ++ [some key] }
    else sendTrackingMessage s id (.invalidate [key])

def trackingInvalidateKey (modifier : Option ClientId) (key : Bytes) (bcast : Bool) : Server :=
  let s := if bcast then trackingRememberKeyToBroadcast s modifier key else s
  match s.trackingTable.lookup key with
  | none => s
  | some ids =>
    let s := ids.foldl (invalidateFor key) s
    { s with
      totalItems := s.totalItems - ids.length
      trackingTable := s.trackingTable.erase key }

/-- The loop of `trackingInvalidateKeysOnFlush`. -/
def flushFor : Server :=
  match s.clients.lookup cid with
  | none => s
  | some c =>
    if c.tracking then
      if s.currentClient = some cid then { s with pendingKeys := s.pendingKeys ++ [none] }
      else sendTrackingMessage s cid .invalidateAll
    else s

def trackingInvalidateKeysOnFlush : Server :=
  let s := if s.trackingClients = 0 then s else s.clients.keys.foldl flushFor s
  { s with trackingTable := ∅, totalItems := 0 }

/-- The loop of `trackingLimitUsedSlots` over the keys its random walks find. -/
def evictKeys : List Bytes → Server → Server
  | [], s => { s with timeoutCounter := s.timeoutCounter + 1 }
  | key :: walk, s =>
    let s := trackingInvalidateKey s none key false
    if s.trackingTable.keys.length ≤ s.maxKeys then { s with timeoutCounter := 0 }
    else evictKeys walk s

def trackingLimitUsedSlots (walk : List Bytes) : Server :=
  if s.maxKeys = 0 then s
  else if s.trackingTable.keys.length ≤ s.maxKeys then { s with timeoutCounter := 0 }
  else evictKeys (walk.take (100 * (s.timeoutCounter + 1))) s

/-- The message for one client of a prefix: without NOLOOP all its keys, with
it those that another client has modified last, if there are any. -/
def broadcastTo (keys : Dict Bytes (Option ClientId)) (s : Server) (cid : ClientId) : Server :=
  match s.clients.lookup cid with
  | none => s
  | some c =>
    if c.noloop then
      let others := (keys.entries.filter fun e => e.2 != some cid).map Sigma.fst
      if others = [] then s else sendTrackingMessage s cid (.invalidate others)
    else sendTrackingMessage s cid (.invalidate keys.keys)

def broadcastPrefix (p : Bytes) : Server :=
  match s.prefixTable.lookup p with
  | none => s
  | some bs =>
    let s := if bs.keys.keys = [] then s else bs.clients.foldl (broadcastTo bs.keys) s
    { s with prefixTable := s.prefixTable.insert p { bs with keys := ∅ } }

def trackingBroadcastInvalidationMessages : Server :=
  if s.trackingClients = 0 then s else s.prefixTable.keys.foldl broadcastPrefix s

/-- The options of CLIENT TRACKING. -/
structure Options where
  on : Bool := true
  redirect : ClientId := 0
  bcast : Bool := false
  optin : Bool := false
  optout : Bool := false
  noloop : Bool := false
  prefixes : List Bytes := []

/-- The body of the loop of `disableTracking`; the entry must be there. -/
def leavePrefix (t : Dict Bytes BcastState) (p : Bytes) : Option (Dict Bytes BcastState) :=
  (t.lookup p).map fun bs =>
    let clients := bs.clients.erase cid
    if clients = [] then t.erase p else t.insert p { bs with clients }

def disableTracking : Option Server :=
  (if c.bcast then c.prefixes.foldlM (leavePrefix cid) s.prefixTable
    else some s.prefixTable).map fun prefixTable =>
    let s := { s with prefixTable }
    let c := if c.bcast then { c with prefixes := [] } else c
    if c.tracking then
      { s with trackingClients := s.trackingClients - 1 }.put cid { c with
        tracking := false, brokenRedir := false, bcast := false, optin := false
        optout := false, caching := false, noloop := false }
    else s.put cid c

def stringCheckPrefix (a b : Bytes) : Bool := a.isPrefixOf b || b.isPrefixOf a

/-- `checkPrefixCollisionsOrReply` from position `i` on.  A collision between
two new prefixes returns the position of the first, which is "no collision"
unless it is 0. -/
def checkPrefixCollisions (existing : List Bytes) : Nat → List Bytes → Nat
  | _, [] => 1
  | i, p :: rest =>
    if existing.any (stringCheckPrefix · p) then 0
    else if rest.any (stringCheckPrefix p) then i
    else checkPrefixCollisions existing (i + 1) rest

def enableBcastTrackingForPrefix (st : Dict Bytes BcastState × List Bytes) (p : Bytes) :
    Dict Bytes BcastState × List Bytes :=
  let bs := (st.1.lookup p).getD {}
  if cid ∈ bs.clients then st
  else (st.1.insert p { bs with clients := bs.clients ++ [cid] }, st.2.insert p)

def enableTracking (o : Options) : Server :=
  let trackingClients := if c.tracking then s.trackingClients else s.trackingClients + 1
  let st :=
    if o.bcast then
      (if o.prefixes = [] then [[]] else o.prefixes).foldl (enableBcastTrackingForPrefix cid)
        (s.prefixTable, c.prefixes)
    else (s.prefixTable, c.prefixes)
  { s with trackingClients, prefixTable := st.1 }.put cid { c with
    tracking := true, brokenRedir := false, bcast := o.bcast, optin := o.optin
    optout := o.optout, noloop := o.noloop, redirection := o.redirect, prefixes := st.2 }

/-- CLIENT TRACKING; a refused request changes nothing. -/
def clientTracking (o : Options) : Option Server :=
  if o.redirect ≠ 0 ∧ (s.clients.lookup o.redirect).isNone then some s
  else if !o.on then disableTracking s cid c
  else if (!o.bcast ∧ o.prefixes ≠ []) ∨ (c.tracking ∧ c.bcast ≠ o.bcast)
      ∨ (o.bcast ∧ (o.optin || o.optout)) ∨ (o.optin ∧ o.optout)
      ∨ (o.optin ∧ c.optout) ∨ (o.optout ∧ c.optin) then some s
  else if o.bcast ∧ checkPrefixCollisions c.prefixes 0 o.prefixes = 0 then some s
  else some (enableTracking s cid c o)

/-- What can happen.  `caching` is CLIENT CACHING with its argument, or the end
of a command; `read` is a read-only command that ends in the context of the
current client; `modify` is `signalModifiedKey`. -/
inductive Event where
  | connect (cid : ClientId)
  | free (cid : ClientId)
  | begin (cid : ClientId)
  | executing (on : Bool)
  | handlePending
  | finish
  | hello (cid : ClientId) (resp : Nat)
  | pubsub (cid : ClientId) (on : Bool)
  | tracking (cid : ClientId) (o : Options)
  | caching (cid : ClientId) (arg : Option Bool)
  | read (isPubsub : Bool) (keys : List Bytes)
  | modify (modifier : Option ClientId) (key : Bytes)
  | flush
  | limit (walk : List Bytes)
  | broadcast
  | config (maxKeys : Nat)

/-- Do something with a connected client's record. -/
def Server.withClient (f : Client → Option Server) : Option Server :=
  match s.clients.lookup cid with
  | none => some s
  | some c => f c

/-- One event.  A command begins when the one before has ended. -/
def step : Event → Option Server
  | .connect cid => match s.clients.lookup cid with
    | none => some (s.put cid {})
    | some _ => some s
  | .free cid => s.withClient cid fun c =>
    (if c.tracking then disableTracking s cid c else some s).map fun s =>
      { s with
        clients := s.clients.erase cid
        currentClient := if s.currentClient = some cid then none else s.currentClient }
  | .begin cid => s.withClient cid fun _ =>
    if s.currentClient = none ∧ s.pendingKeys = [] then some { s with currentClient := some cid }
    else some s
  | .executing on => match s.currentClient with
    | none => some s
    | some cid => s.withClient cid fun c => some (s.put cid { c with executingCommand := on })
  | .handlePending => some (trackingHandlePendingKeyInvalidations s)
  | .finish => some { trackingHandlePendingKeyInvalidations s with currentClient := none }
  | .hello cid resp => s.withClient cid fun c => some (s.put cid { c with resp })
  | .pubsub cid on => s.withClient cid fun c => some (s.put cid { c with pubsub := on })
  | .tracking cid o => s.withClient cid fun c => clientTracking s cid c o
  | .caching cid arg => s.withClient cid fun c => match arg with
    | none => some (s.put cid { c with caching := false })
    | some yes =>
      if c.tracking ∧ (if yes then c.optin else c.optout) then
        some (s.put cid { c with caching := true })
      else some s
  | .read isPubsub keys => match s.currentClient with
    | none => some s
    | some cid => s.withClient cid fun c =>
      if c.tracking && !c.bcast then some (trackingRememberKeys s cid c isPubsub keys)
      else some s
  | .modify modifier key => some (trackingInvalidateKey s modifier key true)
  | .flush => some (trackingInvalidateKeysOnFlush s)
  | .limit walk => some (if s.trackingClients = 0 then s else trackingLimitUsedSlots s walk)
  | .broadcast => some (trackingBroadcastInvalidationMessages s)
  | .config maxKeys => some { s with maxKeys }

end Dice.Ports.Tracking
