import Dice.Verified.Table
import Dice.Ports.ObserveHandlers
import Dice.Ports.ObserveFingerprint

/-!
# The OBSERVE registry

The bookkeeping of `OBSERVE` and `UNOBSERVE`: three tables that mirror each
other (fingerprint to subscription, key to fingerprints, client to
fingerprints), one flag per client and one global counter.  Each operation
updates one table at a time, as the source does.

A client is separated from the server while its command runs: the functions
take the server and the client and return both, and `Event` handling puts the
client back.  The two server dictionaries are created lazily; a missing one is
read like an empty one and is an empty one here.  The client's dictionary is
released when it becomes empty and `UNOBSERVE` then reads through the null
pointer, so it stays an `Option` and `unobserveCommand` is partial.
-/

namespace Dice.Ports.ObserveRegistry

open Verified CString Table ObserveHandlers ObserveFingerprint

abbrev ClientId := Nat

/-- `observeCommandInfo`.  `argc` is the length of `argv`. -/
structure ObserveCommandInfo where
  command : Bytes
  argv : List Bytes
  key : Bytes
  clients : List ClientId
  deriving DecidableEq, Repr

/-- The fields of `client` the registry reads or writes. -/
structure Client where
  dbid : Nat := 0
  resp : Nat := 2
  denyBlocking : Bool := false
  multi : Bool := false
  observing : Bool := false
  observeFingerprints : Option (Dict Bytes Unit) := none
  deriving DecidableEq

/-- The registry part of `server`, and the connected clients. -/
structure Server where
  observeFingerprints : Dict Bytes ObserveCommandInfo := ∅
  observeKeyToFingerprints : Dict Bytes (List Bytes) := ∅
  observingClients : Int := 0
  clients : Dict ClientId Client := ∅

variable (s : Server) (cid : ClientId) (c : Client)

/-- Is `fingerprint` in the client's own set? -/
def Client.subscribed (fingerprint : Bytes) : Bool :=
  match c.observeFingerprints with
  | none => false
  | some d => (d.lookup fingerprint).isSome

/-- The client list of a fingerprint. -/
def Server.holders (fingerprint : Bytes) : List ClientId :=
  ((s.observeFingerprints.lookup fingerprint).map ObserveCommandInfo.clients).getD []

/-- The fingerprint list of a key. -/
def Server.fingerprintsOf (key : Bytes) : List Bytes :=
  (s.observeKeyToFingerprints.lookup key).getD []

/-- Store the client's structure. -/
def Server.put : Server := { s with clients := s.clients.insert cid c }

def markClientAsObserving : Server × Client :=
  if !c.observing then
    ({ s with observingClients := s.observingClients + 1 },
     { c with observing := true })
  else (s, c)

def unmarkClientAsObserving : Server × Client :=
  if c.observing then
    ({ s with observingClients := s.observingClients - 1 },
     { c with observing := false })
  else (s, c)

/-- `dictAdd(c->observe_fingerprints, fingerprint, NULL)`, the dictionary
being created first if there is none. -/
def Client.addFingerprint (fingerprint : Bytes) : Client :=
  let d := (c.observeFingerprints.getD ∅).insert fingerprint ()
  { c with observeFingerprints := some d }

/-- `observeSubscribeFingerprint`: returns whether the subscription is new.
`argv` is the client's argument vector without the leading `OBSERVE`. -/
def observeSubscribeFingerprint (argv : List Bytes) (fingerprint key : Bytes) :
    Server × Client × Bool :=
  if c.subscribed fingerprint then
    -- already subscribed; an empty dictionary may have been created on the way
    (s, { c with observeFingerprints := some (c.observeFingerprints.getD ∅) },
      false)
  else
    match s.observeFingerprints.lookup fingerprint with
    | none =>
      let info : ObserveCommandInfo :=
        { command := cstr (argv.headD [])
          argv := argv
          key := key
          clients := [] ++ [cid] }
      let fingerprints := (s.observeKeyToFingerprints.lookup key).getD [] ++ [fingerprint]
      ({ s with
          observeFingerprints := s.observeFingerprints.insert fingerprint info
          observeKeyToFingerprints :=
              s.observeKeyToFingerprints.insert key fingerprints },
        c.addFingerprint fingerprint, true)
    | some info =>
      let info := { info with clients := info.clients ++ [cid] }
      ({ s with
          observeFingerprints := s.observeFingerprints.insert fingerprint info },
        c.addFingerprint fingerprint, true)

/-- `genericObserveCommand`, without the reply it sends. -/
def genericObserveCommand (argv : List Bytes) : Server × Client :=
  if c.denyBlocking && !c.multi then (s, c)
  else
    let fingerprint := generateCommandFingerprint argv
    let key := (argv.drop 1).headD []
    match observeSubscribeFingerprint s cid c argv fingerprint key with
    | (s, c, isNewSubscription) =>
      if isNewSubscription then markClientAsObserving s c else (s, c)

/-- `observeCommand` on the full vector `OBSERVE cmd key ...`.  Refused
commands leave everything as it is. -/
def observeCommand (argv : List Bytes) : Server × Client :=
  if argv.length < 3 then (s, c)
  else if c.denyBlocking && !c.multi then (s, c)
  else
    match findHandlerForCommand ((argv.drop 1).headD []) with
    | none => (s, c)
    | some _ => genericObserveCommand s cid c (argv.drop 1)

/-! ## Unsubscribing -/

/-- Drop a fingerprint from the list of its key, and the key with its last
fingerprint. -/
def dropKeyFingerprint (key fingerprint : Bytes) : Server :=
  match s.observeKeyToFingerprints.lookup key with
  | none => s
  | some fingerprints =>
    let rest := fingerprints.erase fingerprint
    let table :=
      if rest.length = 0 then s.observeKeyToFingerprints.erase key
      else s.observeKeyToFingerprints.insert key rest
    { s with observeKeyToFingerprints := table }

/-- Drop a client from the subscription, and the subscription with its last
client. -/
def dropHolder (fingerprint : Bytes) : Server :=
  match s.observeFingerprints.lookup fingerprint with
  | none => s
  | some info =>
    let clients := info.clients.erase cid
    if clients.length = 0 then
      dropKeyFingerprint
        { s with observeFingerprints := s.observeFingerprints.erase fingerprint }
        info.key fingerprint
    else
      let info := { info with clients := clients }
      { s with
        observeFingerprints := s.observeFingerprints.insert fingerprint info }

def observeUnsubscribeFingerprint (fingerprint : Bytes) : Server × Client :=
  match c.observeFingerprints with
  | none => (s, c)
  | some d =>
    let s := if (d.lookup fingerprint).isSome then dropHolder s cid fingerprint
      else s
    let d := d.erase fingerprint
    let d := if d.entries.length = 0 then none else some d
    (s, { c with observeFingerprints := d })

/-- The argument loop of `unobserveCommand`.  `dictFind` on a dictionary that
an earlier iteration released reads through a null pointer: no result. -/
def unobserveLoop (s : Server) (cid : ClientId) (c : Client) (unsubscribed : Nat) :
    List Bytes → Option (Server × Client × Nat)
  | [] => some (s, c, unsubscribed)
  | fingerprint :: rest =>
    match c.observeFingerprints with
    | none => none
    | some d =>
      if (d.lookup fingerprint).isSome then
        match observeUnsubscribeFingerprint s cid c fingerprint with
        | (s, c) => unobserveLoop s cid c (unsubscribed + 1) rest
      else unobserveLoop s cid c unsubscribed rest

/-- `c->observe_fingerprints == NULL || dictSize(c->observe_fingerprints) == 0`. -/
def Client.hasNoFingerprints : Bool :=
  match c.observeFingerprints with
  | none => true
  | some d => d.entries.length == 0

/-- `unobserveCommand` on the full vector: the new state and the integer
reply. -/
def unobserveCommand (argv : List Bytes) : Option (Server × Client × Nat) :=
  if c.hasNoFingerprints then some (s, c, 0)
  else
    (unobserveLoop s cid c 0 (argv.drop 1)).map fun
      | (s, c, unsubscribed) =>
        if c.hasNoFingerprints then
          match unmarkClientAsObserving s c with
          | (s, c) => (s, c, unsubscribed)
        else (s, c, unsubscribed)

/-- The second pass of the teardown: one unsubscription per collected
fingerprint. -/
def unsubscribeAll (s : Server) (cid : ClientId) (c : Client) : List Bytes → Server × Client
  | [] => (s, c)
  | fingerprint :: rest =>
    match observeUnsubscribeFingerprint s cid c fingerprint with
    | (s, c) => unsubscribeAll s cid c rest

/-- The first pass of the teardown: collect the client's fingerprints. -/
def Client.fingerprints : List Bytes :=
  match c.observeFingerprints with
  | none => []
  | some d => d.keys

/-- `freeClient`: collect the fingerprints, unsubscribe from each, clear the
flag, unlink the client. -/
def freeClient : Server :=
  match unsubscribeAll s cid c c.fingerprints with
  | (s, c) =>
    match unmarkClientAsObserving s c with
    | (s, _) => { s with clients := s.clients.erase cid }

/-- The check of `processCommand`: an observing RESP2 connection is limited to
`OBSERVE`, `UNOBSERVE`, `PING`, `QUIT` and `RESET`. -/
def Client.limited : Bool := c.observing && c.resp == 2

/-- `selectCommand` with a valid index. -/
def Client.select (dbid : Nat) : Client :=
  if c.limited then c else { c with dbid := dbid }

/-- `helloCommand` switching the protocol version. -/
def Client.hello (resp : Nat) : Client :=
  if c.limited then c else { c with resp := resp }

/-- `clearClientConnectionState`: subscriptions made with `OBSERVE` survive a
`RESET`, the selected database does not. -/
def Client.reset : Client := { c with dbid := 0, resp := 2, multi := false }

/-- What can happen to the registry.  `context` is the execution context of
the client's next command (a script, a module call or `EXEC`). -/
inductive Event
  | connect (cid : ClientId)
  | context (cid : ClientId) (denyBlocking multi : Bool)
  | select (cid : ClientId) (dbid : Nat)
  | hello (cid : ClientId) (resp : Nat)
  | reset (cid : ClientId)
  | observe (cid : ClientId) (argv : List Bytes)
  | unobserve (cid : ClientId) (argv : List Bytes)
  | free (cid : ClientId)
  deriving DecidableEq, Repr

/-- One completed event. -/
def step : Event → Option Server
  | .connect cid =>
    if (s.clients.lookup cid).isSome then none else some (s.put cid {})
  | .context cid denyBlocking multi =>
    (s.clients.lookup cid).map fun c =>
      s.put cid { c with denyBlocking := denyBlocking, multi := multi }
  | .select cid dbid => (s.clients.lookup cid).map fun c => s.put cid (c.select dbid)
  | .hello cid resp => (s.clients.lookup cid).map fun c => s.put cid (c.hello resp)
  | .reset cid => (s.clients.lookup cid).map fun c => s.put cid c.reset
  | .observe cid argv =>
    (s.clients.lookup cid).map fun c =>
      match observeCommand s cid c argv with
      | (s, c) => s.put cid c
  | .unobserve cid argv =>
    (s.clients.lookup cid).bind fun c =>
      (unobserveCommand s cid c argv).map fun
        | (s, c, _) => s.put cid c
  | .free cid => (s.clients.lookup cid).map fun c => freeClient s cid c

end Dice.Ports.ObserveRegistry
