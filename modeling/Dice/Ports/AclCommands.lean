import Dice.Verified.Sweep
import Dice.Ports.Resp
import Dice.Ports.AclCheck

/-!
# ACL commands that change users

`ACL SETUSER`, `ACL DELUSER` and `ACL LOAD` change the table of users while
clients are connected under them.  All three close connections: `DELUSER`
those of the users it removes, the other two those whose subscriptions the new
rules no longer permit, by comparing the new rules of a user with the old ones.

A command that goes on to use a client or a list that is not there any more ends
in `Outcome.fault`.
-/

namespace Dice.Ports.AclCommands

open Verified CString Table Sweep Sds Resp AclSelector AclUser AclCheck

/-- The name of `DefaultUser`. -/
def defaultName : Bytes := ofString "default"

/-- `c->user`: no user at all, an entry of `Users`, or a user that has been
freed while the client was still waiting to be closed. -/
inductive UserRef
  | null
  | named (name : Bytes)
  | freed
  deriving DecidableEq, Repr

/-- A member of `server.clients`.  `pubsub` is set by the commands that
subscribe and cleared with the last subscription. -/
structure Client where
  id : Nat
  user : UserRef
  authenticated : Bool := true
  primary : Bool := false
  replica : Bool := false
  monitor : Bool := false
  pubsub : Bool := false
  channels : List Bytes := []
  shardChannels : List Bytes := []
  patterns : List Bytes := []
  /-- `protected` or `protected_rdb_channel`. -/
  isProtected : Bool := false
  closeAsap : Bool := false
  closeAfterCommand : Bool := false
  closeAfterReply : Bool := false
  pubsub_of_subscribed :
    channels ≠ [] ∨ shardChannels ≠ [] ∨ patterns ≠ [] → pubsub = true
  deriving DecidableEq

/-- `CLIENT_TYPE_*`. -/
inductive ClientType
  | normal
  | replica
  | pubsub
  | primary
  deriving DecidableEq, Repr

variable (caller : Nat) (c : Client) (env : AclEnv) (file : AclFile)

def getClientType : ClientType :=
  if c.primary then .primary
  else if c.replica && !c.monitor then .replica
  else if c.pubsub then .pubsub
  else .normal

def clientSetUser (user : UserRef) (authenticated : Bool) : Client :=
  { c with user := user, authenticated := authenticated }

def freeClientAsync : Client := { c with closeAsap := true }

/-- `freeClient`: what is left of the client in `server.clients`. -/
def freeClient : Option Client :=
  if c.isProtected then some (freeClientAsync c) else none

/-- `pubsubTotalSubscriptions`.  The tables of the server hold the channels and
patterns that some client is subscribed to. -/
def pubsubTotalSubscriptions (clients : List Client) : Nat :=
  (clients.flatMap Client.patterns).dedup.length + (clients.flatMap Client.channels).dedup.length +
    (clients.flatMap Client.shardChannels).dedup.length

/-- `listSearchKey` in a list without a match method compares addresses.  The
channel lists of two users never share a string, those of one user do. -/
def searchAddress (sameUser : Bool) (upcoming : List Bytes) (channel : Bytes) : Bool :=
  sameUser && upcoming.contains channel

/-- `getUpcomingChannelList`; `sameUser` tells whether `new` and `original` are
one object.  `none` stands for NULL. -/
def getUpcomingChannelList (new original : User) (sameUser : Bool) : Option (List Bytes) :=
  if new.allSelectors.any fun s => s.allChannels then none
  else
    let upcoming := new.allSelectors.flatMap fun s => s.channels
    let isMatch := original.allSelectors.all fun s =>
      !s.allChannels && s.channels.all (searchAddress sameUser upcoming)
    if isMatch then none else some upcoming

/-- `ACLShouldKillPubsubClient`. -/
def aclShouldKillPubsubClient (upcoming : List Bytes) (c : Client) : Bool :=
  let denied (isPattern : Bool) (channel : Bytes) : Bool :=
    aclCheckChannelAgainstList upcoming channel isPattern == .deniedChannel
  getClientType c == .pubsub && (c.patterns.any (denied true) || c.channels.any (denied false) ||
      c.shardChannels.any (denied false))

/-- `ACLKillPubsubClientsIfNeeded` for a user called `name`. -/
def aclKillPubsubClientsIfNeeded (new original : User) (name : Bytes)
    (clients : List Client) : List Client :=
  if pubsubTotalSubscriptions clients = 0 then clients
  else
    match getUpcomingChannelList new original false with
    | none => clients
    | some channels =>
      sweep (fun c => c.user == .named name && aclShouldKillPubsubClient channels c)
        freeClient clients

/-- `Users` and `server.clients`. -/
structure AclState where
  users : Dict Bytes User
  clients : List Client
  deriving DecidableEq

/-- `ACLStringSetUser`.  The changes are staged on a copy. -/
def aclStringSetUser (s : AclState) (username : Bytes) (argv : List Bytes) :
    Except Bytes AclState :=
  let u := s.users.lookup username
  match stageUser env (u.getD (aclCreateUser env)) argv with
  | .error err => .error err
  | .ok tempu =>
    let clients :=
      match u with
      | none => s.clients
      | some u => aclKillPubsubClientsIfNeeded tempu u username s.clients
    .ok { users := s.users.insert username tempu, clients := clients }

/-- A client of a deleted user; the one that runs the command still gets its
reply. -/
def closeDeleted : Client :=
  let c := clientSetUser c (.named defaultName) false
  if c.id = caller then { c with closeAfterCommand := true } else freeClientAsync c

/-- The loop of `ACLFreeUserAndKillClients`. -/
def aclFreeUserAndKillClients (name : Bytes) (clients : List Client) : List Client :=
  clients.map fun c => if c.user = .named name then closeDeleted caller c else c

/-- One name of `ACL DELUSER`, with the number of users deleted so far. -/
def delUser (state : AclState × Nat) (username : Bytes) : AclState × Nat :=
  let (s, deleted) := state
  match s.users.lookup username with
  | none => (s, deleted)
  | some _ =>
    ({ users := s.users.erase username
       clients := aclFreeUserAndKillClients caller username s.clients }, deleted + 1)

/-! ## LOAD -/

/-- The configured file and what reading it yields: its bytes, or the text of
the error. -/
structure AclFile where
  name : Bytes
  content : Except Bytes Bytes

/-- The lines of the file as `ACLLoadFromFile` puts them together from a buffer
of 1024 bytes: `sdscat` drops what follows a NUL in a buffer. -/
def fileLines (content : Bytes) : List Bytes :=
  sdssplitlen ((fgets 1023 [] content).flatMap cstr) 10

/-- `Users` while it is filled, and the errors found so far. -/
structure LoadState where
  users : Dict Bytes User := ∅
  errors : Bytes := []

/-- The place an error message starts with. -/
def errorPlace (linenum : Nat) : Bytes := cstr file.name ++ 58 :: decimal linenum

/-- Add a message. -/
def LoadState.report (st : LoadState) (text : Bytes) : LoadState :=
  { st with errors := st.errors ++ text }

/-- One operation of a line: the user, the errors, and whether a syntax error
has been reported for this line. -/
def loadOp (linenum : Nat) (state : User × Bytes × Bool) (arg : Bytes) : User × Bytes × Bool :=
  let (u, errors, syntaxError) := state
  let op := sdstrim arg [9, 13, 10]
  match aclSetUser env u op with
  | .ok u => (u, errors, syntaxError)
  | .error err =>
    let errmsg := ofString (aclSetUserStringError err)
    if err = .enoent then
      (u, errors ++ errorPlace file linenum ++
        ofString ": Error in applying operation '" ++ cstr op ++ ofString "': " ++
        errmsg ++ ofString ". ", syntaxError)
    else if syntaxError then (u, errors, true)
    else
      (u, errors ++ errorPlace file linenum ++ ofString ": " ++ errmsg ++ ofString ". ", true)

/-- A line that has a user name to go on with. -/
def loadUser (linenum : Nat) (st : LoadState) (name : Bytes) (ops : List Bytes) :
    Option LoadState :=
  match ops.foldl mergeStep ([], none) with
  | (merged, none) =>
    let (u, errors, _) :=
      merged.foldl (loadOp env file linenum) (aclCreateUser env, st.errors, false)
    some { users := st.users.insert name u, errors := errors }
  | (merged, some _) =>
    -- the loop over the merged arguments runs, but the array is NULL
    if merged.isEmpty then
      some (LoadState.report { st with users := st.users.insert name (aclCreateUser env) }
        (errorPlace file linenum ++ ofString ": Unmatched parenthesis in selector definition."))
    else none

/-- One line of the file. -/
def loadLine (linenum : Nat) (st : LoadState) (text : Bytes) : Option LoadState :=
  let text := sdstrim text [32, 9, 13, 10]
  if text.isEmpty then some st
  else
    match sdssplitlen text 32 with
    | keyword :: name :: ops =>
      if !strEq keyword (ofString "user") then
        some (st.report (errorPlace file linenum ++
          ofString " should start with user keyword followed by the username. "))
      else if aclStringHasSpaces name then
        some (st.report (39 :: errorPlace file linenum ++ ofString ": username '" ++
          cstr name ++ ofString "' contains invalid characters. "))
      else if (st.users.lookup name).isSome then
        some (st.report (ofString "WARNING: Duplicate user '" ++ cstr name ++
          ofString "' found on line " ++ decimal linenum ++ ofString ". "))
      else loadUser env file linenum st name ops
    | _ =>
      some (st.report (errorPlace file linenum ++
        ofString " should start with user keyword followed by the username. "))

/-- The loop over the lines. -/
def loadLines (env : AclEnv) (file : AclFile) : Nat → LoadState → List Bytes → Option LoadState
  | _, st, [] => some st
  | linenum, st, text :: rest =>
    (loadLine env file linenum st text).bind fun st =>
      loadLines env file (linenum + 1) st rest

/-- `ACLCreateDefaultUser`; the results of the operations are not looked at. -/
def aclCreateDefaultUser : User :=
  ["+@all", "~*", "&*", "on", "nopass"].foldl
    (fun u op => (aclSetUser env u (ofString op)).toOption.getD u) (aclCreateUser env)

/-- The first half of `ACLLoadFromFile`: the new table of users, with the
default user in it, or the errors.  The outer `none` is the access through
NULL. -/
def aclLoadUsers : Option (Except Bytes (Dict Bytes User)) :=
  match file.content with
  | .error err =>
    some (.error (ofString "Error loading ACLs, opening file '" ++ cstr file.name ++
      ofString "': " ++ err))
  | .ok content =>
    (loadLines env file 1 {} (fileLines content)).map fun st =>
      if st.errors.isEmpty then
        .ok (st.users.insert defaultName
          ((st.users.lookup defaultName).getD (aclCreateDefaultUser env)))
      else
        .error (st.errors ++ ofString ("WARNING: ACL errors detected, no change to " ++
          "the previously active ACL rules was performed"))

/-- The comparison made for the clients of `name`.  `DefaultUser` already has
its new rules when it is made, and is its own successor. -/
def upcomingFor (old new : Dict Bytes User) (name : Bytes) : Option (List Bytes) :=
  (new.lookup name).bind fun newUser =>
    if name = defaultName then getUpcomingChannelList newUser newUser true
    else
      (old.lookup name).bind fun original =>
        getUpcomingChannelList newUser original false

/-- The table `user_channels`, NULL when nobody is subscribed. -/
def cachedUpcoming (old new : Dict Bytes User) : Option (Dict Bytes (Option (List Bytes))) → Bytes →
      Option (List Bytes) × Option (Dict Bytes (Option (List Bytes)))
  | none, _ => (none, none)
  | some cache, name =>
    let (channels, cache) := memo (upcomingFor old new) cache name
    (channels, some cache)

/-- `freeClient` in the loop below: a client that stays for a while still
refers to the old user, which is freed at the end unless it is the default
one. -/
def freeClientOf (name : Bytes) (c : Client) : Option Client :=
  (freeClient c).map fun c => if name = defaultName then c else { c with user := .freed }

/-- The loop of `ACLLoadFromFile` over the clients.  It reads the name of each
client's user. -/
def loadClients (old new : Dict Bytes User) :
    Option (Dict Bytes (Option (List Bytes))) → List Client → Option (List Client)
  | _, [] => some []
  | cache, c :: rest =>
    match c.user with
    | .null => (loadClients old new cache rest).map (c :: ·)
    | .freed => none
    | .named name =>
      match new.lookup name with
      | none => (loadClients old new cache rest).map ((freeClientOf name c).toList ++ ·)
      | some _ =>
        let (channels, cache) := cachedUpcoming old new cache name
        if channels.any fun channels => aclShouldKillPubsubClient channels c then
          (loadClients old new cache rest).map ((freeClientOf name c).toList ++ ·)
        else (loadClients old new cache rest).map (c :: ·)

/-- `ACLLoadFromFile`. -/
def aclLoadFromFile (s : AclState) : Option (Except Bytes AclState) :=
  (aclLoadUsers env file).bind fun
    | .error errors => some (.error errors)
    | .ok users =>
      let userChannels := if pubsubTotalSubscriptions s.clients > 0 then some ∅ else none
      (loadClients s.users users userChannels s.clients).map fun clients =>
        .ok { users := users, clients := clients }

inductive AclOp
  | setuser (username : Bytes) (argv : List Bytes)
  | deluser (usernames : List Bytes)
  | load (file : AclFile)

inductive Reply
  | ok
  | integer (n : Nat)
  deriving DecidableEq, Repr

/-- How a command ends: in a memory error, with an error reply, or with
success. -/
inductive Outcome
  | fault
  | error (text : Bytes) (s : AclState)
  | done (reply : Reply) (s : AclState)
  deriving DecidableEq

/-- `addReply(c, shared.ok)`, where `c` may have been freed meanwhile. -/
def replyOk (before after : AclState) : Outcome :=
  if before.clients.any (fun c => c.id == caller) &&
      !after.clients.any (fun c => c.id == caller) then .fault
  else .done .ok after

def usernameError : Bytes := ofString "Usernames can't contain spaces or null characters"

def defaultUserError : Bytes := ofString "The 'default' user cannot be removed"

def noAclFileError : Bytes :=
  ofString ("This instance is not configured to use an ACL file. You may want to " ++
    "specify users via the ACL SETUSER command and then issue a CONFIG REWRITE " ++
    "(assuming you have a configuration file set) in order to store users in the " ++
    "configuration.")

/-- The branches of `aclCommand` that change users. -/
def aclCommand (s : AclState) (caller : Nat) : AclOp → Outcome
  | .setuser username argv =>
    if aclStringHasSpaces username then .error usernameError s
    else
      match aclStringSetUser env s username argv with
      | .error err => .error err s
      | .ok s' => replyOk caller s s'
  | .deluser usernames =>
    if usernames.any fun username => strEq username defaultName then
      .error defaultUserError s
    else
      let (s', deleted) := usernames.foldl (delUser caller) (s, 0)
      .done (.integer deleted) s'
  | .load file =>
    if file.name.isEmpty then .error noAclFileError s
    else
      match aclLoadFromFile env file s with
      | none => .fault
      | some (.error errors) => .error errors s
      | some (.ok s') => replyOk caller s s'

end Dice.Ports.AclCommands
