import Dice.Ports.AclSelector

/-!
# ACL users

A user is a set of flags, a list of password hashes and a list of selectors.
The first selector is the root selector and cannot be removed, so it is a
field of its own.  The hash function is a parameter that is only known to
produce well-formed hashes.
-/

namespace Dice.Ports.AclUser

open Verified CString Table Sds AclSelector

/-- `HASH_PASSWORD_LEN`. -/
def hashPasswordLen : Nat := 64

/-- `ACLCheckPasswordHash`: 64 lower-case hexadecimal digits. -/
def aclCheckPasswordHash (hash : Bytes) : Bool :=
  hash.length == hashPasswordLen && hash.all fun c => (97 ≤ c && c ≤ 102) || (48 ≤ c && c ≤ 57)

/-- What the ACL code takes from the rest of the server. -/
structure AclEnv where
  table : CommandTable
  /-- `acl-pubsub-default` is `allchannels`. -/
  pubsubDefault : Bool
  /-- `ACLHashPassword`. -/
  hashPassword : Bytes → Bytes
  hashPassword_ok : ∀ password, aclCheckPasswordHash (hashPassword password) = true

/-- `USER_FLAG_*`. -/
structure UserFlags where
  enabled : Bool := false
  disabled : Bool := true
  nopass : Bool := false
  sanitizePayloadSkip : Bool := false
  sanitizePayload : Bool := true
  deriving DecidableEq, Repr

/-- `user`; `selectors` is the list after the root selector. -/
structure User where
  flags : UserFlags := {}
  passwords : List Bytes := []
  root : Selector
  selectors : List Selector := []
  /-- The cached description. -/
  aclString : Option Bytes := none
  deriving DecidableEq

variable (env : AclEnv) (u : User)

/-- All selectors, the root one first. -/
def User.allSelectors : List Selector := u.root :: u.selectors

/-- The user `ACLCreateUser` makes. -/
def aclCreateUser : User := { root := aclCreateSelector env.pubsubDefault true }

/-- `aclCreateSelectorFromOpSet`.  Unbalanced quotes leave no operation to
apply and are not an error. -/
def aclCreateSelectorFromOpSet (opset : Bytes) : Except AclError Selector :=
  let trimmed := (opset.drop 1).dropLast
  let ops := (sdssplitargs trimmed).getD []
  ops.foldlM (aclSetSelector env.table) (aclCreateSelector env.pubsubDefault false)

/-- A password to add or remove: hashed here, or given as a hash. -/
def passwordOf (op : Bytes) (plainSign : UInt8) : Except AclError Bytes :=
  if opAt op 0 = plainSign then .ok (env.hashPassword (op.drop 1))
  else if aclCheckPasswordHash (op.drop 1) then .ok (op.drop 1)
  else .error .ebadmsg

/-- The `>` and `#` operations. -/
def addPassword (op : Bytes) : Except AclError User :=
  (passwordOf env op 62).map fun newpass =>
    let passwords :=
      if u.passwords.contains newpass then u.passwords else u.passwords ++ [newpass]
    { u with passwords := passwords, flags := { u.flags with nopass := false } }

/-- The `<` and `!` operations. -/
def removePassword (op : Bytes) : Except AclError User :=
  (passwordOf env op 60).bind fun delpass =>
    if u.passwords.contains delpass then
      .ok { u with passwords := u.passwords.erase delpass }
    else .error .enodev

/-- `resetpass`. -/
def resetPass : User := { u with passwords := [], flags := { u.flags with nopass := false } }

/-- `reset`: `resetpass`, `resetkeys`, `resetchannels`, `allchannels` if that is
the default, `off`, `sanitize-payload`, `clearselectors`, `-@all`. -/
def resetUser : User :=
  let u := resetPass u
  let root := { u.root with
    allKeys := false, patterns := [], allChannels := env.pubsubDefault, channels := [] }
  { u with
    flags := { u.flags with
      enabled := false, disabled := true
      sanitizePayloadSkip := false, sanitizePayload := true }
    root := setNoCommands root
    selectors := [] }

/-- `ACLSetUser`. -/
def aclSetUser (op : Bytes) : Except AclError User :=
  let u := { u with aclString := none }
  if op.isEmpty then .ok u
  else if opIs op "on" then
    .ok { u with flags := { u.flags with enabled := true, disabled := false } }
  else if opIs op "off" then
    .ok { u with flags := { u.flags with disabled := true, enabled := false } }
  else if opIs op "skip-sanitize-payload" then
    .ok { u with flags := { u.flags with
      sanitizePayloadSkip := true, sanitizePayload := false } }
  else if opIs op "sanitize-payload" then
    .ok { u with flags := { u.flags with
      sanitizePayloadSkip := false, sanitizePayload := true } }
  else if opIs op "nopass" then
    .ok { u with passwords := [], flags := { u.flags with nopass := true } }
  else if opIs op "resetpass" then .ok (resetPass u)
  else if opAt op 0 = 62 || opAt op 0 = 35 then addPassword env u op
  else if opAt op 0 = 60 || opAt op 0 = 33 then removePassword env u op
  else if opAt op 0 = 40 && opAt op (op.length - 1) = 41 then
    (aclCreateSelectorFromOpSet env op).map fun selector =>
      { u with selectors := u.selectors ++ [selector] }
  else if opIs op "clearselectors" then .ok { u with selectors := [] }
  else if opIs op "reset" then .ok (resetUser env u)
  else
    (aclSetSelector env.table u.root op).map fun root => { u with root := root }

/-- `ACLSetUserStringError`. -/
def aclSetUserStringError : AclError → String
  | .enoent => "Unknown command or category name in ACL"
  | .einval => "Syntax error"
  | .eexist =>
    "Adding a pattern after the * pattern (or the 'allkeys' flag) is not valid " ++
    "and does not have any effect. Try 'resetkeys' to start with an empty " ++
    "list of patterns"
  | .eisdir =>
    "Adding a pattern after the * pattern (or the 'allchannels' flag) is not valid " ++
    "and does not have any effect. Try 'resetchannels' to start with an empty " ++
    "list of channels"
  | .enodev => "The password you are trying to remove from the user does not exist"
  | .ebadmsg =>
    "The password hash must be exactly 64 characters and contain only " ++
    "lowercase hexadecimal characters"
  | .echild => "Allowing first-arg of a subcommand is not supported"

/-- One round of `ACLMergeSelectorArguments`.  The state is the arguments
merged so far and, inside a bracket, the argument that opened it and the text
collected since. -/
def mergeStep (state : List Bytes × Option (Bytes × Bytes)) (op : Bytes) :
    List Bytes × Option (Bytes × Bytes) :=
  match state with
  | (merged, none) =>
    if opAt op 0 = 40 && op.getLast? != some 41 then (merged, some (op, op))
    else (merged ++ [op], none)
  | (merged, some (start, selector)) =>
    let selector := selector ++ 32 :: cstr op
    if op.getLast? = some 41 then (merged ++ [selector], none)
    else (merged, some (start, selector))

/-- `ACLMergeSelectorArguments`; a bracket that stays open is an error that
names the argument it started in. -/
def aclMergeSelectorArguments (argv : List Bytes) : Except Bytes (List Bytes) :=
  match argv.foldl mergeStep ([], none) with
  | (merged, none) => .ok merged
  | (_, some (start, _)) => .error start

/-- One staged operation, with the error text of `ACLStringSetUser`. -/
def stageOp (op : Bytes) : Except Bytes User :=
  match aclSetUser env u op with
  | .ok u => .ok u
  | .error err =>
    .error (ofString "Error in ACL SETUSER modifier '" ++ cstr op ++
      ofString "': " ++ ofString (aclSetUserStringError err))

/-- The part of `ACLStringSetUser` that merges the arguments and applies them
to the temporary user. -/
def stageUser (argv : List Bytes) : Except Bytes User :=
  match aclMergeSelectorArguments argv with
  | .error start =>
    .error (ofString "Unmatched parenthesis in acl selector starting at '" ++
      cstr start ++ ofString "'.")
  | .ok args => args.foldlM (stageOp env) u

end Dice.Ports.AclUser
