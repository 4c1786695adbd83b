import Dice.Ports.AclUser

/-!
# Describing users

`ACL LIST`, `ACL SAVE` and the rewriting of the configuration file print a
user as a list of operations that is meant to recreate it.  The command rules
come from the text a selector has kept; the code splits that text again,
applies it to a scratch selector and aborts when the bitmaps differ.

`none` stands for the end of the process, by an assertion or by
`serverPanic`.
-/

namespace Dice.Ports.AclDescribe

open Verified.CString Sds AclSelector AclUser

/-- `sdsCatPatternString`; it panics on a pattern without permissions. -/
def catPatternString (pat : KeyPattern) : Option Bytes :=
  if pat.read && pat.write then some (126 :: pat.pattern)
  else if pat.read then some (ofString "%R~" ++ pat.pattern)
  else if pat.write then some (ofString "%W~" ++ pat.pattern)
  else none

variable (env : AclEnv) (selector : Selector)

/-- The rule a description of commands starts with. -/
def startRule : Bytes :=
  ofString (if aclSelectorCanExecuteFutureCommands selector then "+@all" else "-@all")

/-- Rules given to `ACLSetSelector` with the length -1, which makes the
terminating NUL part of the operation. -/
def setTerminated (op : Bytes) : Except AclError Selector :=
  aclSetSelector env.table selector (op ++ [0])

/-- `ACLDescribeSelectorCommandRules`. -/
def aclDescribeSelectorCommandRules : Option Bytes := do
  let argv ← sdssplitargs selector.commandRules
  -- the first of these calls is not checked in the source; it cannot fail
  let fake ← ((startRule selector :: argv).foldlM (setTerminated env)
    (aclCreateSelector env.pubsubDefault false)).toOption
  let rules := startRule selector ++ [32]
  let rules :=
    if selector.commandRules.isEmpty then rules
    else rules ++ selector.commandRules ++ [32]
  if fake.allowedCommands = selector.allowedCommands then some rules.dropLast
  else none

/-- The key patterns in a description. -/
def describeKeys : Option (List Bytes) :=
  if selector.allKeys then some [ofString "~*"]
  else selector.patterns.mapM catPatternString

/-- The channel patterns in a description. -/
def describeChannels : List Bytes :=
  if selector.allChannels then [ofString "&*"]
  else ofString "resetchannels" :: selector.channels.map (38 :: ·)

/-- `ACLDescribeSelector`. -/
def aclDescribeSelector : Option Bytes := do
  let patterns ← describeKeys selector
  let rules ← aclDescribeSelectorCommandRules env selector
  some ((patterns ++ describeChannels selector).flatMap (· ++ [32]) ++ rules)

/-- `ACLUserFlags`, in the order in which they are printed. -/
def aclUserFlags : List (Bytes × (UserFlags → Bool)) :=
  [(ofString "on", (·.enabled)), (ofString "off", (·.disabled)), (ofString "nopass", (·.nopass)),
    (ofString "skip-sanitize-payload", (·.sanitizePayloadSkip)),
    (ofString "sanitize-payload", (·.sanitizePayload))]

/-- The names of the flags that are set. -/
def flagNames (flags : UserFlags) : List Bytes :=
  (aclUserFlags.filter fun item => item.2 flags).map Prod.fst

/-- One selector as `ACLDescribeUser` prints it. -/
def describeMember : Option Bytes :=
  (aclDescribeSelector env selector).map fun perm =>
    if selector.root then cstr perm else 32 :: 40 :: cstr perm ++ [41]

/-- `ACLDescribeUser`: the text, and the user that now caches it. -/
def aclDescribeUser (u : User) : Option (Bytes × User) :=
  match u.aclString with
  | some text => some (text, u)
  | none => do
      let selectors ← u.allSelectors.mapM (describeMember env)
      let words := flagNames u.flags ++ u.passwords.map (35 :: ·)
      let text := words.flatMap (· ++ [32]) ++ selectors.flatten
      some (text, { u with aclString := some text })

/-- What a loaded description does: it is split at blanks, brackets are put
together again, and the operations are applied to a new user. -/
def applyDescription (text : Bytes) : Except Bytes User :=
  stageUser env (aclCreateUser env) (sdssplitlen text 32)

end Dice.Ports.AclDescribe
