import Dice.Ports.Glob
import Dice.Ports.AclUser

/-!
# ACL permission checks

Whether a user may run a command with given arguments.  The selectors are
alternatives: one of them has to allow the command, all its keys and all its
channels.
-/

namespace Dice.Ports.AclCheck

open Verified CString Table Glob KeySpecs AclSelector AclUser List Option

/-- The results of a check. -/
inductive AclResult
  | ok
  | deniedCmd
  | deniedKey
  | deniedChannel
  deriving DecidableEq, Repr

/-- The numeric values, by which the most relevant error is chosen. -/
def AclResult.code : AclResult → Nat
  | .ok => 0
  | .deniedCmd => 1
  | .deniedKey => 2
  | .deniedChannel => 4

variable (selector : Selector) (cmd : CommandInfo)

/-- `ACLSelectorCheckKey`. -/
def aclSelectorCheckKey (key : Bytes) (flags : KeySpecFlags) : AclResult :=
  if selector.allKeys then .ok
  else
    let needRead := flags.access
    let needWrite := flags.insert || flags.delete || flags.update
    let allowed := selector.patterns.any fun pattern =>
      (!needRead || pattern.read) && (!needWrite || pattern.write) &&
        stringmatchlen pattern.pattern key
    if allowed then .ok else .deniedKey

/-- `ACLCheckChannelAgainstList`: a pattern has to be listed literally. -/
def aclCheckChannelAgainstList (reference : List Bytes) (channel : Bytes)
    (isPattern : Bool) : AclResult :=
  let allowed := reference.any fun pattern =>
    (isPattern && strEq pattern channel) || (!isPattern && stringmatchlen pattern channel)
  if allowed then .ok else .deniedChannel

/-- The search for the first argument; reading past the arguments has no
result. -/
def firstArgAllowed (arg : Option Bytes) : List Bytes → Option Bool
  | [] => some false
  | first :: rest =>
    arg.bind fun a => if strcaseEq a first then some true else firstArgAllowed arg rest

/-- The command part of `ACLSelectorCheckCmd`. -/
def selectorAllowsCommand (argv : List Bytes) : Option Bool :=
  if selector.allCommands || cmd.noAuth then some true
  else if aclGetSelectorCommandBit selector cmd.id then some true
  else if argv.length < 2 then some false
  else
    match selector.allowedFirstargs.lookup cmd.id with
    | none => some false
    | some firstargs => firstArgAllowed argv[if cmd.parent then 2 else 1]? firstargs

/-- The key loop: the first key the selector does not cover. -/
def deniedKey (selector : Selector) (argv : List Bytes) : List KeyReference → Option (Option Int)
  | [] => some none
  | key :: keys =>
    (argAt argv key.pos).bind fun arg =>
      if aclSelectorCheckKey selector arg key.flags = .ok then
        deniedKey selector argv keys
      else some (some key.pos)

/-- The channel loop. -/
def deniedChannel (selector : Selector) (argv : List Bytes) :
    List ChannelReference → Option (Option Int)
  | [] => some none
  | channel :: channels =>
    if !channel.flags.publish && !channel.flags.subscribe then
      deniedChannel selector argv channels
    else
      (argAt argv channel.pos).bind fun arg =>
        if aclCheckChannelAgainstList selector.channels arg channel.flags.pattern = .ok then
          deniedChannel selector argv channels
        else some (some channel.pos)

/-- The key part of `ACLSelectorCheckCmd`: the position of a key that is
denied. -/
def selectorDeniesKey (argv : List Bytes) : Option (Option Int) :=
  if !selector.allKeys && doesCommandHaveKeys cmd then
    (getKeysFromCommandWithSpecs cmd argv).bind (deniedKey selector argv)
  else some none

/-- The channel part of `ACLSelectorCheckCmd`. -/
def selectorDeniesChannel (argv : List Bytes) : Option (Option Int) :=
  if !selector.allChannels && doesCommandHaveChannels cmd then
    deniedChannel selector argv (getChannelsFromCommand cmd argv)
  else some none

/-- `ACLSelectorCheckCmd`: the result, and the position of the argument that
was denied (`keyidxptr` is left alone otherwise). -/
def aclSelectorCheckCmd (argv : List Bytes) : Option (AclResult × Option Int) := do
  let allowed ← selectorAllowsCommand selector cmd argv
  if !allowed then return (.deniedCmd, none)
  match ← selectorDeniesKey selector cmd argv with
  | some pos => return (.deniedKey, some pos)
  | none =>
    match ← selectorDeniesChannel selector cmd argv with
    | some pos => return (.deniedChannel, some pos)
    | none => return (.ok, none)

/-- The selector loop of `ACLCheckAllUserCommandPerm`.  `localIdx` keeps the
position of an earlier selector when a later one does not set it. -/
def checkSelectors (cmd : CommandInfo) (argv : List Bytes)
    (relevantError : AclResult) (localIdx lastIdx : Int) : List Selector → Option (AclResult × Int)
  | [] => some (relevantError, lastIdx)
  | selector :: rest =>
    (aclSelectorCheckCmd selector cmd argv).bind fun
      | (result, pos) =>
        let localIdx := pos.getD localIdx
        if result = .ok then some (.ok, lastIdx)
        else if result.code > relevantError.code ∨
            (result.code = relevantError.code ∧ localIdx > lastIdx) then
          checkSelectors cmd argv result localIdx localIdx rest
        else checkSelectors cmd argv relevantError localIdx lastIdx rest

/-- `ACLCheckAllUserCommandPerm`; a connection without a user may run
anything. -/
def aclCheckAllUserCommandPerm (u : Option User) (cmd : CommandInfo)
    (argv : List Bytes) : Option (AclResult × Int) :=
  match u with
  | none => some (.ok, 0)
  | some u => checkSelectors cmd argv .deniedCmd 0 0 u.allSelectors

/-- `ACLUserCheckChannelPerm`. -/
def aclUserCheckChannelPerm (u : Option User) (channel : Bytes) (isPattern : Bool) : AclResult :=
  match u with
  | none => .ok
  | some u =>
    let allowed := u.allSelectors.any fun selector =>
      selector.allChannels || aclCheckChannelAgainstList selector.channels channel isPattern == .ok
    if allowed then .ok else .deniedChannel

/-- The selector loop, when the checks of all selectors have results: the
command is granted exactly when one of them grants it. -/
lemma checkSelectors_spec (cmd : CommandInfo) (argv : List Bytes) (selectors : List Selector)
    (hsome : ∀ s ∈ selectors, (aclSelectorCheckCmd s cmd argv).isSome)
    {relevantError : AclResult} (hne : relevantError ≠ .ok) (localIdx lastIdx : Int) :
    ∃ result idx, checkSelectors cmd argv relevantError localIdx lastIdx selectors =
      some (result, idx) ∧
    (result = .ok ↔ ∃ s ∈ selectors, ∃ pos, aclSelectorCheckCmd s cmd argv = some (.ok, pos)) := by
  induction selectors generalizing relevantError localIdx lastIdx with
  | nil => exact ⟨relevantError, lastIdx, rfl, by simp [hne]⟩
  | cons selector rest ih =>
    have hrest := @ih fun s hs => hsome s (by simp [hs])
    obtain ⟨⟨result, pos⟩, hcheck⟩ := isSome_iff_exists.mp (hsome selector (by simp))
    simp only [checkSelectors, hcheck, bind_some]
    by_cases hok : result = .ok
    · subst hok
      exact ⟨.ok, lastIdx, if_pos rfl, iff_of_true rfl ⟨selector, by simp, pos, hcheck⟩⟩
    -- a selector that does not grant only changes the error
    have hiff : (∃ s ∈ selector :: rest, ∃ pos, aclSelectorCheckCmd s cmd argv = some (.ok, pos)) ↔
      ∃ s ∈ rest, ∃ pos, aclSelectorCheckCmd s cmd argv = some (.ok, pos) := by simp [hcheck, hok]
    simp only [if_neg hok, hiff]
    split
    · exact hrest hok _ _
    · exact hrest hne _ _

end Dice.Ports.AclCheck
