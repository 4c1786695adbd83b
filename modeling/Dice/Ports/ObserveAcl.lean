import Dice.Ports.ObserveHandlers
import Dice.Ports.AclCheck

/-!
# Permissions and OBSERVE

`OBSERVE cmd key ...` runs the handler of `cmd`, but what is checked before
it runs is the entry of `observe` in the command table: that entry declares
no key and no channel, and its first argument is the name of the observed
command.  So the check looks at the bit of `observe` and at first-argument
rules for `observe`, never at `cmd` or at `key`.
-/

namespace Dice.Ports.ObserveAcl

open Verified CString Table KeySpecs AclSelector AclUser AclCheck ObserveHandlers List

/-- The entry of `observe`, with the categories that follow from its flags
(`@pubsub`, `@slow`). -/
def observeInfo (id : Nat) : CommandInfo :=
  { fullname := ofString "observe", id := id, aclCategories := 0x9000 }

/-- Does the key spec of the command carry `CMD_KEY_ACCESS`? -/
def keyAccess : Handler → Bool
  | .strlenCommand | .hlenCommand | .hexistsCommand | .hstrlenCommand
  | .llenCommand | .scardCommand | .sismemberCommand | .zcardCommand
  | .xlenCommand | .existsCommand | .typeCommand => false
  | _ => true

/-- `EXISTS` and `PFCOUNT` take any number of keys, the others one. -/
def manyKeys : Handler → Bool
  | .existsCommand | .pfcountCommand => true
  | _ => false

/-- The flags of the keys of an observable command. -/
def handlerFlags (handler : Handler) : KeySpecFlags := { access := keyAccess handler }

/-- The spec of one key at position 1, or of keys from there to the end. -/
def firstKeySpec (flags : KeySpecFlags) (many : Bool) : KeySpec :=
  ⟨flags, .index 1, .range (if many then -1 else 0) 1 0⟩

/-- The key specs of the observable commands: one key at position 1, or keys
from there to the end; `SORT_RO` has a second spec of unknown extent. -/
def handlerKeySpecs (handler : Handler) : List KeySpec :=
  let first := firstKeySpec (handlerFlags handler) (manyKeys handler)
  if handler = .sortroCommand then
    [first, ⟨handlerFlags handler, .unknown, .unknown⟩]
  else [first]

def sortROGetKeys (_ : List Bytes) : List KeyReference :=
  [{ pos := 1, flags := { access := true } }]

/-- The table entry of an observable command. -/
def observedCommand (handler : Handler) (id : Nat) : CommandInfo :=
  let name := ((handlerTable.find? fun entry => entry.2 = handler).map
    Prod.fst).getD ""
  { fullname := lower (ofString name)
    id := id
    keySpecs := handlerKeySpecs handler
    getkeysProc := if handler = .sortroCommand then some sortROGetKeys else none }

/-- The keys the command names. -/
def keysNamed (handler : Handler) (key : Bytes) (args : List Bytes) : List Bytes :=
  if manyKeys handler then key :: args else [key]

lemma positions_one (last : Int) (n : Nat) : ∀ i : Int, i + n = last + 1 →
    positions last 1 n i = (range n).map fun (j : Nat) => i + (j : Int) := by
  induction n with
  | zero =>
    intro i _
    rfl
  | succ n ih =>
    intro i hlast
    have hle : i ≤ last := by omega
    rw [positions, if_pos hle, ih (i + 1) (by omega), range_succ_eq_map, map_cons, map_map]
    congr 1
    · omega
    refine map_congr_left ?_
    intro j _
    show i + 1 + (j : Int) = i + ((j + 1 : Nat) : Int)
    omega

/-- The references to the first key, or to all arguments. -/
def firstKeys (flags : KeySpecFlags) (count : Nat) : List KeyReference :=
  (range count).map fun (j : Nat) => { pos := 1 + (j : Int), flags := flags }

lemma keysOfSpec_first (flags : KeySpecFlags) (many : Bool) (argv : List Bytes)
    (hinc : flags.incomplete = false) (hlen : 2 ≤ argv.length) :
    keysOfSpec argv (firstKeySpec flags many) =
    .keys (firstKeys flags (if many then argv.length - 1 else 1)) := by
  unfold firstKeys
  cases many with
  | false =>
    simp only [firstKeySpec, keysOfSpec, findKeysFrom, Bool.false_eq_true, if_false]
    rw [if_pos (by omega)]
    unfold collectKeys
    rw [if_neg (by omega), if_neg (by omega)]
    simp only [hinc]
    rw [positions_one _ _ _ (by omega)]
    simp
  | true =>
    simp only [firstKeySpec, keysOfSpec, findKeysFrom, if_true]
    unfold collectKeys
    rw [if_neg (by omega), if_neg (by omega)]
    simp only [hinc]
    rw [positions_one _ _ _ (by omega), map_map]
    have hcount : ((argv.length : Int) + -1 - 1 + 1).toNat = argv.length - 1 := by omega
    rw [hcount]
    rfl

lemma getKeys_observed (handler : Handler) (id : Nat) (argv : List Bytes) (hlen : 2 ≤ argv.length) :
    getKeysFromCommandWithSpecs (observedCommand handler id) argv =
    some (firstKeys (handlerFlags handler)
      (if manyKeys handler then argv.length - 1 else 1)) := by
  have hspec := keysOfSpec_first (handlerFlags handler) (manyKeys handler) argv rfl hlen
  have hhas : (observedCommand handler id).hasKeySpec := by
    by_cases hsort : handler = .sortroCommand <;>
      simp [observedCommand, handlerKeySpecs, CommandInfo.hasKeySpec, hsort,
        firstKeySpec, handlerFlags]
  have hvar : (observedCommand handler id).hasVarFlags = false := by
    by_cases hsort : handler = .sortroCommand <;>
      simp [observedCommand, handlerKeySpecs, CommandInfo.hasVarFlags, hsort,
        firstKeySpec, handlerFlags]
  unfold getKeysFromCommandWithSpecs
  rw [hhas, hvar]
  have hspecs : (observedCommand handler id).keySpecs = handlerKeySpecs handler := rfl
  rw [Bool.not_false, Bool.and_true, hspecs, handlerKeySpecs]
  by_cases hsort : handler = .sortroCommand
  · -- the unknown second spec spoils the first one: `sortROGetKeys` answers
    rw [if_pos hsort, getKeysUsingKeySpecs_keys _ (by simp [firstKeySpec]) rfl hspec]
    subst hsort
    rfl
  · rw [if_neg hsort, getKeysUsingKeySpecs_keys _ (by simp [firstKeySpec]) rfl hspec]
    rfl

variable (selector : Selector) (cmd : CommandInfo)

/-- The key loop passes exactly when every listed key is covered. -/
lemma deniedKey_firstKeys (flags : KeySpecFlags) (name : Bytes) (count : Nat) :
    ∀ (keys : List Bytes), count ≤ keys.length →
    ∃ result, deniedKey selector (name :: keys) (firstKeys flags count) = some result ∧
      (result = none ↔ ∀ key ∈ keys.take count, aclSelectorCheckKey selector key flags = .ok) := by
  -- the loop runs over positions; it is generalised to any window of them
  have hwindow : ∀ (n start : Nat) (keys : List Bytes), start + n ≤ keys.length →
    ∃ result, deniedKey selector (name :: keys) ((range n).map fun (j : Nat) =>
        { pos := 1 + ((start + j : Nat) : Int), flags := flags }) = some result ∧
      (result = none ↔ ∀ key ∈ (keys.drop start).take n,
        aclSelectorCheckKey selector key flags = .ok) := by
    intro n
    induction n with
    | zero =>
      intro start keys _
      exact ⟨none, rfl, by simp⟩
    | succ n ih =>
      intro start keys hlen
      have hstart : start < keys.length := by omega
      have harg : argAt (name :: keys) (1 + ((start + 0 : Nat) : Int)) = some keys[start] := by
        have hto : (1 + ((start + 0 : Nat) : Int)).toNat = start + 1 := by omega
        unfold argAt
        rw [if_pos (by omega), hto, getElem?_cons_succ, getElem?_eq_getElem hstart]
      have htake : (keys.drop start).take (n + 1) =
        keys[start] :: (keys.drop (start + 1)).take n := by
        rw [drop_eq_getElem_cons hstart, take_succ_cons]
      rw [range_succ_eq_map, map_cons, map_map, deniedKey, harg, Option.bind_some, htake]
      by_cases hok : aclSelectorCheckKey selector keys[start] flags = .ok
      · rw [if_pos hok]
        obtain ⟨result, hresult, hiff⟩ := ih (start + 1) keys (by omega)
        refine ⟨result, ?_, ?_⟩
        · rw [← hresult]
          congr 1
          refine map_congr_left ?_
          intro j _
          show ({ pos := 1 + ((start + (j + 1) : Nat) : Int), flags := flags } :
            KeyReference) = { pos := 1 + ((start + 1 + j : Nat) : Int), flags := flags }
          have hpos : start + (j + 1) = start + 1 + j := by omega
          rw [hpos]
        · rw [hiff]
          simp [hok]
      · rw [if_neg hok]
        refine ⟨some _, rfl, ?_⟩
        simp [hok]
  intro keys hlen
  obtain ⟨result, hresult, hiff⟩ := hwindow count 0 keys (by omega)
  refine ⟨result, ?_, by simpa using hiff⟩
  rw [← hresult]
  congr 1
  refine map_congr_left ?_
  intro j _
  simp

/-! ## Who may do what -/

/-- The selector allows the command itself, with this first argument. -/
def grantsCommand (selector : Selector) (id : Nat) (firstArg : Bytes) : Bool :=
  selector.allCommands || aclGetSelectorCommandBit selector id ||
    ((selector.allowedFirstargs.lookup id).getD []).any (strcaseEq firstArg)

/-- The selector allows the observed command and every key it names. -/
def GrantsObserved (selector : Selector) (handler : Handler) (id : Nat)
    (key : Bytes) (args : List Bytes) : Prop :=
  grantsCommand selector id key = true ∧ ∀ k ∈ keysNamed handler key args,
      aclSelectorCheckKey selector k (handlerFlags handler) = .ok

lemma firstArgAllowed_eq (arg : Bytes) (firstargs : List Bytes) :
    firstArgAllowed (some arg) firstargs = some (firstargs.any (strcaseEq arg)) := by
  induction firstargs with
  | nil => rfl
  | cons first rest ih =>
    simp only [firstArgAllowed]
    by_cases h : strcaseEq arg first
    · simp [h]
    · simp [h, ih]

/-- The command part of the check, for a command that needs authentication
and is no subcommand. -/
lemma selectorAllowsCommand_eq (name firstArg : Bytes) (args : List Bytes)
    (hauth : cmd.noAuth = false) (hparent : cmd.parent = false) :
    selectorAllowsCommand selector cmd (name :: firstArg :: args) =
    some (grantsCommand selector cmd.id firstArg) := by
  unfold selectorAllowsCommand grantsCommand
  rw [hauth, hparent, Bool.or_false]
  cases hall : selector.allCommands with
  | true => simp
  | false =>
    cases hbit : aclGetSelectorCommandBit selector cmd.id with
    | true => simp
    | false =>
      simp only [Bool.false_eq_true, if_false, length_cons]
      rw [if_neg (by omega)]
      cases selector.allowedFirstargs.lookup cmd.id with
      | none => simp
      | some firstargs => simp [firstArgAllowed_eq]

/-- The check of `observe` is the command part alone. -/
lemma aclSelectorCheckCmd_observe (id : Nat) (name cmdName : Bytes) (args : List Bytes) :
    aclSelectorCheckCmd selector (observeInfo id) (name :: cmdName :: args) =
    some (if grantsCommand selector id cmdName then .ok else .deniedCmd, none) := by
  have hcmd := selectorAllowsCommand_eq selector (observeInfo id) name cmdName args
    rfl rfl
  have hkeys : selectorDeniesKey selector (observeInfo id) (name :: cmdName :: args) =
    some none := by
    simp [selectorDeniesKey, doesCommandHaveKeys, observeInfo, CommandInfo.hasKeySpec]
  have hchannels : selectorDeniesChannel selector (observeInfo id)
    (name :: cmdName :: args) = some none := by
    simp [selectorDeniesChannel, doesCommandHaveChannels, observeInfo]
  unfold aclSelectorCheckCmd
  rw [hcmd, hkeys, hchannels]
  show (if (!grantsCommand selector id cmdName) then _ else _) = _
  cases grantsCommand selector id cmdName <;> rfl

/-- The check of an observable command always has a result, and grants exactly
what `GrantsObserved` says. -/
lemma aclSelectorCheckCmd_observed (handler : Handler) (id : Nat) (cmdName key : Bytes)
    (args : List Bytes) :
    ∃ result pos, aclSelectorCheckCmd selector (observedCommand handler id)
      (cmdName :: key :: args) = some (result, pos) ∧
    (result = .ok ↔ GrantsObserved selector handler id key args) := by
  have hcmd := selectorAllowsCommand_eq selector (observedCommand handler id) cmdName
    key args rfl rfl
  have hchannels : selectorDeniesChannel selector (observedCommand handler id)
    (cmdName :: key :: args) = some none := by
    simp [selectorDeniesChannel, doesCommandHaveChannels, observedCommand]
  have hkeys : ∃ denied, selectorDeniesKey selector (observedCommand handler id)
      (cmdName :: key :: args) = some denied ∧
    (denied = none ↔ ∀ k ∈ keysNamed handler key args,
      aclSelectorCheckKey selector k (handlerFlags handler) = .ok) := by
    unfold selectorDeniesKey
    cases hall : selector.allKeys with
    | true =>
      refine ⟨none, by simp, ?_⟩
      simp [aclSelectorCheckKey, hall]
    | false =>
      have hhas : doesCommandHaveKeys (observedCommand handler id) := by
        by_cases hsort : handler = .sortroCommand <;>
          simp [doesCommandHaveKeys, observedCommand, handlerKeySpecs,
            CommandInfo.hasKeySpec, hsort, firstKeySpec, handlerFlags]
      rw [hhas, getKeys_observed handler id _ (by simp)]
      have hcount : (if manyKeys handler then (cmdName :: key :: args).length - 1
        else 1) ≤ (key :: args).length := by
        split <;> simp
      obtain ⟨result, hresult, hiff⟩ := deniedKey_firstKeys selector
        (handlerFlags handler) cmdName _ (key :: args) hcount
      refine ⟨result, hresult, ?_⟩
      rw [hiff]
      unfold keysNamed
      cases manyKeys handler <;> simp
  obtain ⟨denied, hdenied, hiff⟩ := hkeys
  unfold aclSelectorCheckCmd GrantsObserved
  rw [hcmd, hdenied, hchannels]
  have hid : (observedCommand handler id).id = id := rfl
  rw [hid, ← hiff]
  cases hgrant : grantsCommand selector id key with
  | false => exact ⟨.deniedCmd, none, rfl, by simp⟩
  | true =>
    cases denied with
    | none => exact ⟨.ok, none, rfl, by simp⟩
    | some pos => exact ⟨.deniedKey, some pos, rfl, by simp⟩

/-- The check has a result, and it is not `ACL_OK`. -/
def Denied (u : Option User) (cmd : CommandInfo) (argv : List Bytes) : Prop :=
  ∃ result idx, aclCheckAllUserCommandPerm u cmd argv = some (result, idx) ∧ result ≠ .ok

/-- A user whose selectors' checks all have results is denied exactly when
none of them grants. -/
lemma denied_iff (u : User) (cmd : CommandInfo) (argv : List Bytes)
    (hsome : ∀ s ∈ u.allSelectors, (aclSelectorCheckCmd s cmd argv).isSome) :
    Denied (some u) cmd argv ↔
    ∀ s ∈ u.allSelectors, ∀ pos, aclSelectorCheckCmd s cmd argv ≠ some (.ok, pos) := by
  obtain ⟨result, idx, hr, hok⟩ := checkSelectors_spec cmd argv u.allSelectors hsome
    (show AclResult.deniedCmd ≠ .ok by simp) 0 0
  have hdenied : Denied (some u) cmd argv ↔ result ≠ .ok := by
    constructor
    · rintro ⟨result', idx', hr', hne⟩
      cases hr.symm.trans hr'
      exact hne
    · exact fun hne => ⟨result, idx, hr, hne⟩
  rw [hdenied, Ne, hok]
  simp

/-- What a user is denied directly stays denied through `OBSERVE` exactly when
no selector grants `OBSERVE` with that command, or some selector grants the
command on the keys it names. `handler` is the one `findHandlerForCommand` gives
for `cmdName`; the check of `OBSERVE` looks neither at it nor at the keys. -/
theorem observe_keeps_denial_iff (u : User) (observeId id : Nat) (handler : Handler)
    (name cmdName key : Bytes) (args : List Bytes) :
    (Denied (some u) (observedCommand handler id) (cmdName :: key :: args) →
        Denied (some u) (observeInfo observeId) (name :: cmdName :: key :: args)) ↔
      (∀ s ∈ u.allSelectors, grantsCommand s observeId cmdName = false) ∨
        ∃ s ∈ u.allSelectors, GrantsObserved s handler id key args := by
  have hobserve := denied_iff u (observeInfo observeId) (name :: cmdName :: key :: args) (by
      intro s _
      rw [aclSelectorCheckCmd_observe]
      rfl)
  have hobserved := denied_iff u (observedCommand handler id) (cmdName :: key :: args) (by
      intro s _
      obtain ⟨result, pos, hcheck, _⟩ := aclSelectorCheckCmd_observed s handler id cmdName key args
      rw [hcheck]
      rfl)
  have hgrant : (∀ s ∈ u.allSelectors, ∀ pos,
        aclSelectorCheckCmd s (observeInfo observeId) (name :: cmdName :: key :: args) ≠
          some (.ok, pos)) ↔
      ∀ s ∈ u.allSelectors, grantsCommand s observeId cmdName = false := by
    refine forall₂_congr ?_
    intro s _
    rw [aclSelectorCheckCmd_observe]
    cases grantsCommand s observeId cmdName <;> simp
  have hdirect : (∀ s ∈ u.allSelectors, ∀ pos,
        aclSelectorCheckCmd s (observedCommand handler id) (cmdName :: key :: args) ≠
          some (.ok, pos)) ↔
      ∀ s ∈ u.allSelectors, ¬ GrantsObserved s handler id key args := by
    refine forall₂_congr ?_
    intro s _
    obtain ⟨result, pos, hcheck, hiff⟩ := aclSelectorCheckCmd_observed s handler id cmdName key args
    rw [hcheck, ← hiff]
    simp
  rw [hobserve, hobserved, hgrant, hdirect]
  constructor
  · intro h
    by_cases hall : ∀ s ∈ u.allSelectors, ¬ GrantsObserved s handler id key args
    · exact .inl (h hall)
    · simp only [not_forall, not_not] at hall
      obtain ⟨s, hs, hgranted⟩ := hall
      exact .inr ⟨s, hs, hgranted⟩
  · rintro (hnone | ⟨s, hs, hgranted⟩) hall
    · exact hnone
    · exact absurd hgranted (hall s hs)

/-- A user with `+get +observe ~public:*`: command 5 is `observe`, command 3
is `get`. -/
private def watcher : User :=
  { root := { root := true
              allowedCommands := BitVec.twoPow userCommandBitsCount 3 |||
                BitVec.twoPow userCommandBitsCount 5
              patterns := [⟨true, true, ofString "public:*"⟩] } }

/-- The user may not `GET secret`, but may `OBSERVE GET secret`. -/
theorem observe_reads_denied_key : findHandlerForCommand (ofString "GET") = some .getCommand ∧
      Denied (some watcher) (observedCommand .getCommand 3)
        [ofString "GET", ofString "secret"] ∧
      aclCheckAllUserCommandPerm (some watcher) (observeInfo 5)
        [ofString "OBSERVE", ofString "GET", ofString "secret"] = some (.ok, 0) := by
  refine ⟨by decide, ⟨.deniedKey, 1, ?_, by decide⟩, ?_⟩
  · decide +kernel
  · decide +kernel

end Dice.Ports.ObserveAcl
