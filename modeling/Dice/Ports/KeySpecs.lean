import Dice.Ports.NumberParsing

/-!
# Keys and channels of a command

Where a command's keys are among its arguments is declared in the command
table by key specs; commands whose specs are not good enough have a function
of their own.  Channels are declared by a small table of the pub/sub commands.

An outcome of `none` is undefined behaviour: a failed assertion, a read past
the arguments or a loop that does not advance.
-/

namespace Dice.Ports.KeySpecs

open Verified.CString NumberParsing

/-- The `CMD_KEY_*` flags that key extraction and permission checks read. -/
structure KeySpecFlags where
  access : Bool := false
  update : Bool := false
  insert : Bool := false
  delete : Bool := false
  notKey : Bool := false
  incomplete : Bool := false
  variableFlags : Bool := false
  deriving DecidableEq, Repr

/-- `kspec_bs_type` with its parameters. -/
inductive BeginSearch
  | invalid
  | unknown
  | index (pos : Int)
  | keyword (keyword : Bytes) (startfrom : Int)
  deriving DecidableEq, Repr

/-- `kspec_fk_type` with its parameters. -/
inductive FindKeys
  | invalid
  | unknown
  | range (lastkey keystep limit : Int)
  | keynum (keynumidx firstkey keystep : Int)
  deriving DecidableEq, Repr

/-- `keySpec`. -/
structure KeySpec where
  flags : KeySpecFlags
  beginSearch : BeginSearch
  findKeys : FindKeys
  deriving DecidableEq, Repr

/-- `keyReference`. -/
structure KeyReference where
  pos : Int
  flags : KeySpecFlags
  deriving DecidableEq, Repr

/-- `argv[i]`. -/
def argAt (argv : List Bytes) (i : Int) : Option Bytes :=
  if 0 ≤ i then argv[i.toNat]? else none

/-- Where one turn of the spec loop ends: at `continue`, with keys or without,
at `invalid_spec` with the keys already added, or nowhere. -/
inductive SpecOutcome
  | keys (keys : List KeyReference)
  | invalid (keys : List KeyReference)
  | undefined
  deriving DecidableEq, Repr

/-- The search for the keyword: the position after it, 0 if it is not
found. -/
def keywordLoop (argv : List Bytes) (keyword : Bytes) (delta : Int) : Nat → Int → Int
  | 0, _ => 0
  | n + 1, i =>
    if (argv.length : Int) ≤ i || i < 1 then 0
    else
      match argAt argv i with
      | none => 0
      | some arg =>
        if strcaseEq arg keyword then i + 1
        else keywordLoop argv keyword delta n (i + delta)

/-- `for (i = first; i <= last; i += step)`. -/
def positions (last step : Int) : Nat → Int → List Int
  | 0, _ => []
  | n + 1, i => if i ≤ last then i :: positions last step n (i + step) else []

/-- The keys between `first` and `last`. -/
def collectKeys (argc : Int) (flags : KeySpecFlags) (first last step : Int) : SpecOutcome :=
  if argc ≤ last ∨ last < first ∨ argc ≤ first then .invalid []
  else if step ≤ 0 then .undefined
  else
    let keys := (positions last step (last - first + 1).toNat first).map
      fun i => { pos := i, flags := flags : KeyReference }
    if flags.incomplete then .invalid keys else .keys keys

/-- The `find_keys` half of a spec. -/
def findKeysFrom (argv : List Bytes) (flags : KeySpecFlags) (first : Int) : FindKeys → SpecOutcome
  | .range lastkey keystep limit =>
    let argc : Int := argv.length
    if 0 ≤ lastkey then collectKeys argc flags first (first + lastkey) keystep
    else if limit = 0 then collectKeys argc flags first (argc + lastkey) keystep
    else if lastkey = -1 then
      collectKeys argc flags first (first + ((argc - first).tdiv limit + lastkey))
        keystep
    else .undefined
  | .keynum keynumidx firstkey keystep =>
    let argc : Int := argv.length
    if argc ≤ keynumidx then .invalid []
    else
      match argAt argv (first + keynumidx) with
      | none => .undefined
      | some keynum =>
        match string2ll keynum with
        | none => .invalid []
        | some numkeys =>
          if numkeys < 0 then .invalid []
          else
            -- `(int)numkeys`
            let count := Int.bmod numkeys (2 ^ 32)
            let first := first + firstkey
            collectKeys argc flags first (first + count - 1) keystep
  | .unknown => .invalid []
  | .invalid => .invalid []

/-- One spec. -/
def keysOfSpec (argv : List Bytes) (spec : KeySpec) : SpecOutcome :=
  match spec.beginSearch with
  | .invalid => .undefined
  | .unknown => .invalid []
  | .index pos => findKeysFrom argv spec.flags pos spec.findKeys
  | .keyword keyword startfrom =>
    let argc : Int := argv.length
    let startIndex := if 0 < startfrom then startfrom else argc + startfrom
    let endIndex := if 0 < startfrom then argc - 1 else 1
    let delta : Int := if startIndex ≤ endIndex then 1 else -1
    let first := keywordLoop argv keyword delta (endIndex - startIndex).natAbs
      startIndex
    if first = 0 then .keys []
    else findKeysFrom argv spec.flags first spec.findKeys

/-- `getKeysUsingKeySpecs`: `some none` is the return value -1. -/
def getKeysUsingKeySpecs (includeNotKeys returnPartial : Bool) (argv : List Bytes)
    (found : List KeyReference) : List KeySpec → Option (Option (List KeyReference))
  | [] => some (some found)
  | spec :: specs =>
    if spec.beginSearch = .invalid then none
    else if spec.flags.notKey && !includeNotKeys then
      getKeysUsingKeySpecs includeNotKeys returnPartial argv found specs
    else
      match keysOfSpec argv spec with
      | .undefined => none
      | .keys keys =>
        getKeysUsingKeySpecs includeNotKeys returnPartial argv (found ++ keys)
          specs
      | .invalid keys =>
        if returnPartial then
          getKeysUsingKeySpecs includeNotKeys returnPartial argv
            (found ++ keys) specs
        else some none

lemma getKeysUsingKeySpecs_keys {includeNotKeys returnPartial : Bool}
    {argv : List Bytes} {found keys : List KeyReference} {spec : KeySpec}
    (specs : List KeySpec) (hbegin : spec.beginSearch ≠ .invalid)
    (hkey : spec.flags.notKey = false) (h : keysOfSpec argv spec = .keys keys) :
    getKeysUsingKeySpecs includeNotKeys returnPartial argv found (spec :: specs) =
    getKeysUsingKeySpecs includeNotKeys returnPartial argv (found ++ keys)
      specs := by
  rw [getKeysUsingKeySpecs, if_neg hbegin]
  simp [hkey, h]

/-- The `CMD_CHANNEL_*` flags. -/
structure ChannelFlags where
  pattern : Bool := false
  subscribe : Bool := false
  unsubscribe : Bool := false
  publish : Bool := false
  deriving DecidableEq, Repr

/-- The procedures listed in `commands_with_channels`. -/
inductive ChannelCommand
  | subscribeCommand | ssubscribeCommand | unsubscribeCommand
  | sunsubscribeCommand | psubscribeCommand | punsubscribeCommand
  | publishCommand | spublishCommand
  deriving DecidableEq, Repr

/-- `ChannelSpecs`, without the procedure. -/
structure ChannelSpec where
  flags : ChannelFlags
  start : Nat
  count : Option Nat
  deriving DecidableEq, Repr

/-- `commands_with_channels`; a count of -1 is `none`. -/
def channelSpec : ChannelCommand → ChannelSpec
  | .subscribeCommand => ⟨{ subscribe := true }, 1, none⟩
  | .ssubscribeCommand => ⟨{ subscribe := true }, 1, none⟩
  | .unsubscribeCommand => ⟨{ unsubscribe := true }, 1, none⟩
  | .sunsubscribeCommand => ⟨{ unsubscribe := true }, 1, none⟩
  | .psubscribeCommand => ⟨{ pattern := true, subscribe := true }, 1, none⟩
  | .punsubscribeCommand => ⟨{ pattern := true, unsubscribe := true }, 1, none⟩
  | .publishCommand => ⟨{ publish := true }, 1, some 1⟩
  | .spublishCommand => ⟨{ publish := true }, 1, some 1⟩

/-- A channel among the arguments. -/
structure ChannelReference where
  pos : Int
  flags : ChannelFlags
  deriving DecidableEq, Repr

/-- The loop of `getChannelsFromCommand`. -/
def channelsOfSpec (argc : Nat) (spec : ChannelSpec) : List ChannelReference :=
  let stop := match spec.count with
    | none => argc
    | some count => min (spec.start + count) argc
  (List.range' spec.start (stop - spec.start)).map fun i : Nat =>
    { pos := (i : Int), flags := spec.flags : ChannelReference }

/-- The fields of `serverCommand` that permissions read.  `parent` says
whether the command is a subcommand, `channelCommand` which procedure of
`commands_with_channels` implements it, if any.  The functions a command or a
module can supply are fields. -/
structure CommandInfo where
  fullname : Bytes
  id : Nat
  aclCategories : UInt64 := 0
  noAuth : Bool := false
  parent : Bool := false
  keySpecs : List KeySpec := []
  getkeysProc : Option (List Bytes → List KeyReference) := none
  moduleGetKeys : Option (List Bytes → List KeyReference) := none
  channelCommand : Option ChannelCommand := none
  moduleGetChannels : Option (List Bytes → List ChannelReference) := none

variable (cmd : CommandInfo)

/-- `getAllKeySpecsFlags(cmd, 1) & CMD_KEY_NOT_KEY`. -/
def CommandInfo.hasKeySpec : Bool := cmd.keySpecs.any fun spec => !spec.flags.notKey

/-- `getAllKeySpecsFlags(cmd, 0) & CMD_KEY_VARIABLE_FLAGS`. -/
def CommandInfo.hasVarFlags : Bool := cmd.keySpecs.any fun spec => spec.flags.variableFlags

/-- The callbacks `getKeysFromCommandWithSpecs` falls back to. -/
def getKeysFromCallbacks (argv : List Bytes) : List KeyReference :=
  match cmd.moduleGetKeys with
  | some getKeys => getKeys argv
  | none =>
    match cmd.getkeysProc with
    | some getKeys => getKeys argv
    | none => []

/-- `getKeysFromCommandWithSpecs` with `GET_KEYSPEC_DEFAULT`. -/
def getKeysFromCommandWithSpecs (argv : List Bytes) : Option (List KeyReference) :=
  if cmd.hasKeySpec && !cmd.hasVarFlags then
    match getKeysUsingKeySpecs false false argv [] cmd.keySpecs with
    | none => none
    | some (some keys) => some keys
    | some none => some (getKeysFromCallbacks cmd argv)
  else some (getKeysFromCallbacks cmd argv)

def doesCommandHaveKeys : Bool :=
  cmd.getkeysProc.isSome || cmd.moduleGetKeys.isSome || cmd.hasKeySpec

/-- `doesCommandHaveChannelsWithFlags(cmd, PUBLISH | SUBSCRIBE)`. -/
def doesCommandHaveChannels : Bool :=
  cmd.moduleGetChannels.isSome ||
    match cmd.channelCommand with
    | none => false
    | some proc => (channelSpec proc).flags.publish || (channelSpec proc).flags.subscribe

def getChannelsFromCommand (argv : List Bytes) : List ChannelReference :=
  match cmd.moduleGetChannels with
  | some getChannels => getChannels argv
  | none =>
    match cmd.channelCommand with
    | none => []
    | some proc => channelsOfSpec argv.length (channelSpec proc)

end Dice.Ports.KeySpecs
