import Dice.Verified.Table
import Dice.Ports.KeySpecs
import Dice.Ports.Sds

/-!
# ACL selectors

A selector is one set of permissions: a bitmap over command identifiers,
first arguments that are allowed for otherwise blocked commands, key patterns
and channel patterns.  It also keeps the text of the command rules that led
to the bitmap, edited so that superseded rules disappear.

Rules come as an `sds`, but most of the code reads them as C strings; `cstr`
marks the places.  Where the source passes the length -1 the terminating NUL
is inside the given length, and the model passes the rule with that NUL.
-/

namespace Dice.Ports.AclSelector

open Verified CString Table KeySpecs Sds

/-- `USER_COMMAND_BITS_COUNT`. -/
abbrev userCommandBitsCount : Nat := 1024

/-- A name that `isCommandNameValid` lets through and that contains no quote
and no other blank either, as all names in use. -/
def NameOk (name : Bytes) : Prop :=
  name ≠ [] ∧ ∀ c ∈ name, isspace c = false ∧ c ≠ 0 ∧ c ≠ 124 ∧ c ≠ 64 ∧ c ≠ 34 ∧ c ≠ 39

instance (name : Bytes) : Decidable (NameOk name) :=
  @instDecidableAnd _ _ _ (List.decidableBAll _ name)

lemma NameOk.zero_notMem {name : Bytes} (h : NameOk name) : (0 : UInt8) ∉ name :=
  fun h0 => (h.2 0 h0).2.1 rfl

/-- A subcommand under the name it is declared with. -/
structure SubCommand extends CommandInfo where
  name : Bytes

/-- A top-level command and its `subcommands_dict`. -/
structure Command extends CommandInfo where
  name : Bytes
  subcommands : Option (List SubCommand) := none

/-- All identifiers of a command and its subcommands. -/
def Command.ids (cmd : Command) : List Nat :=
  cmd.id :: (cmd.subcommands.getD []).map fun sub => sub.id

/-- `server.orig_commands` and `ACLCommandCategories`.  Names are unique up to
case, identifiers are unique and leave the last bit of the bitmap free. -/
structure CommandTable where
  commands : List Command
  categories : List (Bytes × UInt64)
  name_ok : ∀ cmd ∈ commands, NameOk cmd.name ∧ cmd.fullname = cmd.name ∧ cmd.parent = false
  sub_ok : ∀ cmd ∈ commands, ∀ subs, cmd.subcommands = some subs → ∀ sub ∈ subs, NameOk sub.name ∧
      sub.fullname = cmd.name ++ 124 :: sub.name ∧ sub.parent = true
  names_nodup : (commands.map fun cmd => lower cmd.name).Nodup
  sub_names_nodup : ∀ cmd ∈ commands, ∀ subs, cmd.subcommands = some subs →
    (subs.map fun sub => lower sub.name).Nodup
  ids_nodup : (commands.flatMap Command.ids).Nodup
  ids_lt : ∀ id ∈ commands.flatMap Command.ids, id < userCommandBitsCount - 1
  category_ok : ∀ item ∈ categories, NameOk item.1 ∧ item.2 ≠ 0

/-- What a command lookup yields: the command and its subcommands, if it is a
container. -/
structure Found where
  info : CommandInfo
  subcommands : Option (List SubCommand)

variable (table : CommandTable) (selector : Selector)

/-- `dictFetchValue` in a command dictionary: names match up to case. -/
def CommandTable.fetch (name : Bytes) : Option Command :=
  table.commands.find? fun cmd => strcaseEq cmd.name name

def lookupSubcommand (subs : List SubCommand) (name : Bytes) : Option SubCommand :=
  subs.find? fun sub => strcaseEq sub.name name

/-- `lookupCommandBySdsLogic`, that is, `lookupCommandLogic` with `strict`. -/
def lookupCommandBySdsLogic (s : Bytes) : Option Found :=
  match sdssplitlen s 124 with
  | [name] => (table.fetch name).map fun cmd => ⟨cmd.toCommandInfo, cmd.subcommands⟩
  | [name, sub] =>
    (table.fetch name).bind fun cmd =>
      match cmd.subcommands with
      | none => none
      | some subs => (lookupSubcommand subs sub).map fun sub => ⟨sub.toCommandInfo, none⟩
  | _ => none

/-- `ACLLookupCommand`: the name is a C string. -/
def aclLookupCommand (name : Bytes) : Option Found := lookupCommandBySdsLogic table (cstr name)

/-- `ACLGetCommandCategoryFlagByName`. -/
def aclGetCommandCategoryFlagByName (name : Bytes) : Option UInt64 :=
  (table.categories.find? fun item => strcaseEq name item.1).map Prod.snd

/-- `keyPattern`; the flags are `ACL_READ_PERMISSION` and
`ACL_WRITE_PERMISSION`. -/
structure KeyPattern where
  read : Bool
  write : Bool
  pattern : Bytes
  deriving DecidableEq, Repr

/-- `aclSelector`.  A missing list of first arguments is a missing entry. -/
structure Selector where
  root : Bool := false
  allKeys : Bool := false
  allCommands : Bool := false
  allChannels : Bool := false
  allowedCommands : BitVec userCommandBitsCount := 0
  allowedFirstargs : Dict Nat (List Bytes) := ∅
  patterns : List KeyPattern := []
  channels : List Bytes := []
  commandRules : Bytes := []
  deriving DecidableEq

/-- The `errno` values of rejected rules. -/
inductive AclError
  | enoent | einval | eexist | eisdir | enodev | ebadmsg | echild
  deriving DecidableEq, Repr

/-- `ACLCreateSelector`, with the configured `acl-pubsub-default`. -/
def aclCreateSelector (pubsubDefault : Bool) (root : Bool) : Selector :=
  { root := root, allChannels := pubsubDefault }

/-- `ACLStringHasSpaces`. -/
def aclStringHasSpaces (s : Bytes) : Bool := s.any fun c => isspace c || c == 0

/-- `ACLGetSelectorCommandBit`. -/
def aclGetSelectorCommandBit (id : Nat) : Bool := selector.allowedCommands.getLsbD id

/-- `ACLSelectorCanExecuteFutureCommands`. -/
def aclSelectorCanExecuteFutureCommands : Bool :=
  aclGetSelectorCommandBit selector (userCommandBitsCount - 1)

/-- `ACLSetSelectorCommandBit`; clearing a bit ends `ALLCOMMANDS`. -/
def aclSetSelectorCommandBit (id : Nat) (value : Bool) : Selector :=
  if userCommandBitsCount ≤ id then selector
  else if value then
    { selector with
      allowedCommands :=
        selector.allowedCommands ||| BitVec.twoPow userCommandBitsCount id }
  else
    { selector with
      allowedCommands := selector.allowedCommands &&& ~~~ BitVec.twoPow userCommandBitsCount id
      allCommands := false }

/-- The comparison in `ACLSelectorRemoveCommandRule`: the same rule, or a rule
for a part of the command. -/
def ruleMatches (existing newRule : Bytes) : Bool :=
  let len := min existing.length newRule.length
  existing.take len == newRule.take len && (existing.length == newRule.length ||
      (newRule.length < existing.length && existing[newRule.length]? == some 124))

/-- The loop of `ACLSelectorRemoveCommandRule`: `before` is the text already
passed, `rest` the text from `existing_rule` on. -/
def removeCommandRuleLoop (newRule : Bytes) : Nat → Bytes → Bytes → Bytes
  | 0, before, rest => before ++ rest
  | fuel + 1, before, rest =>
    match rest with
    | [] => before
    | sign :: tail =>
      let existing := tail.takeWhile (· != 32)
      match tail.dropWhile (· != 32) with
      | [] =>
        -- the last rule goes with the blank before it
        if ruleMatches existing newRule then before.dropLast
        else before ++ rest
      | _ :: rest' =>
        if ruleMatches existing newRule then
          removeCommandRuleLoop newRule fuel before rest'
        else
          removeCommandRuleLoop newRule fuel
            (before ++ sign :: existing ++ [32]) rest'

/-- `ACLSelectorRemoveCommandRule`. -/
def aclSelectorRemoveCommandRule (commandRules newRule : Bytes) : Bytes :=
  removeCommandRuleLoop newRule commandRules.length [] commandRules

/-- `ACLUpdateCommandRules`. -/
def aclUpdateCommandRules (rule : Bytes) (allow : Bool) : Selector :=
  let newRule := lower (cstr rule)
  let kept := aclSelectorRemoveCommandRule selector.commandRules newRule
  let kept := if kept.isEmpty then kept else kept ++ [32]
  { selector with
    commandRules := kept ++ (if allow then 43 else 45) :: newRule }

/-- `ACLResetFirstArgsForCommand`. -/
def aclResetFirstArgsForCommand (id : Nat) : Selector :=
  { selector with allowedFirstargs := selector.allowedFirstargs.erase id }

/-- `ACLAddAllowedFirstArg`. -/
def aclAddAllowedFirstArg (id : Nat) (sub : Bytes) : Selector :=
  let items := (selector.allowedFirstargs.lookup id).getD []
  if items.any fun item => strcaseEq item sub then selector
  else
    { selector with
      allowedFirstargs := selector.allowedFirstargs.insert id (items ++ [sub]) }

/-- `ACLChangeSelectorPerm`: the command and all its subcommands. -/
def aclChangeSelectorPerm (cmd : Found) (allow : Bool) : Selector :=
  let selector := aclSetSelectorCommandBit selector cmd.info.id allow
  let selector := aclResetFirstArgsForCommand selector cmd.info.id
  (cmd.subcommands.getD []).foldl
    (fun selector sub => aclSetSelectorCommandBit selector sub.id allow) selector

/-- `ACLSetSelectorCommandBitsForCategory` on one top-level command: itself
with everything below it, and the subcommands in the category. -/
def setCategoryForCommand (cflag : UInt64) (value : Bool) (selector : Selector)
    (cmd : Command) : Selector :=
  let selector :=
    if cmd.aclCategories &&& cflag != 0 then
      aclChangeSelectorPerm selector ⟨cmd.toCommandInfo, cmd.subcommands⟩ value
    else selector
  (cmd.subcommands.getD []).foldl (fun selector sub =>
      if sub.aclCategories &&& cflag != 0 then
        aclChangeSelectorPerm selector ⟨sub.toCommandInfo, none⟩ value
      else selector)
    selector

/-- `ACLSetSelectorCommandBitsForCategory`. -/
def aclSetSelectorCommandBitsForCategory (cflag : UInt64) (value : Bool) : Selector :=
  table.commands.foldl (setCategoryForCommand cflag value) selector

/-- `ACLSetSelectorCategory`; `category` starts with `@`. -/
def aclSetSelectorCategory (category : Bytes) (allow : Bool) : Option Selector :=
  (aclGetCommandCategoryFlagByName table (category.drop 1)).map fun cflag =>
    aclSetSelectorCommandBitsForCategory table
      (aclUpdateCommandRules selector category allow) cflag allow

/-! ## Rules -/

/-- The permission letters between `%` and `~`: the flags and the pattern, or
nothing for a syntax error. -/
def patternFlags : Bool → Bool → Bytes → Option (Bool × Bool × Bytes)
  | read, write, [] => some (read, write, [])
  | read, write, c :: rest =>
    if (c = 82 || c = 114) && !read then patternFlags true write rest
    else if (c = 87 || c = 119) && !write then patternFlags read true rest
    else if c = 126 then some (read, write, rest)
    else none

/-- Add a key pattern, or permissions to one that is there. -/
def addPattern (new : KeyPattern) : List KeyPattern → List KeyPattern
  | [] => [new]
  | pat :: rest =>
    if pat.pattern = new.pattern then
      { pat with read := pat.read || new.read, write := pat.write || new.write }
        :: rest
    else pat :: addPattern new rest

/-- The flags and the pattern of a `~` or `%` rule. -/
def keyPatternOf (op : Bytes) : Option (Bool × Bool × Bytes) :=
  match op with
  | 37 :: rest => patternFlags false false rest
  | _ => some (true, true, op.drop 1)

/-- The `~` and `%` rules. -/
def setKeyPattern (op : Bytes) : Except AclError Selector :=
  if selector.allKeys then .error .eexist
  else
    match keyPatternOf op with
    | none => .error .einval
    | some (read, write, pattern) =>
      if !read && !write then .error .einval
      else if aclStringHasSpaces pattern then .error .einval
      else
        .ok { selector with
          patterns := addPattern ⟨read, write, pattern⟩ selector.patterns
          allKeys := false }

/-- The `&` rules. -/
def setChannelPattern (op : Bytes) : Except AclError Selector :=
  if selector.allChannels then .error .eisdir
  else if aclStringHasSpaces (op.drop 1) then .error .einval
  else
    let pattern := op.drop 1
    .ok { selector with
      channels :=
        if selector.channels.contains pattern then selector.channels
        else selector.channels ++ [pattern]
      allChannels := false }

/-- The part of a C string before and after its last `|`. -/
def splitLastBar (s : Bytes) : Option (Bytes × Bytes) :=
  let after := (s.reverse.takeWhile (· != 124)).reverse
  if after.length = s.length then none
  else some (s.take (s.length - after.length - 1), after)

/-- The `+` rules that are not categories; `name` is the C string after the
sign. -/
def allowCommand (name : Bytes) : Except AclError Selector :=
  match splitLastBar name with
  | none =>
    match aclLookupCommand table name with
    | none => .error .enoent
    | some cmd =>
      .ok (aclUpdateCommandRules (aclChangeSelectorPerm selector cmd true)
        cmd.info.fullname true)
  | some (copy, sub) =>
    match aclLookupCommand table copy with
    | none => .error .enoent
    | some cmd =>
      if cmd.info.parent then .error .echild
      else if sub.isEmpty then .error .einval
      else
        match cmd.subcommands with
        | some _ =>
          match aclLookupCommand table name with
          | none => .error .enoent
          | some cmd =>
            .ok (aclUpdateCommandRules
              (aclChangeSelectorPerm selector cmd true) name true)
        | none =>
          .ok (aclUpdateCommandRules
            (aclAddAllowedFirstArg selector cmd.info.id sub) name true)

/-- The `-` rules that are not categories. -/
def denyCommand (name : Bytes) : Except AclError Selector :=
  match aclLookupCommand table name with
  | none => .error .enoent
  | some cmd =>
    .ok (aclUpdateCommandRules (aclChangeSelectorPerm selector cmd false)
      cmd.info.fullname false)

/-- `allcommands`. -/
def setAllCommands : Selector :=
  { selector with
    allowedCommands := BitVec.allOnes userCommandBitsCount
    allCommands := true
    commandRules := []
    allowedFirstargs := ∅ }

/-- `nocommands`. -/
def setNoCommands : Selector :=
  { selector with
    allowedCommands := 0
    allCommands := false
    commandRules := []
    allowedFirstargs := ∅ }

/-- `!strcasecmp(op, word)`. -/
def opIs (op : Bytes) (word : String) : Bool := strcaseEq op (ofString word)

/-- `op[i]`; reading at the end yields the terminator. -/
def opAt (op : Bytes) (i : Nat) : UInt8 := op[i]?.getD 0

/-- `ACLSetSelector`. -/
def aclSetSelector (op : Bytes) : Except AclError Selector :=
  if opIs op "allkeys" || opIs op "~*" then
    .ok { selector with allKeys := true, patterns := [] }
  else if opIs op "resetkeys" then
    .ok { selector with allKeys := false, patterns := [] }
  else if opIs op "allchannels" || opIs op "&*" then
    .ok { selector with allChannels := true, channels := [] }
  else if opIs op "resetchannels" then
    .ok { selector with allChannels := false, channels := [] }
  else if opIs op "allcommands" || opIs op "+@all" then .ok (setAllCommands selector)
  else if opIs op "nocommands" || opIs op "-@all" then .ok (setNoCommands selector)
  else if opAt op 0 = 126 || opAt op 0 = 37 then setKeyPattern selector op
  else if opAt op 0 = 38 then setChannelPattern selector op
  else if opAt op 0 = 43 && opAt op 1 != 64 then
    allowCommand table selector ((cstr op).drop 1)
  else if opAt op 0 = 45 && opAt op 1 != 64 then
    denyCommand table selector ((cstr op).drop 1)
  else if (opAt op 0 = 43 || opAt op 0 = 45) && opAt op 1 = 64 then
    match aclSetSelectorCategory table selector ((cstr op).drop 1)
        (opAt op 0 == 43) with
    | none => .error .enoent
    | some selector => .ok selector
  else .error .einval

end Dice.Ports.AclSelector
