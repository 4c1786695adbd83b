import Dice.Ports.AclSelector

/-!
# Command rules

A rule about commands is read in two steps: its text is looked up in the
command table, which gives an effect, and the effect is applied to the
selector.  The lookup depends on the text only up to case, so the rule that a
selector has kept in lower case has the effect of the rule that was given.
Allowing and denying look up the same thing: what a text names is a relation
of its own, and a text names at most one thing.
-/

namespace Dice.Ports.AclRules

open List Verified CString Table KeySpecs Sds AclSelector Except Option

/-! ## Looking up commands -/

lemma strcaseEq_lower (a b : Bytes) : strcaseEq a (lower b) = strcaseEq a b := by
  unfold strcaseEq
  rw [cstr_lower, lower_lower]

lemma strcaseEq_lower_left (a b : Bytes) : strcaseEq (lower a) b = strcaseEq a b := by
  unfold strcaseEq
  rw [cstr_lower, lower_lower]

section

variable (table : CommandTable)

lemma fetch_lower (name : Bytes) : table.fetch (lower name) = table.fetch name := by
  unfold CommandTable.fetch
  simp [strcaseEq_lower]

lemma lookupSubcommand_lower (subs : List SubCommand) (name : Bytes) :
    lookupSubcommand subs (lower name) = lookupSubcommand subs name := by
  unfold lookupSubcommand
  simp [strcaseEq_lower]

lemma lookupCommandBySdsLogic_lower (s : Bytes) :
    lookupCommandBySdsLogic table (lower s) = lookupCommandBySdsLogic table s := by
  unfold lookupCommandBySdsLogic
  rw [sdssplitlen_lower s (.inr (by decide))]
  rcases sdssplitlen s 124 with _ | ⟨name, _ | ⟨sub, _ | ⟨_, _⟩⟩⟩
  · rfl
  · simp [fetch_lower]
  · simp [fetch_lower, lookupSubcommand_lower]
  · rfl

lemma aclLookupCommand_lower (name : Bytes) :
    aclLookupCommand table (lower name) = aclLookupCommand table name := by
  unfold aclLookupCommand
  rw [cstr_lower, lookupCommandBySdsLogic_lower]

end

variable {name op a b text : Bytes} {table : CommandTable} {found : Found}

lemma find_name {α : Type} {nameOf : α → Bytes} {xs : List α} {x : α}
    (hok : ∀ x ∈ xs, NameOk (nameOf x)) (hzero : (0 : UInt8) ∉ name)
    (h : (xs.find? fun x => strcaseEq (nameOf x) name) = some x) :
    x ∈ xs ∧ lower (nameOf x) = lower name := by
  have hmem := mem_of_find?_eq_some h
  have heq : strcaseEq (nameOf x) name := by simpa using find?_some h
  rw [strcaseEq_iff, cstr_eq_self (hok x hmem).zero_notMem, cstr_eq_self hzero] at heq
  exact ⟨hmem, heq⟩

lemma fetch_name {cmd : Command} (hzero : (0 : UInt8) ∉ name) (h : table.fetch name = some cmd) :
    cmd ∈ table.commands ∧ lower cmd.name = lower name :=
  find_name (fun cmd hcmd => (table.name_ok cmd hcmd).1) hzero h

/-- The two kinds of names under which something is found. -/
lemma aclLookupCommand_cases
    (hzero : (0 : UInt8) ∉ name) (h : aclLookupCommand table name = some found) :
    (∃ cmd, (124 : UInt8) ∉ name ∧ table.fetch name = some cmd ∧
      found = ⟨cmd.toCommandInfo, cmd.subcommands⟩) ∨
    ∃ a b cmd subs sub, name = a ++ 124 :: b ∧ (124 : UInt8) ∉ a ∧ (124 : UInt8) ∉ b ∧
      table.fetch a = some cmd ∧ cmd.subcommands = some subs ∧
      lookupSubcommand subs b = some sub ∧ found = ⟨sub.toCommandInfo, none⟩ := by
  unfold aclLookupCommand lookupCommandBySdsLogic at h
  rw [cstr_eq_self hzero] at h
  have hparts : ∀ w ∈ sdssplitlen name 124, (124 : UInt8) ∉ w := by
    intro w hw
    unfold sdssplitlen at hw
    split at hw
    · exact absurd hw (by simp)
    · exact sep_notMem_of_mem_splitOn hw
  have hjoin : sdssplitlen name 124 ≠ [] →
    [(124 : UInt8)].intercalate (sdssplitlen name 124) = name := by
    intro hne
    unfold sdssplitlen at hne ⊢
    split
    next hempty => simp [hempty] at hne
    next => exact intercalate_splitOn 124
  rcases hsplit : sdssplitlen name 124 with _ | ⟨a, _ | ⟨b, _ | ⟨_, _⟩⟩⟩
  · simp [hsplit] at h
  · rw [hsplit] at hparts hjoin h
    have ha : a = name := by simpa using hjoin (by simp)
    subst ha
    obtain ⟨cmd, hcmd, rfl⟩ := map_eq_some_iff.mp h
    exact .inl ⟨cmd, hparts a (by simp), hcmd, rfl⟩
  · rw [hsplit] at hparts hjoin h
    have hname : name = a ++ 124 :: b := by simpa using (hjoin (by simp)).symm
    obtain ⟨cmd, hcmd, h⟩ := bind_eq_some_iff.mp h
    cases hsubs : cmd.subcommands with
    | none => simp [hsubs] at h
    | some subs =>
      rw [hsubs] at h
      obtain ⟨sub, hsub, rfl⟩ := map_eq_some_iff.mp h
      exact .inr ⟨a, b, cmd, subs, sub, hname, hparts a (by simp), hparts b (by simp),
        hcmd, hsubs, hsub, rfl⟩
  · simp [hsplit] at h

/-- A command from the table, or a subcommand of one. -/
inductive InTable (table : CommandTable) : Found → Prop
  | command (cmd : Command) (h : cmd ∈ table.commands) :
      InTable table ⟨cmd.toCommandInfo, cmd.subcommands⟩
  | subcommand (cmd : Command) (subs : List SubCommand) (sub : SubCommand)
      (h : cmd ∈ table.commands) (hsubs : cmd.subcommands = some subs)
      (hsub : sub ∈ subs) : InTable table ⟨sub.toCommandInfo, none⟩

/-- What is found is in the table, and its full name is the one looked up. -/
lemma aclLookupCommand_found
    (hzero : (0 : UInt8) ∉ name) (h : aclLookupCommand table name = some found) :
    InTable table found ∧ lower (cstr found.info.fullname) = lower name := by
  rcases aclLookupCommand_cases hzero h with
    ⟨cmd, _, hcmd, rfl⟩ | ⟨a, b, cmd, subs, sub, rfl, _, _, hcmd, hsubs, hsub, rfl⟩
  · obtain ⟨hmem, hname⟩ := fetch_name hzero hcmd
    obtain ⟨hok, hfull, _⟩ := table.name_ok cmd hmem
    refine ⟨.command cmd hmem, ?_⟩
    rw [hfull, cstr_eq_self hok.zero_notMem, hname]
  obtain ⟨hmem, hname⟩ := fetch_name (fun h0 => hzero (by simp [h0])) hcmd
  have hoks : ∀ sub ∈ subs, NameOk sub.name :=
    fun sub hsub => (table.sub_ok cmd hmem subs hsubs sub hsub).1
  obtain ⟨hsubmem, hsubname⟩ := find_name hoks (fun h0 => hzero (by simp [h0])) hsub
  obtain ⟨hok, hfull, _⟩ := table.sub_ok cmd hmem subs hsubs sub hsubmem
  refine ⟨.subcommand cmd subs sub hmem hsubs hsubmem, ?_⟩
  have hclean : (0 : UInt8) ∉ cmd.name ++ 124 :: sub.name := by
    simp [(table.name_ok cmd hmem).1.zero_notMem, hok.zero_notMem]
  rw [hfull, cstr_eq_self hclean, lower_append, lower_append, lower_cons, lower_cons,
    hname, hsubname]

lemma splitLastBar_append (a b : Bytes) (hb : (124 : UInt8) ∉ b) :
    splitLastBar (a ++ 124 :: b) = some (a, b) := by
  have hafter : ((a ++ 124 :: b).reverse.takeWhile (· != 124)).reverse = b := by
    rw [reverse_append, reverse_cons, append_assoc, takeWhile_append_of_pos]
    · simp
    · intro c hc
      have hne : c ≠ 124 := fun h => hb (h ▸ mem_reverse.mp hc)
      simpa using hne
  unfold splitLastBar
  simp only [hafter]
  rw [if_neg (by simp only [length_append, length_cons]; omega)]
  have hlen : (a ++ 124 :: b).length - b.length - 1 = a.length := by
    simp only [length_append, length_cons]
    omega
  rw [hlen, take_left]

lemma splitLastBar_none {s : Bytes} (h : (124 : UInt8) ∉ s) : splitLastBar s = none := by
  have hall : s.reverse.takeWhile (· != 124) = s.reverse := by
    apply takeWhile_eq_self_iff.mpr
    intro c hc
    have hne : c ≠ 124 := fun heq => h (heq ▸ mem_reverse.mp hc)
    simpa using hne
  unfold splitLastBar
  simp [hall]

lemma last_bar_cases (s : Bytes) :
    (124 : UInt8) ∉ s ∨ ∃ a b, s = a ++ 124 :: b ∧ (124 : UInt8) ∉ b := by
  induction s with
  | nil => exact .inl (by simp)
  | cons c s ih =>
    rcases ih with h | ⟨a, b, rfl, hb⟩
    · by_cases hc : c = 124
      · exact .inr ⟨[], s, by simp [hc], h⟩
      · exact .inl (by simp [h, Ne.symm hc])
    · exact .inr ⟨c :: a, b, rfl, hb⟩

lemma splitLastBar_lower (s : Bytes) : splitLastBar (lower s) = (splitLastBar s).map fun
    | (copy, sub) => (lower copy, lower sub) := by
  have hsep : (124 : UInt8) < 65 ∨ 122 < (124 : UInt8) := .inr (by decide)
  rcases last_bar_cases s with h | ⟨a, b, rfl, hb⟩
  · rw [splitLastBar_none h, splitLastBar_none (by rwa [mem_lower_iff hsep])]
    rfl
  rw [splitLastBar_append a b hb, lower_append]
  show splitLastBar (lower a ++ 124 :: lower b) = _
  rw [splitLastBar_append _ _ (by rwa [mem_lower_iff hsep])]
  rfl

/-! ## Reading a rule -/

/-- What a rule about commands changes: the permission of a command and its
subcommands, that of a category, or one allowed first argument. -/
inductive Effect
  | change (cmd : Found)
  | category (cflag : UInt64)
  | firstArg (id : Nat) (arg : Bytes)

/-- A rule with the text that is kept for it. -/
structure Rule where
  allow : Bool
  text : Bytes
  effect : Effect

/-- The rule as it stands in the kept text. -/
def Rule.word (r : Rule) : Bytes := (if r.allow then 43 else 45) :: r.text

/-- The lookups of `allowCommand`. -/
def parseAllow (table : CommandTable) (name : Bytes) : Except AclError Effect :=
  match splitLastBar name with
  | none =>
    match aclLookupCommand table name with
    | none => .error .enoent
    | some cmd => .ok (.change cmd)
  | some (copy, sub) =>
    match aclLookupCommand table copy with
    | none => .error .enoent
    | some cmd =>
      if cmd.info.parent then .error .echild
      else if sub.isEmpty then .error .einval
      else
        match cmd.subcommands with
        | some _ =>
          match aclLookupCommand table name with
          | none => .error .enoent
          | some cmd => .ok (.change cmd)
        | none => .ok (.firstArg cmd.info.id sub)

/-- The lookup of `denyCommand`. -/
def parseDeny (table : CommandTable) (name : Bytes) : Except AclError Effect :=
  match aclLookupCommand table name with
  | none => .error .enoent
  | some cmd => .ok (.change cmd)

/-- The lookup of `aclSetSelectorCategory`. -/
def parseCategory (table : CommandTable) (name : Bytes) : Except AclError Effect :=
  match aclGetCommandCategoryFlagByName table (name.drop 1) with
  | none => .error .enoent
  | some cflag => .ok (.category cflag)

/-- An operation that starts with a sign. -/
def isCommandOp (op : Bytes) : Bool := opAt op 0 == 43 || opAt op 0 == 45

/-- The rule an operation stands for. -/
def parseRule (table : CommandTable) (op : Bytes) : Except AclError Rule :=
  let name := (cstr op).drop 1
  let allow := opAt op 0 == 43
  (if opAt op 1 = 64 then parseCategory table name
    else if allow then parseAllow table name
    else parseDeny table name).map fun effect => ⟨allow, lower name, effect⟩

/-- The effect on a selector. -/
def applyRule (table : CommandTable) (s : Selector) (r : Rule) : Selector :=
  match r.effect with
  | .change cmd => aclUpdateCommandRules (aclChangeSelectorPerm s cmd r.allow) r.text r.allow
  | .category cflag =>
    aclSetSelectorCommandBitsForCategory table
      (aclUpdateCommandRules s r.text r.allow) cflag r.allow
  | .firstArg id arg => aclUpdateCommandRules (aclAddAllowedFirstArg s id arg) r.text r.allow

lemma aclUpdateCommandRules_congr (s : Selector) {rule rule' : Bytes} (allow : Bool)
    (h : lower (cstr rule) = lower (cstr rule')) :
    aclUpdateCommandRules s rule allow = aclUpdateCommandRules s rule' allow := by
  unfold aclUpdateCommandRules
  rw [h]

lemma aclUpdateCommandRules_lower (s : Selector) (rule : Bytes) (allow : Bool) :
    aclUpdateCommandRules s (lower rule) allow = aclUpdateCommandRules s rule allow := by
  apply aclUpdateCommandRules_congr
  rw [cstr_lower, lower_lower]

/-- A command found under a name is kept under that name. -/
lemma aclUpdateCommandRules_fullname {cmd : Found} (hzero : (0 : UInt8) ∉ name)
    (h : aclLookupCommand table name = some cmd) (s : Selector) (allow : Bool) :
    aclUpdateCommandRules s cmd.info.fullname allow =
    aclUpdateCommandRules s (lower name) allow := by
  rw [aclUpdateCommandRules_lower]
  apply aclUpdateCommandRules_congr
  rw [(aclLookupCommand_found hzero h).2, cstr_eq_self hzero]

section

variable (table : CommandTable) (s : Selector)

lemma allowCommand_eq (hzero : (0 : UInt8) ∉ name) : allowCommand table s name =
    (parseAllow table name).map fun effect =>
      applyRule table s ⟨true, lower name, effect⟩ := by
  unfold allowCommand parseAllow
  cases splitLastBar name with
  | none =>
    cases hlook : aclLookupCommand table name with
    | none => rfl
    | some cmd =>
      show ok _ = ok _
      rw [aclUpdateCommandRules_fullname hzero hlook]
      rfl
  | some parts =>
    obtain ⟨copy, sub⟩ := parts
    simp only
    cases aclLookupCommand table copy with
    | none => rfl
    | some cmd =>
      simp only
      by_cases hparent : cmd.info.parent
      · rw [if_pos hparent, if_pos hparent]
        rfl
      rw [if_neg hparent, if_neg hparent]
      by_cases hempty : sub.isEmpty
      · rw [if_pos hempty, if_pos hempty]
        rfl
      rw [if_neg hempty, if_neg hempty]
      cases cmd.subcommands with
      | none =>
        rw [← aclUpdateCommandRules_lower]
        rfl
      | some subs =>
        cases aclLookupCommand table name with
        | none => rfl
        | some cmd =>
          show ok _ = ok _
          rw [← aclUpdateCommandRules_lower]
          rfl

lemma denyCommand_eq (hzero : (0 : UInt8) ∉ name) : denyCommand table s name =
    (parseDeny table name).map fun effect =>
      applyRule table s ⟨false, lower name, effect⟩ := by
  unfold denyCommand parseDeny
  cases hlook : aclLookupCommand table name with
  | none => rfl
  | some cmd =>
    show ok _ = ok _
    rw [aclUpdateCommandRules_fullname hzero hlook]
    rfl

lemma opAt_lower (b : Bytes) : opAt (lower b) 0 = tolower (opAt b 0) := by
  cases b <;> rfl

lemma opAt_cstr (b : Bytes) : opAt (cstr b) 0 = opAt b 0 := by
  cases b with
  | nil => rfl
  | cons c b =>
    by_cases hc : c = 0
    · subst hc
      rfl
    · rw [cstr_cons hc]
      rfl

/-- Words are told apart by their first byte already. -/
lemma opAt_of_opIs {word : String} (h : opIs op word) :
    tolower (opAt op 0) = tolower (opAt (ofString word) 0) := by
  have heq : lower (cstr op) = lower (cstr (ofString word)) := (strcaseEq_iff _ _).mp h
  rw [← opAt_cstr op, ← opAt_cstr (ofString word), ← opAt_lower, ← opAt_lower, heq]

lemma opIs_eq_false {word : String} (h : tolower (opAt op 0) ≠ tolower (opAt (ofString word) 0)) :
    opIs op word = false := by
  cases hop : opIs op word with
  | false => rfl
  | true => exact absurd (opAt_of_opIs hop) h

lemma zero_notMem_name (op : Bytes) : (0 : UInt8) ∉ (cstr op).drop 1 :=
  fun h => zero_notMem_cstr op (mem_of_mem_drop h)

lemma aclSetSelector_command (hop : isCommandOp op) (hplus : opIs op "+@all" = false)
    (hminus : opIs op "-@all" = false) :
    aclSetSelector table s op = (parseRule table op).map (applyRule table s) := by
  have hzero := zero_notMem_name op
  unfold isCommandOp at hop
  rw [Bool.or_eq_true, beq_iff_eq, beq_iff_eq] at hop
  have hword : ∀ word : String, tolower (opAt (ofString word) 0) ≠ 43 →
      tolower (opAt (ofString word) 0) ≠ 45 → opIs op word = false := by
    intro word h43 h45
    apply opIs_eq_false
    rcases hop with hop | hop
    · rw [hop]
      exact Ne.symm h43
    · rw [hop]
      exact Ne.symm h45
  unfold aclSetSelector parseRule
  rw [hword "allkeys" (by decide) (by decide), hword "~*" (by decide) (by decide),
    hword "resetkeys" (by decide) (by decide),
    hword "allchannels" (by decide) (by decide), hword "&*" (by decide) (by decide),
    hword "resetchannels" (by decide) (by decide),
    hword "allcommands" (by decide) (by decide), hplus,
    hword "nocommands" (by decide) (by decide), hminus]
  have hcategory : ∀ allow : Bool,
      (aclSetSelectorCategory table s ((cstr op).drop 1) allow).elim (.error .enoent) .ok =
      ((parseCategory table ((cstr op).drop 1)).map fun effect =>
        (⟨allow, lower ((cstr op).drop 1), effect⟩ : Rule)).map (applyRule table s) := by
    intro allow
    unfold aclSetSelectorCategory parseCategory
    cases aclGetCommandCategoryFlagByName table (((cstr op).drop 1).drop 1) with
    | none => rfl
    | some cflag =>
      rw [← aclUpdateCommandRules_lower]
      rfl
  have hmap : ∀ (e : Except AclError Effect) (allow : Bool),
      (e.map fun effect => applyRule table s ⟨allow, lower ((cstr op).drop 1), effect⟩) =
        (e.map fun effect =>
          (⟨allow, lower ((cstr op).drop 1), effect⟩ : Rule)).map (applyRule table s) := by
    intro e allow
    cases e <;> rfl
  rcases hop with hop | hop
  · by_cases hat : opAt op 1 = 64
    · simp [hop, hat, -drop_one]
      refine Eq.trans ?_ (hcategory true)
      cases aclSetSelectorCategory table s ((cstr op).drop 1) true <;> rfl
    · have hne : (opAt op 1 != 64) := by simpa using hat
      simp only [hop, hat, hne]
      exact (allowCommand_eq table s hzero).trans (hmap _ true)
  by_cases hat : opAt op 1 = 64
  · simp [hop, hat, -drop_one]
    refine Eq.trans ?_ (hcategory false)
    cases aclSetSelectorCategory table s ((cstr op).drop 1) false <;> rfl
  · have hne : (opAt op 1 != 64) := by simpa using hat
    simp only [hop, hat, hne]
    exact (denyCommand_eq table s hzero).trans (hmap _ false)

end

/-- The effect of the rule in lower case. -/
def Effect.canon : Effect → Effect
  | .firstArg id arg => .firstArg id (lower arg)
  | e => e

/-- The rule as it is read back. -/
def Rule.canon (r : Rule) : Rule := { r with effect := r.effect.canon }

section

variable (table : CommandTable) (name : Bytes)

lemma parseAllow_lower :
    parseAllow table (lower name) = (parseAllow table name).map Effect.canon := by
  unfold parseAllow
  rw [splitLastBar_lower]
  cases splitLastBar name with
  | none =>
    simp only [aclLookupCommand_lower]
    cases aclLookupCommand table name <;> rfl
  | some parts =>
    obtain ⟨copy, sub⟩ := parts
    have hempty : (lower sub).isEmpty = sub.isEmpty := by cases sub <;> rfl
    simp only [map_some, aclLookupCommand_lower, hempty]
    cases aclLookupCommand table copy with
    | none => rfl
    | some cmd =>
      simp only
      cases cmd.info.parent with
      | true => rfl
      | false =>
        cases sub.isEmpty with
        | true => rfl
        | false =>
          cases cmd.subcommands with
          | none => rfl
          | some subs => cases aclLookupCommand table name <;> rfl

lemma parseDeny_lower : parseDeny table (lower name) = (parseDeny table name).map Effect.canon := by
  unfold parseDeny
  rw [aclLookupCommand_lower]
  cases aclLookupCommand table name <;> rfl

lemma parseCategory_lower :
    parseCategory table (lower name) = (parseCategory table name).map Effect.canon := by
  have hdrop : (lower name).drop 1 = lower (name.drop 1) := by
    cases name <;> rfl
  unfold parseCategory aclGetCommandCategoryFlagByName
  simp only [hdrop, strcaseEq_lower_left]
  cases (table.categories.find? fun item => strcaseEq (name.drop 1) item.1) <;> rfl

end

/-- The effect that belongs to a text after the sign. -/
def parseText (table : CommandTable) (allow : Bool) (text : Bytes) : Except AclError Effect :=
  if opAt text 0 = 64 then parseCategory table text
  else if allow then parseAllow table text
  else parseDeny table text

lemma parseText_lower (table : CommandTable) (allow : Bool) (text : Bytes) :
    parseText table allow (lower text) = (parseText table allow text).map Effect.canon := by
  have hat : opAt (lower text) 0 = 64 ↔ opAt text 0 = 64 := by
    rw [opAt_lower]
    exact tolower_eq_iff (.inl (by decide))
  unfold parseText
  by_cases h : opAt text 0 = 64
  · rw [if_pos (hat.mpr h), if_pos h, parseCategory_lower]
  rw [if_neg (mt hat.mp h), if_neg h]
  cases allow with
  | true => exact parseAllow_lower table text
  | false => exact parseDeny_lower table text

lemma cstr_commandOp (hop : isCommandOp op) : cstr op = opAt op 0 :: (cstr op).drop 1 := by
  cases op with
  | nil => exact absurd hop (by decide)
  | cons c rest =>
    have hc : c ≠ 0 := by
      rintro rfl
      exact absurd hop (by simp [isCommandOp, opAt])
    rw [cstr_cons hc]
    rfl

lemma parseRule_eq (table : CommandTable) (hop : isCommandOp op) : parseRule table op =
    (parseText table (opAt op 0 == 43) ((cstr op).drop 1)).map fun effect =>
      ⟨opAt op 0 == 43, lower ((cstr op).drop 1), effect⟩ := by
  have hsecond : opAt op 1 = opAt ((cstr op).drop 1) 0 := by
    cases op with
    | nil => rfl
    | cons c rest =>
      have hcons := cstr_commandOp hop
      by_cases hc : c = 0
      · subst hc
        cases hcons
      · rw [cstr_cons hc]
        exact (opAt_cstr rest).symm
  unfold parseRule parseText
  rw [hsecond]

/-- A rule that reads back as itself, as all rules do that a selector keeps. -/
structure Kept (table : CommandTable) (r : Rule) : Prop where
  parse : parseText table r.allow r.text = .ok r.effect
  low : lower r.text = r.text
  notAll : r.text ≠ ofString "@all"
  zero : (0 : UInt8) ∉ r.text

variable {r : Rule}

/-- The rule of an accepted operation is kept in a form that reads back. -/
lemma kept_of_parseRule (hop : isCommandOp op) (hplus : opIs op "+@all" = false)
    (hminus : opIs op "-@all" = false) (h : parseRule table op = .ok r) :
    Kept table r.canon ∧ r.text = lower ((cstr op).drop 1) := by
  rw [parseRule_eq table hop] at h
  cases hparse : parseText table (opAt op 0 == 43) ((cstr op).drop 1) with
  | error e =>
    rw [hparse] at h
    cases h
  | ok effect =>
    rw [hparse] at h
    cases h
    refine ⟨⟨?_, lower_lower _, ?_, ?_⟩, rfl⟩
    · show parseText table (opAt op 0 == 43) (lower _) = .ok effect.canon
      rw [parseText_lower, hparse]
      rfl
    · intro hall
      have hword : lower (cstr op) = tolower (opAt op 0) :: ofString "@all" := by
        rw [cstr_commandOp hop]
        exact congrArg _ hall
      unfold isCommandOp at hop
      rw [Bool.or_eq_true, beq_iff_eq, beq_iff_eq] at hop
      rcases hop with hop | hop
      · rw [hop] at hword
        have hyes : opIs op "+@all" := (strcaseEq_iff _ _).mpr hword
        rw [hyes] at hplus
        cases hplus
      · rw [hop] at hword
        have hyes : opIs op "-@all" := (strcaseEq_iff _ _).mpr hword
        rw [hyes] at hminus
        cases hminus
    · show (0 : UInt8) ∉ lower _
      rw [mem_lower_iff (.inl (by decide))]
      exact zero_notMem_name op

/-! ## Which command a rule is about -/

lemma first_bar_unique {a' b' : Bytes} (ha : (124 : UInt8) ∉ a)
    (ha' : (124 : UInt8) ∉ a') (h : a ++ 124 :: b = a' ++ 124 :: b') : a = a' ∧ b = b' := by
  induction a generalizing a' with
  | nil =>
    cases a' with
    | nil => exact ⟨rfl, by simpa using h⟩
    | cons c a' =>
      rw [nil_append, cons_append, cons.injEq] at h
      exact absurd (by simp [h.1]) ha'
  | cons c a ih =>
    cases a' with
    | nil =>
      rw [nil_append, cons_append, cons.injEq] at h
      exact absurd (by simp [h.1]) ha
    | cons c' a' =>
      rw [cons_append, cons_append, cons.injEq] at h
      have hrest := ih (fun hm => ha (by simp [hm])) (fun hm => ha' (by simp [hm])) h.2
      exact ⟨by rw [h.1, hrest.1], hrest.2⟩

/-- A text that allows something names a command, a subcommand of a
container, or a command and a first argument. -/
inductive Names (table : CommandTable) : Bytes → Effect → Prop
  | command (name : Bytes) (cmd : Command) (hbar : (124 : UInt8) ∉ name)
      (hcmd : table.fetch name = some cmd) :
      Names table name (.change ⟨cmd.toCommandInfo, cmd.subcommands⟩)
  | subcommand (a b : Bytes) (cmd : Command) (subs : List SubCommand) (sub : SubCommand)
      (ha : (124 : UInt8) ∉ a) (hb : (124 : UInt8) ∉ b) (hcmd : table.fetch a = some cmd)
      (hsubs : cmd.subcommands = some subs) (hsub : lookupSubcommand subs b = some sub) :
      Names table (a ++ 124 :: b) (.change ⟨sub.toCommandInfo, none⟩)
  | firstArg (a b : Bytes) (cmd : Command) (ha : (124 : UInt8) ∉ a)
      (hb : (124 : UInt8) ∉ b) (hcmd : table.fetch a = some cmd)
      (hsubs : cmd.subcommands = none) :
      Names table (a ++ 124 :: b) (.firstArg cmd.id b)

lemma names_of_lookup (hzero : (0 : UInt8) ∉ name) (h : aclLookupCommand table name = some found) :
    Names table name (.change found) := by
  rcases aclLookupCommand_cases hzero h with
    ⟨cmd, hbar, hcmd, rfl⟩ | ⟨a, b, cmd, subs, sub, rfl, ha, hb, hcmd, hsubs, hsub, rfl⟩
  · exact .command name cmd hbar hcmd
  · exact .subcommand a b cmd subs sub ha hb hcmd hsubs hsub

variable {e : Effect}

lemma names_of_parseAllow (hzero : (0 : UInt8) ∉ name) (h : parseAllow table name = .ok e) :
    Names table name e := by
  unfold parseAllow at h
  rcases last_bar_cases name with hbar | ⟨a, b, rfl, hb⟩
  · rw [splitLastBar_none hbar] at h
    cases hlook : aclLookupCommand table name with
    | none => simp [hlook] at h
    | some found =>
      simp only [hlook, ok.injEq] at h
      subst h
      exact names_of_lookup hzero hlook
  rw [splitLastBar_append a b hb] at h
  have hazero : (0 : UInt8) ∉ a := fun h0 => hzero (by simp [h0])
  cases hlook : aclLookupCommand table a with
  | none => simp [hlook] at h
  | some found =>
    simp only [hlook] at h
    split at h
    · cases h
    next hparent =>
      split at h
      · cases h
      rcases aclLookupCommand_cases hazero hlook with
        ⟨cmd, ha, hcmd, rfl⟩ | ⟨_, _, cmd, subs, sub, _, _, _, hcmd, hsubs, hsub, rfl⟩
      · cases hsubs : cmd.subcommands with
        | none =>
          simp only [hsubs, ok.injEq] at h
          subst h
          exact .firstArg a b cmd ha hb hcmd hsubs
        | some subs =>
          simp only [hsubs] at h
          cases hlook' : aclLookupCommand table (a ++ 124 :: b) with
          | none => simp [hlook'] at h
          | some found =>
            simp only [hlook', ok.injEq] at h
            subst h
            exact names_of_lookup hzero hlook'
      · -- the part before the last bar is a subcommand: `ECHILD`
        exact absurd (table.sub_ok cmd (mem_of_find?_eq_some hcmd) subs hsubs sub
          (mem_of_find?_eq_some hsub)).2.2 hparent

lemma names_of_parseText {allow : Bool} (hzero : (0 : UInt8) ∉ text) (hat : opAt text 0 ≠ 64)
    (h : parseText table allow text = .ok e) : Names table text e := by
  unfold parseText at h
  rw [if_neg hat] at h
  cases allow with
  | true => exact names_of_parseAllow hzero h
  | false =>
    unfold parseDeny at h
    cases hlook : aclLookupCommand table text with
    | none => simp [hlook] at h
    | some found =>
      simp only [hlook, Bool.false_eq_true, if_false, ok.injEq] at h
      subst h
      exact names_of_lookup hzero hlook

/-- A command without subcommands; only these have first arguments. -/
def PlainId (table : CommandTable) (id : Nat) : Prop :=
  ∃ cmd ∈ table.commands, cmd.subcommands = none ∧ cmd.id = id

/-- The effect refers to the command table. -/
def Effect.Valid (table : CommandTable) : Effect → Prop
  | .change cmd => InTable table cmd
  | .category _ => True
  | .firstArg id _ => PlainId table id

lemma Names.valid (h : Names table text e) : e.Valid table := by
  cases h with
  | command _ cmd hbar hcmd => exact .command cmd (mem_of_find?_eq_some hcmd)
  | subcommand a b cmd subs sub ha hb hcmd hsubs hsub =>
    exact .subcommand cmd subs sub (mem_of_find?_eq_some hcmd) hsubs (mem_of_find?_eq_some hsub)
  | firstArg a b cmd ha hb hcmd hsubs => exact ⟨cmd, mem_of_find?_eq_some hcmd, hsubs, rfl⟩

lemma one_bar {a' b' : Bytes} (ha : (124 : UInt8) ∉ a) (hb : (124 : UInt8) ∉ b)
    (h : a ++ 124 :: b = a' ++ 124 :: b') : a = a' ∧ b = b' := by
  apply first_bar_unique ha _ h
  have hcount := congrArg (count 124) h
  simp only [count_append, count_cons_self, count_eq_zero_of_not_mem ha,
    count_eq_zero_of_not_mem hb] at hcount
  exact count_eq_zero.mp (by omega)

lemma Names.of_plain (hbar : (124 : UInt8) ∉ name) (h : Names table name e) :
    ∃ cmd, table.fetch name = some cmd ∧ e = .change ⟨cmd.toCommandInfo, cmd.subcommands⟩ := by
  cases h with
  | command _ cmd _ hcmd => exact ⟨cmd, hcmd, rfl⟩
  | subcommand => exact absurd (by simp) hbar
  | firstArg => exact absurd (by simp) hbar

lemma Names.of_bar
    (ha : (124 : UInt8) ∉ a) (hb : (124 : UInt8) ∉ b) (h : Names table (a ++ 124 :: b) e) :
    ∃ cmd, table.fetch a = some cmd ∧
    ((∃ subs sub, cmd.subcommands = some subs ∧ lookupSubcommand subs b = some sub ∧
        e = .change ⟨sub.toCommandInfo, none⟩) ∨
      (cmd.subcommands = none ∧ e = .firstArg cmd.id b)) := by
  generalize htext : a ++ 124 :: b = text at h
  cases h with
  | command _ cmd hbar _ => exact absurd (by rw [← htext]; simp) hbar
  | subcommand a' b' cmd subs sub _ _ hcmd hsubs hsub =>
    obtain ⟨rfl, rfl⟩ := one_bar ha hb htext
    exact ⟨cmd, hcmd, .inl ⟨subs, sub, hsubs, hsub, rfl⟩⟩
  | firstArg a' b' cmd _ _ hcmd hsubs =>
    obtain ⟨rfl, rfl⟩ := one_bar ha hb htext
    exact ⟨cmd, hcmd, .inr ⟨hsubs, rfl⟩⟩

lemma Names.unique {e' : Effect} (h : Names table text e) (h' : Names table text e') : e = e' := by
  cases h with
  | command _ cmd hbar hcmd =>
    obtain ⟨cmd', hcmd', rfl⟩ := h'.of_plain hbar
    rw [hcmd] at hcmd'
    cases hcmd'
    rfl
  | subcommand a b cmd subs sub ha hb hcmd hsubs hsub =>
    obtain ⟨cmd', hcmd', h'⟩ := h'.of_bar ha hb
    rw [hcmd] at hcmd'
    cases hcmd'
    rcases h' with ⟨subs', sub', hsubs', hsub', rfl⟩ | ⟨hnone, _⟩
    · rw [hsubs] at hsubs'
      cases hsubs'
      rw [hsub] at hsub'
      cases hsub'
      rfl
    · rw [hsubs] at hnone
      cases hnone
  | firstArg a b cmd ha hb hcmd hsubs =>
    obtain ⟨cmd', hcmd', h'⟩ := h'.of_bar ha hb
    rw [hcmd] at hcmd'
    cases hcmd'
    rcases h' with ⟨subs', _, hsubs', _⟩ | ⟨_, rfl⟩
    · rw [hsubs] at hsubs'
      cases hsubs'
    · rfl

/-- The rule for a part of a command touches nothing that the rule for the
whole command leaves alone. -/
lemma Names.part {rest : Bytes} {e' : Effect}
    (h : Names table (name ++ 124 :: rest) e) (h' : Names table name e') :
    ∃ cmd : Command, e' = .change ⟨cmd.toCommandInfo, cmd.subcommands⟩ ∧
    ((∃ sub : SubCommand, sub.id ∈ cmd.ids ∧ e = .change ⟨sub.toCommandInfo, none⟩) ∨
      ∃ arg, e = .firstArg cmd.id arg) := by
  have hbar : (124 : UInt8) ∉ name ∧ (124 : UInt8) ∉ rest := by
    generalize htext : name ++ 124 :: rest = text at h
    cases h with
    | command _ cmd hbar _ => exact absurd (by rw [← htext]; simp) hbar
    | subcommand a b _ _ _ ha hb =>
      obtain ⟨rfl, rfl⟩ := one_bar ha hb htext.symm
      exact ⟨ha, hb⟩
    | firstArg a b _ ha hb =>
      obtain ⟨rfl, rfl⟩ := one_bar ha hb htext.symm
      exact ⟨ha, hb⟩
  obtain ⟨cmd, hcmd, h⟩ := h.of_bar hbar.1 hbar.2
  obtain ⟨cmd', hcmd', rfl⟩ := h'.of_plain hbar.1
  rw [hcmd] at hcmd'
  cases hcmd'
  refine ⟨cmd, rfl, ?_⟩
  rcases h with ⟨subs, sub, hsubs, hsub, rfl⟩ | ⟨_, rfl⟩
  · refine .inl ⟨sub, ?_, rfl⟩
    apply mem_cons_of_mem
    rw [hsubs]
    exact mem_map_of_mem (mem_of_find?_eq_some hsub)
  · exact .inr ⟨rest, rfl⟩

lemma bar_notMem_of_parseCategory
    (hzero : (0 : UInt8) ∉ text) (h : parseCategory table text = .ok e) :
    (124 : UInt8) ∉ text.drop 1 := by
  unfold parseCategory aclGetCommandCategoryFlagByName at h
  cases hfind : (table.categories.find? fun item => strcaseEq (text.drop 1) item.1) with
  | none =>
    rw [hfind] at h
    cases h
  | some item =>
    have hok := (table.category_ok item (mem_of_find?_eq_some hfind)).1
    have heq : strcaseEq (text.drop 1) item.1 := by simpa using find?_some hfind
    rw [strcaseEq_iff, cstr_eq_self (fun h0 => hzero (mem_of_mem_drop h0)),
      cstr_eq_self hok.zero_notMem] at heq
    have hsep : (124 : UInt8) < 65 ∨ 122 < (124 : UInt8) := .inr (by decide)
    rw [← mem_lower_iff hsep, heq, mem_lower_iff hsep]
    exact fun hbar => (hok.2 124 hbar).2.2.1 rfl

lemma Kept.valid (h : Kept table r) : r.effect.Valid table := by
  by_cases hat : opAt r.text 0 = 64
  · have hparse := h.parse
    unfold parseText parseCategory at hparse
    rw [if_pos hat] at hparse
    split at hparse
    · cases hparse
    next cflag _ =>
      rw [ok.injEq] at hparse
      rw [← hparse]
      trivial
  · exact (names_of_parseText h.zero hat h.parse).valid

lemma Kept.effect_unique {r' : Rule} (hr : Kept table r)
    (hr' : Kept table r') (h : r.text = r'.text) : r.effect = r'.effect := by
  by_cases hat : opAt r.text 0 = 64
  · have hparse := hr.parse
    have hparse' := hr'.parse
    unfold parseText at hparse hparse'
    rw [if_pos hat] at hparse
    rw [← h, if_pos hat, hparse, ok.injEq] at hparse'
    exact hparse'
  · apply (names_of_parseText hr.zero hat hr.parse).unique
    rw [h] at hat ⊢
    exact names_of_parseText hr'.zero hat hr'.parse

/-- Two rules whose texts extend one another at a bar are about commands. -/
lemma Kept.names_of_part {r' : Rule} {rest : Bytes}
    (hr : Kept table r) (hr' : Kept table r') (h : r.text = r'.text ++ 124 :: rest) :
    Names table r.text r.effect ∧ Names table r'.text r'.effect := by
  have hat : opAt r.text 0 ≠ 64 := by
    intro hat
    have hparse := hr.parse
    unfold parseText at hparse
    rw [if_pos hat] at hparse
    apply bar_notMem_of_parseCategory hr.zero hparse
    cases htext : r'.text with
    | nil =>
      rw [h, htext] at hat
      exact absurd hat (by simp [opAt])
    | cons c text =>
      rw [h, htext]
      simp
  have hat' : opAt r'.text 0 ≠ 64 := by
    intro hat'
    apply hat
    cases htext : r'.text with
    | nil =>
      rw [htext] at hat'
      exact absurd hat' (by decide)
    | cons c text =>
      rw [htext] at hat'
      rw [h, htext]
      exact hat'
  exact ⟨names_of_parseText hr.zero hat hr.parse, names_of_parseText hr'.zero hat' hr'.parse⟩

end Dice.Ports.AclRules
