import Dice.Verified.Overlay
import Dice.Ports.AclRules

/-!
# Command permissions as overwrites

Seen from the permissions, a command rule is a partial overwrite: it sets the
bits of some commands and forgets the first arguments allowed for them, or it
allows one first argument.  A rule that makes another one disappear from the
kept text sets everything the other one sets.
-/

namespace Dice.Ports.AclPermissions

open List Verified CString Table Overlay KeySpecs AclSelector AclRules

/-! ## Permissions as coordinates -/

/-- A bit of the command bitmap, or one first argument of a command. -/
inductive Coord
  | bit (id : Nat)
  | arg (id : Nat) (arg : Bytes)

/-- Is this first argument allowed by a rule of its own? -/
def allowsFirstArg (s : Selector) (id : Nat) (arg : Bytes) : Bool :=
  ((s.allowedFirstargs.lookup id).getD []).any fun item => strcaseEq item arg

/-- The permissions of a selector that come from its command rules. -/
def view (s : Selector) : Coord → Bool
  | .bit id => aclGetSelectorCommandBit s id
  | .arg id arg => allowsFirstArg s id arg

/-- Everything else in a selector, except `ALLCOMMANDS`. -/
def outline (s : Selector) : Selector :=
  { s with allCommands := false, allowedCommands := 0, allowedFirstargs := ∅ }

/-- The bits `ids` are set to `value`, the first arguments of `reset` are
forgotten, and nothing else happens. -/
structure Sets (ids reset : List Nat) (value : Bool) (s s' : Selector) : Prop where
  bits : ∀ id, view s' (.bit id) = if id ∈ ids then value else view s (.bit id)
  args : ∀ id arg,
    view s' (.arg id arg) = if id ∈ reset then false else view s (.arg id arg)
  outline : outline s' = outline s

lemma Sets.refl (value : Bool) (s : Selector) : Sets [] [] value s s where
  bits := by simp
  args := by simp
  outline := rfl

variable {ids reset : List Nat} {value : Bool} {s s' : Selector} {cmd : Command}
  {table : CommandTable} {r : Rule}

lemma Sets.trans {ids' reset' : List Nat} {s'' : Selector} (h : Sets ids reset value s s')
    (h' : Sets ids' reset' value s' s'') : Sets (ids ++ ids') (reset ++ reset') value s s'' where
  bits := by
    intro id
    rw [h'.bits, h.bits]
    by_cases h1 : id ∈ ids' <;> by_cases h2 : id ∈ ids <;> simp [h2]
  args := by
    intro id arg
    rw [h'.args, h.args]
    by_cases h1 : id ∈ reset' <;> by_cases h2 : id ∈ reset <;> simp [h2]
  outline := h'.outline.trans h.outline

/-- A loop whose rounds set permissions. -/
lemma Sets.foldl {α : Type} {f : Selector → α → Selector} {ids reset : α → List Nat} {xs : List α}
    (h : ∀ x ∈ xs, ∀ s, Sets (ids x) (reset x) value s (f s x)) (s : Selector) :
    Sets (xs.flatMap ids) (xs.flatMap reset) value s (xs.foldl f s) := by
  induction xs generalizing s with
  | nil => exact Sets.refl value s
  | cons x xs ih =>
    apply (h x (by simp) s).trans
    exact ih (fun x' hx' => h x' (by simp [hx'])) _

lemma Sets.ite (c : Bool) (h : Sets ids reset value s s') :
    Sets (if c then ids else []) (if c then reset else []) value s (if c then s' else s) := by
  cases c with
  | true => exact h
  | false => exact Sets.refl value s

lemma sets_commandBit {id : Nat} (hid : id < userCommandBitsCount) (value : Bool)
    (s : Selector) : Sets [id] [] value s (aclSetSelectorCommandBit s id value) where
  bits := by
    intro j
    unfold aclSetSelectorCommandBit
    rw [if_neg (by omega)]
    cases value with
    | true =>
      show (s.allowedCommands ||| BitVec.twoPow _ id).getLsbD j =
        if j ∈ [id] then true else s.allowedCommands.getLsbD j
      by_cases hj : j = id
      · simp [hj, hid]
      · simp [hj, Ne.symm hj]
    | false =>
      show (s.allowedCommands &&& ~~~ BitVec.twoPow _ id).getLsbD j =
        if j ∈ [id] then false else s.allowedCommands.getLsbD j
      by_cases hj : j = id
      · simp [hj]
      · by_cases hlt : j < userCommandBitsCount
        · simp [hj, hlt]
        · simp [BitVec.getLsbD_of_ge _ _ (Nat.le_of_not_lt hlt)]
  args := by
    intro j arg
    unfold aclSetSelectorCommandBit
    rw [if_neg (by omega)]
    cases value <;> rfl
  outline := by
    unfold aclSetSelectorCommandBit
    rw [if_neg (by omega)]
    cases value <;> rfl

lemma sets_resetFirstArgs (id : Nat) (value : Bool) (s : Selector) :
    Sets [] [id] value s (aclResetFirstArgsForCommand s id) where
  bits := by
    intro j
    rfl
  args := by
    intro j arg
    show (((s.allowedFirstargs.erase id).lookup j).getD []).any _ = _
    rw [lookup_erase_eq]
    by_cases hj : j = id
    · simp [hj]
    · simp [hj, view, allowsFirstArg]
  outline := rfl

/-- The identifiers of a command and its subcommands. -/
def foundIds (cmd : Found) : List Nat :=
  cmd.info.id :: (cmd.subcommands.getD []).map fun sub => sub.id

lemma sets_changePerm (cmd : Found)
    (hids : ∀ id ∈ foundIds cmd, id < userCommandBitsCount) (value : Bool) (s : Selector) :
    Sets (foundIds cmd) [cmd.info.id] value s (aclChangeSelectorPerm s cmd value) := by
  have hbit := sets_commandBit (hids cmd.info.id (by simp [foundIds])) value s
  have hreset := hbit.trans (sets_resetFirstArgs cmd.info.id value _)
  have hsubs : ∀ sub ∈ cmd.subcommands.getD [], ∀ s,
    Sets [sub.id] [] value s (aclSetSelectorCommandBit s sub.id value) := by
    intro sub hsub s
    apply sets_commandBit
    apply hids
    exact mem_cons_of_mem _ (mem_map_of_mem hsub)
  have hall := hreset.trans (Sets.foldl hsubs _)
  have hflat : (cmd.subcommands.getD []).flatMap (fun sub => [sub.id]) =
    (cmd.subcommands.getD []).map fun sub => sub.id := map_eq_flatMap.symm
  have hnone : (cmd.subcommands.getD []).flatMap (fun _ => ([] : List Nat)) = [] := by simp
  rw [hflat, hnone] at hall
  exact hall

/-- Does the command belong to the category? -/
def inCategory (cflag : UInt64) (info : CommandInfo) : Bool := info.aclCategories &&& cflag != 0

/-- The identifiers of the subcommands in a category. -/
def categorySubIds (cflag : UInt64) (cmd : Command) : List Nat :=
  (cmd.subcommands.getD []).flatMap fun sub =>
    if inCategory cflag sub.toCommandInfo then [sub.id] else []

/-- The bits a category sets at one command. -/
def categoryIds (cflag : UInt64) (cmd : Command) : List Nat :=
  (if inCategory cflag cmd.toCommandInfo then cmd.ids else []) ++ categorySubIds cflag cmd

/-- The commands whose first arguments a category forgets. -/
def categoryResets (cflag : UInt64) (cmd : Command) : List Nat :=
  (if inCategory cflag cmd.toCommandInfo then [cmd.id] else []) ++ categorySubIds cflag cmd

lemma sets_categoryForCommand
    (hids : ∀ id ∈ cmd.ids, id < userCommandBitsCount) (cflag : UInt64) (value : Bool)
    (s : Selector) :
    Sets (categoryIds cflag cmd) (categoryResets cflag cmd) value s
    (setCategoryForCommand cflag value s cmd) := by
  have hself := (sets_changePerm ⟨cmd.toCommandInfo, cmd.subcommands⟩ hids value s).ite
    (inCategory cflag cmd.toCommandInfo)
  have hsubs : ∀ sub ∈ cmd.subcommands.getD [], ∀ s,
    Sets (if inCategory cflag sub.toCommandInfo then [sub.id] else [])
      (if inCategory cflag sub.toCommandInfo then [sub.id] else []) value s
      (if inCategory cflag sub.toCommandInfo then
        aclChangeSelectorPerm s ⟨sub.toCommandInfo, none⟩ value
      else s) := by
    intro sub hsub s
    apply Sets.ite
    apply sets_changePerm ⟨sub.toCommandInfo, none⟩
    intro id hid
    rw [mem_singleton.mp hid]
    exact hids _ (mem_cons_of_mem _ (mem_map_of_mem hsub))
  exact hself.trans (Sets.foldl hsubs _)

lemma commandTable_id_lt (table : CommandTable)
    (hcmd : cmd ∈ table.commands) : ∀ id ∈ cmd.ids, id < userCommandBitsCount - 1 :=
  fun id hid => table.ids_lt id (mem_flatMap.mpr ⟨cmd, hcmd, hid⟩)

lemma sets_category (table : CommandTable) (cflag : UInt64) (value : Bool) (s : Selector) :
    Sets (table.commands.flatMap (categoryIds cflag))
    (table.commands.flatMap (categoryResets cflag)) value s
    (aclSetSelectorCommandBitsForCategory table s cflag value) := by
  apply Sets.foldl
  intro cmd hcmd s
  apply sets_categoryForCommand
  intro id hid
  have := commandTable_id_lt table hcmd id hid
  omega

/-! ## Rules as overwrites -/

/-- The identifiers whose permission an effect replaces. -/
def effectIds (table : CommandTable) : Effect → List Nat
  | .change cmd => foundIds cmd
  | .category cflag => table.commands.flatMap (categoryIds cflag)
  | .firstArg _ _ => []

/-- A rule as a partial overwrite. -/
def ruleWrite (table : CommandTable) (r : Rule) : Write Coord Bool
  | .bit id => if id ∈ effectIds table r.effect then some r.allow else none
  | .arg id arg =>
    match r.effect with
    | .firstArg id' item => if id = id' ∧ strcaseEq item arg = true then some true else none
    | e => if id ∈ effectIds table e then some false else none

/-- First arguments are allowed for commands without subcommands only. -/
def PlainArgs (table : CommandTable) (v : Coord → Bool) : Prop :=
  ∀ id arg, v (.arg id arg) = true → PlainId table id

lemma subcommand_not_plain (table : CommandTable) {subs : List SubCommand}
    {sub : SubCommand} (hcmd : cmd ∈ table.commands) (hsubs : cmd.subcommands = some subs)
    (hsub : sub ∈ subs) : ¬ PlainId table sub.id := by
  rintro ⟨cmd', hcmd', hnone, hid⟩
  have hne : cmd ≠ cmd' := by
    rintro rfl
    rw [hsubs] at hnone
    cases hnone
  have hmem : sub.id ∈ cmd.ids := by
    apply mem_cons_of_mem
    rw [hsubs]
    exact mem_map_of_mem hsub
  have hmem' : sub.id ∈ cmd'.ids := by
    rw [← hid]
    exact mem_cons_self
  have hdisjoint := (nodup_flatMap.mp table.ids_nodup).2
  have hsymm : Std.Symm (Function.onFun List.Disjoint Command.ids) := ⟨fun _ _ h _ ha hb => h hb ha⟩
  exact (hdisjoint.forall hcmd hcmd' hne) hmem hmem'

lemma mem_subcommands {sub : SubCommand} (h : sub ∈ cmd.subcommands.getD []) :
    ∃ subs, cmd.subcommands = some subs ∧ sub ∈ subs := by
  cases hsubs : cmd.subcommands with
  | none => simp [hsubs] at h
  | some subs => exact ⟨subs, rfl, by simpa [hsubs] using h⟩

/-- Of the identifiers of a command, all but its own are not plain. -/
lemma ids_plain (hcmd : cmd ∈ table.commands)
    {id : Nat} (hid : id ∈ cmd.ids) (hplain : PlainId table id) : id = cmd.id := by
  rcases mem_cons.mp hid with h | h
  · exact h
  · obtain ⟨sub, hsub, rfl⟩ := mem_map.mp h
    obtain ⟨subs, hsubs, hmem⟩ := mem_subcommands hsub
    exact absurd hplain (subcommand_not_plain table hcmd hsubs hmem)

/-- `Sets` as an overwrite, where first arguments occur at plain commands
only and those are all reset. -/
lemma view_eq_of_sets (h : Sets ids reset value s s') (hplain : PlainArgs table (view s))
    (hsub : ∀ id ∈ reset, id ∈ ids) (hall : ∀ id ∈ ids, PlainId table id → id ∈ reset) :
    (∀ id, view s' (.bit id) = (if id ∈ ids then some value else none).getD (view s (.bit id))) ∧
    ∀ id arg, view s' (.arg id arg) = (if id ∈ ids then some false else none).getD
    (view s (.arg id arg)) := by
  constructor
  · intro id
    rw [h.bits]
    by_cases hid : id ∈ ids <;> simp [hid]
  intro id arg
  rw [h.args]
  by_cases hid : id ∈ ids
  · by_cases hreset : id ∈ reset
    · simp [hid, hreset]
    have hfalse : view s (.arg id arg) = false := by
      cases hv : view s (.arg id arg) with
      | false => rfl
      | true => exact absurd (hall id hid (hplain id arg hv)) hreset
    simp [hid, hfalse]
  · have hreset : id ∉ reset := fun hr => hid (hsub id hr)
    simp [hid, hreset]

lemma inTable_id_lt {cmd : Found} (h : InTable table cmd) :
    ∀ id ∈ foundIds cmd, id < userCommandBitsCount - 1 := by
  cases h with
  | command cmd hcmd => exact commandTable_id_lt table hcmd
  | subcommand cmd subs sub hcmd hsubs hsub =>
    intro id hid
    rw [mem_singleton.mp hid]
    apply commandTable_id_lt table hcmd
    apply mem_cons_of_mem
    rw [hsubs]
    exact mem_map_of_mem hsub

lemma inTable_plain {cmd : Found} (h : InTable table cmd) :
    ∀ id ∈ foundIds cmd, PlainId table id → id ∈ [cmd.info.id] := by
  cases h with
  | command cmd hcmd =>
    intro id hid hplain
    exact mem_singleton.mpr (ids_plain hcmd hid hplain)
  | subcommand cmd subs sub hcmd hsubs hsub =>
    intro id hid _
    exact hid

lemma categoryResets_subset (cflag : UInt64) (cmd : Command) :
    ∀ id ∈ categoryResets cflag cmd, id ∈ categoryIds cflag cmd := by
  intro id hid
  refine mem_append.mpr ((mem_append.mp hid).imp_left fun h => ?_)
  split_ifs at h ⊢
  · rw [mem_singleton.mp h]
    exact mem_cons_self
  · exact h

lemma categoryIds_plain (hcmd : cmd ∈ table.commands) (cflag : UInt64) :
    ∀ id ∈ categoryIds cflag cmd, PlainId table id → id ∈ categoryResets cflag cmd := by
  intro id hid hplain
  refine mem_append.mpr ((mem_append.mp hid).imp_left fun h => ?_)
  split_ifs at h ⊢
  · exact mem_singleton.mpr (ids_plain hcmd h hplain)
  · exact h

lemma view_addFirstArg (s : Selector) (id : Nat) (sub : Bytes) :
    (∀ j, view (aclAddAllowedFirstArg s id sub) (.bit j) = view s (.bit j)) ∧
    (∀ j arg, view (aclAddAllowedFirstArg s id sub) (.arg j arg) =
    (if j = id ∧ strcaseEq sub arg then some true else none).getD (view s (.arg j arg))) ∧
    outline (aclAddAllowedFirstArg s id sub) = outline s := by
  unfold aclAddAllowedFirstArg
  by_cases hany : (((s.allowedFirstargs.lookup id).getD []).any fun item =>
    strcaseEq item sub)
  · -- the argument is there already, perhaps in another case
    simp only [hany, if_true, implies_true, and_true, true_and]
    intro j arg
    by_cases hj : j = id ∧ strcaseEq sub arg
    · obtain ⟨rfl, harg⟩ := hj
      obtain ⟨item, hitem, heq⟩ := any_eq_true.mp hany
      have htrue : view s (.arg j arg) := by
        apply any_eq_true.mpr
        refine ⟨item, hitem, ?_⟩
        rw [strcaseEq_iff] at heq harg ⊢
        exact heq.trans harg
      simp [harg, htrue]
    · simp [hj]
  · simp only [hany]
    refine ⟨fun _ => rfl, ?_, rfl⟩
    intro j arg
    by_cases hj : j = id
    · subst hj
      cases harg : strcaseEq sub arg <;> simp [harg, view, allowsFirstArg]
    · simp [hj, view, allowsFirstArg]

/-- **Effect of a rule on the permissions.** -/
lemma view_applyRule (hvalid : r.effect.Valid table) (hplain : PlainArgs table (view s)) :
    view (applyRule table s r) = overwrite (ruleWrite table r) (view s) := by
  obtain ⟨allow, text, effect⟩ := r
  cases effect with
  | change cmd =>
    have hin : InTable table cmd := hvalid
    have hsets := sets_changePerm cmd
      (fun id hid => by have := inTable_id_lt hin id hid; omega) allow s
    have hview := view_eq_of_sets hsets hplain (by simp [foundIds]) (inTable_plain hin)
    funext c
    cases c with
    | bit id => exact hview.1 id
    | arg id arg => exact hview.2 id arg
  | category cflag =>
    have hsets := sets_category table cflag allow (aclUpdateCommandRules s text allow)
    have hplain' : PlainArgs table (view (aclUpdateCommandRules s text allow)) := hplain
    have hview := view_eq_of_sets hsets hplain' (by
      intro id hid
      obtain ⟨cmd, hcmd, hid⟩ := mem_flatMap.mp hid
      exact mem_flatMap.mpr ⟨cmd, hcmd, categoryResets_subset cflag cmd id hid⟩)
      (by
        intro id hid hid'
        obtain ⟨cmd, hcmd, hid⟩ := mem_flatMap.mp hid
        exact mem_flatMap.mpr ⟨cmd, hcmd, categoryIds_plain hcmd cflag id hid hid'⟩)
    funext c
    cases c with
    | bit id => exact hview.1 id
    | arg id arg => exact hview.2 id arg
  | firstArg id item =>
    obtain ⟨hbit, harg, _⟩ := view_addFirstArg s id item
    funext c
    cases c with
    | bit j => exact hbit j
    | arg j arg => exact harg j arg

/-- Besides the permissions, a rule changes the kept text only. -/
lemma outline_applyRule (hvalid : r.effect.Valid table) (s : Selector) :
    outline (applyRule table s r) = aclUpdateCommandRules (outline s) r.text r.allow := by
  obtain ⟨allow, text, effect⟩ := r
  cases effect with
  | change cmd =>
    have hin : InTable table cmd := hvalid
    have hsets := sets_changePerm cmd
      (fun id hid => by have := inTable_id_lt hin id hid; omega) allow s
    show aclUpdateCommandRules (outline (aclChangeSelectorPerm s cmd allow)) text allow = _
    rw [hsets.outline]
  | category cflag =>
    exact (sets_category table cflag allow (aclUpdateCommandRules s text allow)).outline
  | firstArg id item =>
    show aclUpdateCommandRules (outline (aclAddAllowedFirstArg s id item)) text allow = _
    rw [(view_addFirstArg s id item).2.2]

lemma ruleMatches_cases {existing newRule : Bytes} (h : ruleMatches existing newRule) :
    existing = newRule ∨ ∃ rest, existing = newRule ++ 124 :: rest := by
  unfold ruleMatches at h
  simp only [Bool.and_eq_true, Bool.or_eq_true, beq_iff_eq, decide_eq_true_eq] at h
  obtain ⟨htake, hlen | ⟨hlen, hbar⟩⟩ := h
  · rw [hlen, Nat.min_self, take_length, ← hlen, take_length] at htake
    exact .inl htake
  rw [Nat.min_eq_right (by omega), take_length] at htake
  have hdrop := drop_eq_getElem?_toList_append (l := existing) (i := newRule.length)
  rw [hbar] at hdrop
  refine .inr ⟨existing.drop (newRule.length + 1), ?_⟩
  calc existing = existing.take newRule.length ++ existing.drop newRule.length :=
      (take_append_drop _ _).symm
    _ = newRule ++ 124 :: existing.drop (newRule.length + 1) := by
      rw [htake, hdrop]
      rfl

/-- A rule that is removed from the text sets nothing that its successor does
not set. -/
lemma covers_of_ruleMatches {r' : Rule} (hr : Kept table r)
    (hr' : Kept table r') (h : ruleMatches r.text r'.text) :
    Covers (ruleWrite table r') (ruleWrite table r) := by
  intro c hnone
  rcases ruleMatches_cases h with heq | ⟨rest, heq⟩
  · have heffect := hr.effect_unique hr' heq
    cases c with
    | bit id =>
      unfold ruleWrite at hnone ⊢
      rw [heffect]
      by_cases hid : id ∈ effectIds table r'.effect
      · simp [hid] at hnone
      · simp [hid]
    | arg id arg =>
      unfold ruleWrite at hnone ⊢
      rw [heffect]
      exact hnone
  obtain ⟨hnames, hnames'⟩ := hr.names_of_part hr' heq
  rw [heq] at hnames
  obtain ⟨cmd, he', hpart⟩ := hnames.part hnames'
  have hid : ∀ id, (c = .bit id ∨ ∃ arg, c = .arg id arg) → id ∉ cmd.ids := by
    intro id hc hmem
    have hmem' : id ∈ effectIds table r'.effect := by
      rw [he']
      exact hmem
    rcases hc with rfl | ⟨arg, rfl⟩
    · simp [ruleWrite, hmem'] at hnone
    · rw [he'] at hmem'
      simp [ruleWrite, he', hmem'] at hnone
  rcases hpart with ⟨sub, hsub, he⟩ | ⟨item, he⟩
  · have hne : ∀ id, id ∉ cmd.ids → id ∉ effectIds table (.change ⟨sub.toCommandInfo, none⟩) := by
      intro id hnot hmem
      rw [mem_singleton.mp hmem] at hnot
      exact hnot hsub
    cases c with
    | bit id => simp [ruleWrite, he, hne id (hid id (.inl rfl))]
    | arg id arg => simp [ruleWrite, he, hne id (hid id (.inr ⟨arg, rfl⟩))]
  cases c with
  | bit id => simp [ruleWrite, he, effectIds]
  | arg id arg =>
    have hne : id ≠ cmd.id := by
      rintro rfl
      exact hid _ (.inr ⟨arg, rfl⟩) mem_cons_self
    simp [ruleWrite, he, hne]

end Dice.Ports.AclPermissions
