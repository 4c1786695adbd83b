import Dice.Ports.AclPermissions

/-!
# The kept text of command rules

A selector keeps the text of its command rules and edits it with every new
rule: superseded rules go, the new one is put at the end.  The invariant is
that replaying the text over an empty or a full bitmap gives the permissions
of the selector; the compaction lemma of `Verified/Overlay.lean` carries it
over the removals.
-/

namespace Dice.Ports.AclRuleText

open List Verified CString Overlay Sds AclSelector AclRules AclPermissions

/-- The kept text of a list of rules. -/
def rulesText (rules : List Rule) : Bytes := [(32 : UInt8)].intercalate (rules.map Rule.word)

/-- The rules that stay when `newRule` is added. -/
def surviving (newRule : Bytes) (rules : List Rule) : List Rule :=
  rules.filter fun r => !ruleMatches r.text newRule

@[simp] lemma rulesText_singleton (r : Rule) : rulesText [r] = r.word := intercalate_singleton

lemma rulesText_cons (r r' : Rule) (rules : List Rule) :
    rulesText (r :: r' :: rules) = r.word ++ 32 :: rulesText (r' :: rules) := by
  rfl

variable {rules : List Rule} {s : Selector} {r : Rule} {table : CommandTable}

lemma rulesText_concat (hne : rules ≠ []) (r : Rule) :
    rulesText (rules ++ [r]) = rulesText rules ++ 32 :: r.word := by
  induction rules with
  | nil => exact absurd rfl hne
  | cons r1 rules ih =>
    cases rules with
    | nil => rw [singleton_append, rulesText_cons, rulesText_singleton, rulesText_singleton]
    | cons r2 rules =>
      rw [cons_append, cons_append, rulesText_cons, rulesText_cons,
        ← cons_append, ih (by simp), append_assoc, cons_append]

lemma length_rulesText (rules : List Rule) : rules.length ≤ (rulesText rules).length := by
  induction rules with
  | nil => exact Nat.le_refl _
  | cons r rules ih =>
    cases rules with
    | nil => simp [Rule.word]
    | cons r' rules =>
      rw [rulesText_cons, length_append]
      simp only [length_cons] at ih ⊢
      omega

lemma rulesText_ne_empty (r : Rule) (rules : List Rule) :
    (rulesText (r :: rules)).isEmpty = false := by
  have hlen := length_rulesText (r :: rules)
  rw [isEmpty_eq_false_iff, ← length_pos_iff]
  exact Nat.lt_of_lt_of_le (by simp) hlen

lemma takeWhile_text {text : Bytes} (h : (32 : UInt8) ∉ text) (rest : Bytes) :
    (text ++ 32 :: rest).takeWhile (· != 32) = text ∧
    (text ++ 32 :: rest).dropWhile (· != 32) = 32 :: rest := by
  have hall : ∀ c ∈ text, (c != 32) := by
    intro c hc
    have hne : c ≠ 32 := fun heq => h (heq ▸ hc)
    simpa using hne
  rw [takeWhile_append_of_pos hall, dropWhile_append_of_pos hall]
  simp

lemma takeWhile_last {text : Bytes} (h : (32 : UInt8) ∉ text) :
    text.takeWhile (· != 32) = text ∧ text.dropWhile (· != 32) = [] := by
  have hall : ∀ c ∈ text, (c != 32) := by
    intro c hc
    have hne : c ≠ 32 := fun heq => h (heq ▸ hc)
    simpa using hne
  exact ⟨takeWhile_eq_self_iff.mpr hall, dropWhile_eq_nil_iff.mpr hall⟩

/-- The loop of `ACLSelectorRemoveCommandRule` on the rest of a text.  When no
rule is left, the blank that ended the previous one goes too. -/
lemma removeCommandRuleLoop_text (newRule : Bytes) (rules : List Rule)
    (hblank : ∀ r ∈ rules, (32 : UInt8) ∉ r.text) :
    ∀ (fuel : Nat) (before : Bytes), rules ≠ [] → rules.length ≤ fuel →
    removeCommandRuleLoop newRule fuel before (rulesText rules) =
      if surviving newRule rules = [] then before.dropLast
      else before ++ rulesText (surviving newRule rules) := by
  induction rules with
  | nil => intro _ _ hne _; exact absurd rfl hne
  | cons r rules ih =>
    intro fuel before _ hfuel
    obtain ⟨fuel, rfl⟩ : ∃ n, fuel = n + 1 := ⟨fuel - 1, by simp at hfuel; omega⟩
    have htext := hblank r (by simp)
    cases rules with
    | nil =>
      rw [rulesText_singleton]
      unfold Rule.word removeCommandRuleLoop
      simp only [(takeWhile_last htext).1, (takeWhile_last htext).2]
      cases hm : ruleMatches r.text newRule with
      | true => simp [surviving, hm]
      | false => simp [surviving, hm, Rule.word]
    | cons r' rules =>
      have hnext := ih (fun r'' hr'' => hblank r'' (by simp [hr''])) fuel
      rw [rulesText_cons]
      unfold Rule.word removeCommandRuleLoop
      simp only [cons_append, (takeWhile_text htext _).1, (takeWhile_text htext _).2]
      cases hm : ruleMatches r.text newRule with
      | true =>
        have hkeep : surviving newRule (r :: r' :: rules) =
          surviving newRule (r' :: rules) := filter_cons_of_neg (by simp [hm])
        rw [if_pos rfl, hnext before (by simp) (by simpa using hfuel), hkeep]
      | false =>
        have hkeep : surviving newRule (r :: r' :: rules) = r :: surviving newRule (r' :: rules) :=
          filter_cons_of_pos (by simp [hm])
        rw [if_neg Bool.false_ne_true, hnext _ (by simp) (by simpa using hfuel), hkeep]
        cases hs : surviving newRule (r' :: rules) with
        | nil =>
          rw [dropLast_concat, rulesText_singleton]
          rfl
        | cons r'' rest =>
          rw [rulesText_cons]
          simp [Rule.word]

lemma commandRules_update (htext : s.commandRules = rulesText rules)
    (hblank : ∀ r ∈ rules, (32 : UInt8) ∉ r.text) (hlow : lower r.text = r.text)
    (hzero : (0 : UInt8) ∉ r.text) :
    (aclUpdateCommandRules s r.text r.allow).commandRules =
    rulesText (surviving r.text rules ++ [r]) := by
  have hkept : aclSelectorRemoveCommandRule s.commandRules r.text =
    rulesText (surviving r.text rules) := by
    unfold aclSelectorRemoveCommandRule
    rw [htext]
    cases rules with
    | nil => rfl
    | cons r' rules =>
      rw [removeCommandRuleLoop_text r.text _ hblank _ _ (by simp) (length_rulesText _)]
      split
      next hnil =>
        rw [hnil]
        rfl
      next => rfl
  unfold aclUpdateCommandRules
  simp only [cstr_eq_self hzero, hlow, hkept]
  cases hs : surviving r.text rules with
  | nil =>
    rw [nil_append, rulesText_singleton]
    rfl
  | cons r' rest =>
    rw [rulesText_ne_empty, rulesText_concat (by simp), if_neg Bool.false_ne_true, append_assoc]
    rfl

/-! ## The invariant -/

/-- The permissions a replay starts from: all commands, also future ones, or
none. -/
def basePermissions (future : Bool) : Coord → Bool
  | .bit id => future && decide (id < userCommandBitsCount)
  | .arg _ _ => false

/-- `rules` are the rules in the kept text, and they account for the
permissions of the selector. -/
structure RulesOk (table : CommandTable) (s : Selector) (rules : List Rule) : Prop where
  text : s.commandRules = rulesText rules
  kept : ∀ r ∈ rules, Kept table r
  token : ∀ r ∈ rules, ∀ c ∈ r.text, tokenByte c = true
  perms : view s = replay (rules.map (ruleWrite table))
    (basePermissions (aclSelectorCanExecuteFutureCommands s))

lemma RulesOk.congr {s' : Selector} (h : RulesOk table s rules) (hview : view s' = view s)
    (htext : s'.commandRules = s.commandRules) : RulesOk table s' rules where
  text := htext.trans h.text
  kept := h.kept
  token := h.token
  perms := by
    have hfuture : aclSelectorCanExecuteFutureCommands s' = aclSelectorCanExecuteFutureCommands s :=
      congrFun hview (.bit (userCommandBitsCount - 1))
    rw [hview, hfuture, h.perms]

lemma effectIds_lt {e : Effect} (h : e.Valid table) :
    ∀ id ∈ effectIds table e, id < userCommandBitsCount - 1 := by
  cases e with
  | change cmd => exact inTable_id_lt h
  | category cflag =>
    intro id hid
    obtain ⟨cmd, hcmd, hid⟩ := mem_flatMap.mp hid
    apply commandTable_id_lt table hcmd
    rcases mem_append.mp hid with h | h
    · cases hcat : inCategory cflag cmd.toCommandInfo with
      | true => simpa [hcat] using h
      | false => simp [hcat] at h
    obtain ⟨sub, hsub, hid⟩ := mem_flatMap.mp h
    apply mem_cons_of_mem
    cases hcat : inCategory cflag sub.toCommandInfo with
    | true =>
      rw [hcat, if_pos rfl, mem_singleton] at hid
      rw [hid]
      exact mem_map_of_mem hsub
    | false => simp [hcat] at hid
  | firstArg id arg =>
    intro id' hid
    exact absurd hid (by simp [effectIds])

/-- First arguments come from rules, so they belong to plain commands. -/
lemma plainArgs_replay (rules : List Rule) {v : Coord → Bool}
    (hrules : ∀ r ∈ rules, Kept table r) (hv : PlainArgs table v) :
    PlainArgs table (replay (rules.map (ruleWrite table)) v) := by
  intro id arg
  apply replay_property (P := fun b => b = true → PlainId table id) (hv id arg)
  intro w hw b hb hbtrue
  obtain ⟨r, hr, rfl⟩ := mem_map.mp hw
  subst hbtrue
  have hvalid := (hrules r hr).valid
  cases he : r.effect with
  | firstArg id' item =>
    simp only [ruleWrite, he] at hb
    split at hb
    next hid =>
      rw [he] at hvalid
      rw [hid.1]
      exact hvalid
    next => cases hb
  | change cmd => simp [ruleWrite, he] at hb
  | category cflag => simp [ruleWrite, he] at hb

lemma plainArgs_base (table : CommandTable) (future : Bool) :
    PlainArgs table (basePermissions future) := by
  intro id arg h
  cases h

lemma RulesOk.plainArgs (h : RulesOk table s rules) : PlainArgs table (view s) := by
  rw [h.perms]
  exact plainArgs_replay rules h.kept (plainArgs_base table _)

lemma ruleWrite_canon (table : CommandTable) (r : Rule) :
    ruleWrite table r.canon = ruleWrite table r := by
  obtain ⟨allow, text, effect⟩ := r
  funext c
  cases effect with
  | change cmd => cases c <;> rfl
  | category cflag => cases c <;> rfl
  | firstArg id item =>
    cases c with
    | bit j => rfl
    | arg j arg => simp [ruleWrite, Rule.canon, Effect.canon, strcaseEq_lower_left]

lemma valid_canon {e : Effect} : e.canon.Valid table ↔ e.Valid table := by
  cases e <;> rfl

lemma future_applyRule (hvalid : r.effect.Valid table) (hplain : PlainArgs table (view s)) :
    aclSelectorCanExecuteFutureCommands (applyRule table s r) =
    aclSelectorCanExecuteFutureCommands s := by
  have hbit := congrFun (view_applyRule hvalid hplain) (.bit (userCommandBitsCount - 1))
  have hnot : userCommandBitsCount - 1 ∉ effectIds table r.effect :=
    fun hmem => absurd (effectIds_lt hvalid _ hmem) (Nat.lt_irrefl _)
  have hnone : ruleWrite table r (.bit (userCommandBitsCount - 1)) = none := if_neg hnot
  unfold overwrite at hbit
  rw [hnone] at hbit
  exact hbit

lemma RulesOk.apply (h : RulesOk table s rules) (hr : Kept table r.canon)
    (htoken : ∀ c ∈ r.text, tokenByte c) :
    RulesOk table (applyRule table s r) (surviving r.text rules ++ [r.canon]) where
  text := by
    have houtline := congrArg Selector.commandRules (outline_applyRule (valid_canon.mp hr.valid) s)
    have hblank : ∀ r ∈ rules, (32 : UInt8) ∉ r.text :=
      fun r hr hmem => tokenByte_ne_blank (h.token r hr 32 hmem) rfl
    have hupdate := commandRules_update (s := outline s) (r := r.canon) h.text hblank hr.low hr.zero
    exact houtline.trans hupdate
  kept := by
    intro r' hr'
    rcases mem_append.mp hr' with hr' | hr'
    · exact h.kept r' (mem_of_mem_filter hr')
    · rw [mem_singleton.mp hr']
      exact hr
  token := by
    intro r' hr'
    rcases mem_append.mp hr' with hr' | hr'
    · exact h.token r' (mem_of_mem_filter hr')
    · rw [mem_singleton.mp hr']
      exact htoken
  perms := by
    have hvalid := valid_canon.mp hr.valid
    have hcovers : ∀ r' ∈ rules, (!ruleMatches r'.text r.text) = false →
      Covers (ruleWrite table r.canon) (ruleWrite table r') := by
      intro r' hr' hmatch
      have hmatch : ruleMatches r'.text r.text := by simpa using hmatch
      exact covers_of_ruleMatches (h.kept r' hr') hr hmatch
    rw [future_applyRule hvalid h.plainArgs, view_applyRule hvalid h.plainArgs, ← ruleWrite_canon]
    unfold surviving
    rw [replay_compact hcovers, ← h.perms]

lemma view_setAllCommands (s : Selector) : view (setAllCommands s) = basePermissions true := by
  funext c
  cases c with
  | bit id =>
    show (BitVec.allOnes userCommandBitsCount).getLsbD id = _
    simp [basePermissions]
  | arg id arg => rfl

lemma view_setNoCommands (s : Selector) : view (setNoCommands s) = basePermissions false := by
  funext c
  cases c with
  | bit id => simp [view, basePermissions, aclGetSelectorCommandBit, setNoCommands]
  | arg id arg => rfl

lemma future_of_view {future : Bool} (h : view s = basePermissions future) :
    aclSelectorCanExecuteFutureCommands s = future := by
  have hbit := congrFun h (.bit (userCommandBitsCount - 1))
  have hbase : basePermissions future (.bit (userCommandBitsCount - 1)) = future := by
    cases future <;> rfl
  exact hbit.trans hbase

lemma rulesOk_all (table : CommandTable) (s : Selector) : RulesOk table (setAllCommands s) [] where
  text := rfl
  kept := by simp
  token := by simp
  perms := by
    rw [future_of_view (view_setAllCommands s)]
    exact view_setAllCommands s

lemma rulesOk_none (table : CommandTable) (s : Selector) : RulesOk table (setNoCommands s) [] where
  text := rfl
  kept := by simp
  token := by simp
  perms := by
    rw [future_of_view (view_setNoCommands s)]
    exact view_setNoCommands s

/-- What the command rules do not concern. -/
def lists (s : Selector) : Selector := { outline s with commandRules := [] }

lemma eq_of_lists {s' : Selector} (h : lists s' = lists s) :
    s'.root = s.root ∧ s'.allKeys = s.allKeys ∧ s'.patterns = s.patterns ∧
    s'.allChannels = s.allChannels ∧ s'.channels = s.channels := by
  have hroot := congrArg Selector.root h
  have hkeys := congrArg Selector.allKeys h
  have hpatterns := congrArg Selector.patterns h
  have hall := congrArg Selector.allChannels h
  have hchannels := congrArg Selector.channels h
  exact ⟨hroot, hkeys, hpatterns, hall, hchannels⟩

lemma lists_applyRule (hvalid : r.effect.Valid table)
    (s : Selector) : lists (applyRule table s r) = lists s :=
  congrArg (fun s : Selector => { s with commandRules := [] }) (outline_applyRule hvalid s)

/-- A kept rule is accepted, whatever stands behind its terminator. -/
lemma aclSetSelector_word (hr : Kept table r) {op : Bytes} (hop : cstr op = r.word) (s : Selector) :
    aclSetSelector table s op = .ok (applyRule table s r) := by
  have hfirst : opAt op 0 = if r.allow then 43 else 45 := by
    rw [← opAt_cstr, hop]
    rfl
  have hcommand : isCommandOp op := by
    unfold isCommandOp
    rw [hfirst]
    cases r.allow <;> rfl
  have hallow : (opAt op 0 == 43) = r.allow := by
    rw [hfirst]
    cases r.allow <;> rfl
  have hnot : ∀ sign : UInt8, ∀ word : String,
      lower (cstr (ofString word)) = sign :: ofString "@all" → opIs op word = false := by
    intro sign word hword
    cases hop' : opIs op word with
    | false => rfl
    | true =>
      have heq : lower (cstr op) = lower (cstr (ofString word)) := (strcaseEq_iff _ _).mp hop'
      rw [hop, hword] at heq
      have htail : lower r.text = ofString "@all" := (cons.inj heq).2
      rw [hr.low] at htail
      exact absurd htail hr.notAll
  rw [aclSetSelector_command table s hcommand (hnot 43 "+@all" rfl) (hnot 45 "-@all" rfl),
    parseRule_eq table hcommand, hallow, hop]
  show ((parseText table r.allow r.text).map fun effect =>
    (⟨r.allow, lower r.text, effect⟩ : Rule)).map (applyRule table s) = _
  rw [hr.parse, hr.low]
  rfl

lemma foldlM_words (hrules : ∀ r ∈ rules, Kept table r) (tail : Bytes → Bytes)
    (htail : ∀ r ∈ rules, cstr (tail r.word) = r.word) :
    ∀ s, PlainArgs table (view s) → ∃ s', (rules.map Rule.word).foldlM
        (fun s op => aclSetSelector table s (tail op)) s = .ok s' ∧
      view s' = replay (rules.map (ruleWrite table)) (view s) ∧ lists s' = lists s := by
  induction rules with
  | nil => exact fun s _ => ⟨s, rfl, rfl, rfl⟩
  | cons r rules ih =>
    intro s hplain
    have hr := hrules r (by simp)
    have hview := view_applyRule hr.valid hplain
    have hplain' : PlainArgs table (view (applyRule table s r)) := by
      rw [hview]
      exact plainArgs_replay [r] (by simpa using hr) hplain
    obtain ⟨s', hrun, hview', hlists⟩ := ih (fun r' hr' => hrules r' (by simp [hr']))
      (fun r' hr' => htail r' (by simp [hr'])) (applyRule table s r) hplain'
    refine ⟨s', ?_, ?_, ?_⟩
    · rw [map_cons, foldlM_cons, aclSetSelector_word hr (htail r (by simp))]
      exact hrun
    · rw [hview', hview]
      rfl
    · rw [hlists, lists_applyRule hr.valid]

end Dice.Ports.AclRuleText
