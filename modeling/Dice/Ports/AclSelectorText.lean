import Dice.Verified.Run
import Dice.Ports.AclRuleText
import Dice.Ports.AclDescribe

/-!
# Selectors and their descriptions

The description of a selector is a list of words joined by blanks: key
patterns, channel patterns, `+@all` or `-@all`, and the kept command rules.
This module shows what every accepted operation keeps true of a selector, that
describing such a selector succeeds, and that a new selector to which the
words are applied has the same permissions.

A selector in brackets must satisfy more than the root selector; the extra
condition is a parameter `Q` of the invariant.
-/

namespace Dice.Ports.AclSelectorText

open Except

open List Verified CString Overlay Run Sds AclSelector AclUser AclRules Option
open AclPermissions AclRuleText AclDescribe

/-- What holds of every selector made by accepted operations. -/
structure SelectorOk (table : CommandTable) (Q : Bytes → Prop) (s : Selector) : Prop where
  allKeys : s.allKeys = true → s.patterns = []
  patternsNodup : (s.patterns.map KeyPattern.pattern).Nodup
  patterns : ∀ p ∈ s.patterns, (p.read || p.write) = true ∧
    aclStringHasSpaces p.pattern = false ∧ Q p.pattern
  allChannels : s.allChannels = true → s.channels = []
  channelsNodup : s.channels.Nodup
  channels : ∀ c ∈ s.channels, aclStringHasSpaces c = false ∧ c ≠ ofString "*" ∧ Q c
  rules : ∃ rules, RulesOk table s rules ∧ ∀ r ∈ rules, Q r.text

/-- An operation that can be described again: its command rule contains
neither blanks nor quotes, and what it stores satisfies `Q`. -/
structure OpOk (Q : Bytes → Prop) (op : Bytes) : Prop where
  token : isCommandOp op = true → ∀ c ∈ cstr op, tokenByte c = true
  suffix : ∀ w, w <:+ op → Q w
  rule : Q (lower ((cstr op).drop 1))

lemma selectorOk_new (table : CommandTable) (Q : Bytes → Prop) (pubsubDefault root : Bool) :
    SelectorOk table Q (aclCreateSelector pubsubDefault root) where
  allKeys := fun _ => rfl
  patternsNodup := nodup_nil
  patterns := by simp [aclCreateSelector]
  allChannels := fun _ => rfl
  channelsNodup := nodup_nil
  channels := by simp [aclCreateSelector]
  rules := ⟨[], rulesOk_none table (aclCreateSelector pubsubDefault root), by simp⟩

variable {op : Bytes} {pats : List KeyPattern} {p : KeyPattern} {s s' f : Selector}
  {table : CommandTable} {Q : Bytes → Prop} {rules : List Rule}

lemma patternFlags_suffix {read write read' write' : Bool} {pattern : Bytes}
    (h : patternFlags read write op = some (read', write', pattern)) : pattern <:+ op := by
  fun_induction patternFlags read write op with
  | case1 =>
    cases h
    exact suffix_rfl
  | case2 _ _ c op _ ih | case3 _ _ c op _ _ ih => exact (ih h).trans (suffix_cons c op)
  | case4 =>
    cases h
    exact suffix_cons ..
  | case5 => cases h

lemma mem_addPattern {new : KeyPattern} (h : p ∈ addPattern new pats) :
    p ∈ pats ∨ p = new ∨ ∃ q ∈ pats, q.pattern = new.pattern ∧
    p = { q with read := q.read || new.read, write := q.write || new.write } := by
  fun_induction addPattern new pats with
  | case1 => exact .inr (.inl (mem_singleton.mp h))
  | case2 q pats heq =>
    rcases mem_cons.mp h with rfl | h
    · exact .inr (.inr ⟨q, by simp, heq, rfl⟩)
    · exact .inl (by simp [h])
  | case3 q pats _ ih =>
    rcases mem_cons.mp h with rfl | h
    · exact .inl (by simp)
    rcases ih h with h | h | ⟨q', hq', heq, rfl⟩
    · exact .inl (by simp [h])
    · exact .inr (.inl h)
    · exact .inr (.inr ⟨q', by simp [hq'], heq, rfl⟩)

lemma addPattern_of_new {new : KeyPattern} (h : new.pattern ∉ pats.map KeyPattern.pattern) :
    addPattern new pats = pats ++ [new] := by
  induction pats with
  | nil => rfl
  | cons q pats ih =>
    rw [map_cons, mem_cons, not_or] at h
    rw [addPattern, if_neg (Ne.symm h.1), ih h.2]
    rfl

lemma addPattern_names (new : KeyPattern) (pats : List KeyPattern) :
    (addPattern new pats).map KeyPattern.pattern = pats.map KeyPattern.pattern ∨
    (new.pattern ∉ pats.map KeyPattern.pattern ∧ (addPattern new pats).map KeyPattern.pattern =
        pats.map KeyPattern.pattern ++ [new.pattern]) := by
  fun_induction addPattern new pats with
  | case1 => exact .inr ⟨by simp, rfl⟩
  | case2 => exact .inl rfl
  | case3 q pats hne ih =>
    rcases ih with h | ⟨hnew, h⟩
    · exact .inl (by simp [h])
    · refine .inr ⟨?_, by simp [h]⟩
      rw [map_cons, mem_cons, not_or]
      exact ⟨Ne.symm hne, hnew⟩

lemma setKeyPattern_cases (h : setKeyPattern s op = .ok s') :
    s.allKeys = false ∧ ∃ new : KeyPattern, new.pattern <:+ op ∧
    (new.read || new.write) ∧ aclStringHasSpaces new.pattern = false ∧
    s' = { s with patterns := addPattern new s.patterns, allKeys := false } := by
  revert h
  fun_cases setKeyPattern s op with
  | case5 hall read write pattern hparsed hneither hspaces =>
    intro h
    refine ⟨by simpa using hall, ⟨read, write, pattern⟩, ?_, ?_, by simpa using hspaces,
      (ok.inj h).symm⟩
    · unfold keyPatternOf at hparsed
      split at hparsed
      next rest => exact (patternFlags_suffix hparsed).trans (suffix_cons _ _)
      next =>
        cases hparsed
        exact drop_suffix 1 op
    · cases read <;> cases write <;> simp_all
  | _ => exact nofun

section

variable (hs : SelectorOk table Q s)

include hs

lemma selectorOk_setKeyPattern (hop : OpOk Q op) (h : setKeyPattern s op = .ok s') :
    SelectorOk table Q s' := by
  obtain ⟨hall, new, hsuffix, hflags, hspaces, rfl⟩ := setKeyPattern_cases h
  obtain ⟨rules, hrules, hQ⟩ := hs.rules
  refine ⟨by simp, ?_, ?_, hs.allChannels, hs.channelsNodup, hs.channels,
    rules, hrules.congr rfl rfl, hQ⟩
  · rcases addPattern_names new s.patterns with heq | ⟨hnew, heq⟩ <;> rw [heq]
    · exact hs.patternsNodup
    · exact hs.patternsNodup.append (nodup_singleton _) (by simpa using hnew)
  intro p hp
  rcases mem_addPattern hp with hp | rfl | ⟨q, hq, heq, rfl⟩
  · exact hs.patterns p hp
  · exact ⟨hflags, hspaces, hop.suffix _ hsuffix⟩
  · obtain ⟨hf, hsp, hQq⟩ := hs.patterns q hq
    refine ⟨?_, hsp, hQq⟩
    cases hr : q.read <;> cases hw : q.write <;> simp_all

lemma selectorOk_setChannelPattern (hop : OpOk Q op) (hstar : op.drop 1 ≠ ofString "*")
    (h : setChannelPattern s op = .ok s') :
    SelectorOk table Q s' := by
  obtain ⟨rules, hrules, hQ⟩ := hs.rules
  unfold setChannelPattern at h
  split at h
  · cases h
  split at h
  · cases h
  rename_i hspaces
  cases h
  refine ⟨hs.allKeys, hs.patternsNodup, hs.patterns, by simp, ?_, fun c hc => ?_,
    rules, hrules.congr rfl rfl, hQ⟩
  · split
    next => exact hs.channelsNodup
    next hnot => exact hs.channelsNodup.append (nodup_singleton _) (by simpa using hnot)
  have hc : c ∈ s.channels ∨ c = op.drop 1 := by
    split at hc
    · exact .inl hc
    · simpa using hc
  rcases hc with hc | rfl
  · exact hs.channels c hc
  · exact ⟨by simpa using hspaces, hstar, hop.suffix _ (drop_suffix 1 op)⟩

/-- The parts of the invariant that the command rules do not concern. -/
lemma selectorOk_of_lists (hlists : lists s' = lists s)
    (hrules : ∃ rules, RulesOk table s' rules ∧ ∀ r ∈ rules, Q r.text) : SelectorOk table Q s' := by
  obtain ⟨_, hkeys, hpatterns, hall, hchannels⟩ := eq_of_lists hlists
  refine ⟨?_, ?_, ?_, ?_, ?_, ?_, hrules⟩ <;> simp only [hkeys, hpatterns, hall, hchannels]
  exacts [hs.allKeys, hs.patternsNodup, hs.patterns, hs.allChannels, hs.channelsNodup, hs.channels]

omit hs in
lemma aclSetSelector_cases (h : aclSetSelector table s op = .ok s') :
    (∃ all, s' = { s with allKeys := all, patterns := [] }) ∨
      (∃ all, s' = { s with allChannels := all, channels := [] }) ∨
      s' = setAllCommands s ∨ s' = setNoCommands s ∨ setKeyPattern s op = .ok s' ∨
      (op.drop 1 ≠ ofString "*" ∧ setChannelPattern s op = .ok s') ∨
      (isCommandOp op ∧ opIs op "+@all" = false ∧ opIs op "-@all" = false) := by
  obtain ⟨-, h⟩ | ⟨-, h⟩ := ite_eq_iff.mp h
  · exact .inl ⟨true, (ok.inj h).symm⟩
  obtain ⟨-, h⟩ | ⟨-, h⟩ := ite_eq_iff.mp h
  · exact .inl ⟨false, (ok.inj h).symm⟩
  right
  obtain ⟨-, h⟩ | ⟨hall, h⟩ := ite_eq_iff.mp h
  · exact .inl ⟨true, (ok.inj h).symm⟩
  obtain ⟨-, h⟩ | ⟨-, h⟩ := ite_eq_iff.mp h
  · exact .inl ⟨false, (ok.inj h).symm⟩
  right
  obtain ⟨-, h⟩ | ⟨hplus, h⟩ := ite_eq_iff.mp h
  · exact .inl (ok.inj h).symm
  right
  obtain ⟨-, h⟩ | ⟨hminus, h⟩ := ite_eq_iff.mp h
  · exact .inl (ok.inj h).symm
  right
  obtain ⟨-, h⟩ | ⟨-, h⟩ := ite_eq_iff.mp h
  · exact .inl h
  right
  obtain ⟨hchannel, h⟩ | ⟨-, h⟩ := ite_eq_iff.mp h
  · refine .inl ⟨fun hstar => ?_, h⟩
    -- `&*` is `allchannels`
    cases op with
    | nil => cases hchannel
    | cons c rest =>
      have hc : c = 38 := hchannel
      have hrest : rest = ofString "*" := hstar
      subst hc
      subst hrest
      exact hall (by decide)
  simp only [Bool.or_eq_true, not_or, Bool.not_eq_true] at hplus hminus
  refine .inr ⟨?_, hplus.2, hminus.2⟩
  cases hcommand : isCommandOp op with
  | true => rfl
  | false =>
    simp only [isCommandOp, Bool.or_eq_false_iff, beq_eq_false_iff_ne] at hcommand
    rw [if_neg (by simp [hcommand.1]), if_neg (by simp [hcommand.2]),
      if_neg (by simp [hcommand.1, hcommand.2])] at h
    cases h

lemma selectorOk_aclSetSelector (hop : OpOk Q op) (h : aclSetSelector table s op = .ok s') :
    SelectorOk table Q s' := by
  obtain ⟨rules, hrules, hQ⟩ := hs.rules
  rcases aclSetSelector_cases h with
    ⟨all, rfl⟩ | ⟨all, rfl⟩ | rfl | rfl | hkey | ⟨hstar, hchannel⟩ | ⟨hcmd, hplus, hminus⟩
  · exact ⟨fun _ => rfl, nodup_nil, by simp, hs.allChannels, hs.channelsNodup,
      hs.channels, rules, hrules.congr rfl rfl, hQ⟩
  · exact ⟨hs.allKeys, hs.patternsNodup, hs.patterns, fun _ => rfl, nodup_nil,
      by simp, rules, hrules.congr rfl rfl, hQ⟩
  · exact selectorOk_of_lists hs rfl ⟨[], rulesOk_all table s, by simp⟩
  · exact selectorOk_of_lists hs rfl ⟨[], rulesOk_none table s, by simp⟩
  · exact selectorOk_setKeyPattern hs hop hkey
  · exact selectorOk_setChannelPattern hs hop hstar hchannel
  rw [aclSetSelector_command table s hcmd hplus hminus] at h
  obtain ⟨r, hparse, rfl⟩ := map_ok h
  obtain ⟨hkept, htext⟩ := kept_of_parseRule hcmd hplus hminus hparse
  have htoken : ∀ c ∈ r.text, tokenByte c := by
    rw [htext]
    apply tokenByte_lower
    intro c hc
    exact hop.token hcmd c (mem_of_mem_drop hc)
  apply selectorOk_of_lists hs (lists_applyRule (valid_canon.mp hkept.valid) s)
  refine ⟨_, hrules.apply hkept htoken, ?_⟩
  intro r' hr'
  rcases mem_append.mp hr' with hr' | hr'
  · exact hQ r' (mem_of_mem_filter hr')
  rw [mem_singleton.mp hr']
  show Q r.text
  rw [htext]
  exact hop.rule

end

/-- No operation turns a selector into the root one or back. -/
lemma root_aclSetSelector (h : aclSetSelector table s op = .ok s') : s'.root = s.root := by
  rcases aclSetSelector_cases h with
    ⟨all, rfl⟩ | ⟨all, rfl⟩ | rfl | rfl | hkey | ⟨_, hchannel⟩ | ⟨hcmd, hplus, hminus⟩
  · rfl
  · rfl
  · rfl
  · rfl
  · obtain ⟨_, _, _, _, _, rfl⟩ := setKeyPattern_cases hkey
    rfl
  · unfold setChannelPattern at hchannel
    split at hchannel
    · cases hchannel
    split at hchannel <;> cases hchannel
    rfl
  · rw [aclSetSelector_command table s hcmd hplus hminus] at h
    obtain ⟨r, hparse, rfl⟩ := map_ok h
    obtain ⟨hkept, _⟩ := kept_of_parseRule hcmd hplus hminus hparse
    exact (eq_of_lists (lists_applyRule (valid_canon.mp hkept.valid) s)).1

/-! ## The description -/

/-- A key pattern with permissions, as it is printed. -/
def patternWord (p : KeyPattern) : Bytes :=
  if p.read && p.write then 126 :: p.pattern
  else if p.read then ofString "%R~" ++ p.pattern
  else ofString "%W~" ++ p.pattern

/-- The key part of a description. -/
def keyWords (s : Selector) : List Bytes :=
  if s.allKeys then [ofString "~*"] else s.patterns.map patternWord

/-- The command part of a description. -/
def ruleWords (s : Selector) : List Bytes := startRule s :: sdssplitlen s.commandRules 32

/-- The words of a description. -/
def selectorWords (s : Selector) : List Bytes := keyWords s ++ describeChannels s ++ ruleWords s

lemma isWord_word (h : RulesOk table s rules) : ∀ w ∈ rules.map Rule.word, isWord w := by
  intro w hw
  obtain ⟨r, hr, rfl⟩ := mem_map.mp hw
  apply isWord_iff.mpr
  constructor
  · intro c hc
    rcases mem_cons.mp hc with rfl | hc
    · cases r.allow <;> rfl
    · exact h.token r hr c hc
  · refine ⟨_, _, rfl, ?_⟩
    cases r.allow <;> rfl

lemma ruleWords_eq
    (h : RulesOk table s rules) : ruleWords s = startRule s :: rules.map Rule.word := by
  have hsplit : sdssplitlen s.commandRules 32 = rules.map Rule.word := by
    unfold sdssplitlen
    rw [h.text]
    cases rules with
    | nil => rfl
    | cons r rules =>
      rw [rulesText_ne_empty]
      apply splitOn_intercalate
      · exact fun w hw => blank_notMem_of_isWord (isWord_word h w hw)
      · simp
  rw [ruleWords, hsplit]

lemma flatMap_intercalate (ws vs : List Bytes) (hvs : vs ≠ []) :
    ws.flatMap (· ++ [32]) ++ [(32 : UInt8)].intercalate vs =
    [(32 : UInt8)].intercalate (ws ++ vs) := by
  induction ws with
  | nil => rfl
  | cons w ws ih =>
    rw [flatMap_cons, append_assoc, ih, cons_append]
    cases hrest : ws ++ vs with
    | nil => exact absurd (append_eq_nil_iff.mp hrest).2 hvs
    | cons v rest => rw [intercalate_cons_cons]

/-- The start of a description sets the permissions to the base ones. -/
lemma aclSetSelector_start (table : CommandTable) (s : Selector) (future : Bool)
    (hop : cstr op = ofString (if future then "+@all" else "-@all")) :
    aclSetSelector table s op = .ok (if future then setAllCommands s else setNoCommands s) := by
  have hopIs : ∀ word, opIs op word =
      opIs (ofString (if future then "+@all" else "-@all")) word := by
    intro word
    unfold opIs strcaseEq
    rw [hop]
    cases future <;> rfl
  unfold aclSetSelector
  rw [hopIs "allkeys", hopIs "~*", hopIs "resetkeys", hopIs "allchannels", hopIs "&*",
    hopIs "resetchannels", hopIs "allcommands", hopIs "+@all", hopIs "nocommands",
    hopIs "-@all"]
  cases future with
  | true => rfl
  | false => rfl

lemma view_start (s : Selector) (future : Bool) :
    view (if future then setAllCommands s else setNoCommands s) = basePermissions future := by
  cases future with
  | true => exact view_setAllCommands s
  | false => exact view_setNoCommands s

/-- The command part of a description, replayed over any selector.  `tail` is
what follows the words in memory. -/
lemma foldlM_ruleWords (h : RulesOk table s rules) (tail : Bytes → Bytes)
    (htail : ∀ w, cstr (tail w) = cstr w) (f : Selector) :
    ∃ f', (ruleWords s).foldlM (fun s op => aclSetSelector table s (tail op)) f =
        .ok f' ∧ view f' = view s ∧ lists f' = lists f := by
  have hstart : cstr (tail (startRule s)) = ofString
      (if aclSelectorCanExecuteFutureCommands s then "+@all" else "-@all") := by
    rw [htail]
    unfold startRule
    cases aclSelectorCanExecuteFutureCommands s <;> rfl
  have hview := view_start f (aclSelectorCanExecuteFutureCommands s)
  have hwords : ∀ r ∈ rules, cstr (tail r.word) = r.word := by
    intro r hr
    rw [htail]
    apply cstr_eq_self
    intro hzero
    have hword := isWord_word h r.word (mem_map_of_mem hr)
    exact (tokenByte_cases (tokenByte_of_isWord hword 0 hzero)).2.2.2 rfl
  obtain ⟨f', hrun, hview', hlists⟩ := foldlM_words h.kept tail hwords
    (if aclSelectorCanExecuteFutureCommands s then setAllCommands f else setNoCommands f)
    (by rw [hview]; exact plainArgs_base table _)
  refine ⟨f', ?_, ?_, ?_⟩
  · rw [ruleWords_eq h, foldlM_cons, aclSetSelector_start table f _ hstart]
    exact hrun
  · rw [hview', hview, h.perms]
  · rw [hlists]
    cases aclSelectorCanExecuteFutureCommands s <;> rfl

lemma allowedCommands_eq_of_view (h : view s' = view s) :
    s'.allowedCommands = s.allowedCommands := by
  apply BitVec.eq_of_getLsbD_eq
  intro id _
  exact congrFun h (.bit id)

/-- `ACLDescribeSelectorCommandRules` finds the bitmap it expects. -/
lemma aclDescribeSelectorCommandRules_eq (env : AclEnv) (h : RulesOk env.table s rules) :
    aclDescribeSelectorCommandRules env s = some ([(32 : UInt8)].intercalate (ruleWords s)) := by
  obtain ⟨f', hrun, hview, _⟩ := foldlM_ruleWords h (· ++ [0]) cstr_terminated
    (aclCreateSelector env.pubsubDefault false)
  have hsplit : sdssplitargs s.commandRules = some (rules.map Rule.word) := by
    rw [h.text]
    exact sdssplitargs_words (isWord_word h)
  have hfold : (startRule s :: rules.map Rule.word).foldlM (setTerminated env)
    (aclCreateSelector env.pubsubDefault false) = .ok f' := by
    rw [← ruleWords_eq h]
    exact hrun
  rw [ruleWords_eq h]
  unfold aclDescribeSelectorCommandRules
  simp only [hsplit, hfold, some_bind, Except.toOption, allowedCommands_eq_of_view hview, if_true,
    some.injEq]
  rw [h.text]
  -- the blank behind the last rule is cut off again
  unfold rulesText
  cases rules with
  | nil =>
    rw [map_nil, intercalate_singleton]
    exact dropLast_concat
  | cons r rules =>
    have hne : ([(32 : UInt8)].intercalate ((r :: rules).map Rule.word)).isEmpty = false :=
      rulesText_ne_empty r rules
    rw [hne, if_neg Bool.false_ne_true, dropLast_concat, map_cons, intercalate_cons_cons]

lemma mapM_catPatternString (h : ∀ p ∈ pats, (p.read || p.write)) :
    pats.mapM catPatternString = some (pats.map patternWord) := by
  induction pats with
  | nil => rfl
  | cons p pats ih =>
    have hp : catPatternString p = some (patternWord p) := by
      unfold catPatternString patternWord
      cases hr : p.read <;> cases hw : p.write <;> simp_all
    rw [mapM_cons, hp, ih (fun p' hp' => h p' (by simp [hp']))]
    rfl

lemma aclDescribeSelector_eq (env : AclEnv) (hs : SelectorOk env.table Q s) :
    aclDescribeSelector env s = some ([(32 : UInt8)].intercalate (selectorWords s)) := by
  obtain ⟨rules, h, _⟩ := hs.rules
  have hkeys : describeKeys s = some (keyWords s) := by
    unfold describeKeys keyWords
    cases s.allKeys with
    | true => rfl
    | false => exact mapM_catPatternString (fun p hp => (hs.patterns p hp).1)
  unfold aclDescribeSelector
  simp only [hkeys, aclDescribeSelectorCommandRules_eq env h, some_bind, some.injEq]
  exact flatMap_intercalate _ _ (cons_ne_nil _ _)

/-! ## Replaying a description -/

/-- The pattern of a printed key pattern is read back. -/
lemma keyPatternOf_patternWord (h : (p.read || p.write)) :
    keyPatternOf (patternWord p) = some (p.read, p.write, p.pattern) := by
  unfold patternWord
  cases hr : p.read with
  | true =>
    cases hw : p.write with
    | true => rfl
    | false => rfl
  | false =>
    cases hw : p.write with
    | true => rfl
    | false => simp [hr, hw] at h

lemma zero_notMem_of_hasSpaces {w : Bytes} (h : aclStringHasSpaces w = false) :
    (0 : UInt8) ∉ w := by
  intro hzero
  have hno := any_eq_false.mp h 0 hzero
  exact hno (by decide)

lemma eq_star_of_lower {w : Bytes} (h : lower w = ofString "*") : w = ofString "*" := by
  cases w with
  | nil => cases h
  | cons c w =>
    cases w with
    | nil =>
      have hc : tolower c = 42 := (cons.inj h).1
      rw [(tolower_eq_iff (.inl (by decide))).mp hc]
      rfl
    | cons c' w => cases (cons.inj h).2

/-- Only the pattern `*` with both permissions is printed as `~*`. -/
lemma pattern_of_opIs (hflags : (p.read || p.write))
    (hspaces : aclStringHasSpaces p.pattern = false) (h : opIs (patternWord p) "~*") :
    p.read ∧ p.write ∧ p.pattern = ofString "*" := by
  have hfirst := opAt_of_opIs h
  unfold patternWord at h hfirst
  cases hr : p.read with
  | false =>
    cases hw : p.write with
    | false => simp [hr, hw] at hflags
    | true =>
      rw [hr] at hfirst
      exact absurd hfirst (by simp [opAt, ofString]; decide)
  | true =>
    cases hw : p.write with
    | false =>
      rw [hr, hw] at hfirst
      exact absurd hfirst (by simp [opAt, ofString]; decide)
    | true =>
      rw [hr, hw] at h
      have heq : lower (cstr (126 :: p.pattern)) = ofString "~*" := (strcaseEq_iff _ _).mp h
      rw [cstr_cons (by decide), cstr_eq_self (zero_notMem_of_hasSpaces hspaces)] at heq
      exact ⟨rfl, rfl, eq_star_of_lower (cons.inj heq).2⟩

section

variable (table : CommandTable)

lemma aclSetSelector_pattern (hall : f.allKeys = false) (hflags : (p.read || p.write))
    (hspaces : aclStringHasSpaces p.pattern = false)
    (hstar : ¬ (p.read ∧ p.write ∧ p.pattern = ofString "*")) :
    aclSetSelector table f (patternWord p) =
      .ok { f with patterns := addPattern p f.patterns, allKeys := false } := by
  have hsign : opAt (patternWord p) 0 = 126 ∨ opAt (patternWord p) 0 = 37 := by
    unfold patternWord
    cases p.read <;> cases p.write <;> simp [opAt, ofString]
  have hword : ∀ word : String, tolower (opAt (ofString word) 0) ≠ 126 →
      tolower (opAt (ofString word) 0) ≠ 37 → opIs (patternWord p) word = false := by
    intro word h126 h37
    apply opIs_eq_false
    rcases hsign with hsign | hsign
    · rw [hsign]
      exact Ne.symm h126
    · rw [hsign]
      exact Ne.symm h37
  have hallkeys : opIs (patternWord p) "~*" = false := by
    rw [Bool.eq_false_iff]
    exact fun hop => hstar (pattern_of_opIs hflags hspaces hop)
  unfold aclSetSelector
  rw [hword "allkeys" (by decide) (by decide), hallkeys,
    hword "resetkeys" (by decide) (by decide), hword "allchannels" (by decide) (by decide),
    hword "&*" (by decide) (by decide), hword "resetchannels" (by decide) (by decide),
    hword "allcommands" (by decide) (by decide), hword "+@all" (by decide) (by decide),
    hword "nocommands" (by decide) (by decide), hword "-@all" (by decide) (by decide)]
  have hbranch : (decide (opAt (patternWord p) 0 = 126) ||
      decide (opAt (patternWord p) 0 = 37)) := by
    simpa using hsign
  simp only [hbranch]
  unfold setKeyPattern
  have hnone : (!p.read && !p.write) = false := by
    cases hr : p.read <;> cases hw : p.write <;> simp_all
  simp [hall, keyPatternOf_patternWord hflags, hnone, hspaces]

/-- Printed items that are each added behind the others rebuild their list. -/
lemma foldlM_items {α : Type} {items : List α} {w k : α → Bytes} {g : List α → Selector}
    (hstep : ∀ x ∈ items, ∀ ys, k x ∉ ys.map k →
      aclSetSelector table (g ys) (w x) = .ok (g (ys ++ [x]))) :
    ∀ ys, ((ys ++ items).map k).Nodup →
      (items.map w).foldlM (aclSetSelector table) (g ys) = .ok (g (ys ++ items)) := by
  induction items with
  | nil =>
    intro ys _
    rw [append_nil]
    rfl
  | cons x items ih =>
    intro ys hnodup
    have hnew : k x ∉ ys.map k := by
      rw [map_append] at hnodup
      intro hmem
      exact (disjoint_of_nodup_append hnodup) hmem (by simp)
    rw [map_cons, foldlM_cons, hstep x (by simp) ys hnew]
    have hrest := ih (fun y hy => hstep y (by simp [hy])) (ys ++ [x]) (by simpa using hnodup)
    rwa [append_assoc] at hrest

lemma aclSetSelector_channel {c : Bytes} (hall : f.allChannels = false)
    (hspaces : aclStringHasSpaces c = false) (hstar : c ≠ ofString "*") :
    aclSetSelector table f (38 :: c) =
      .ok { f with
        channels := if f.channels.contains c then f.channels else f.channels ++ [c]
        allChannels := false } := by
  have hallchannels : opIs (38 :: c) "&*" = false := by
    rw [Bool.eq_false_iff]
    intro hop
    have heq : lower (cstr (38 :: c)) = ofString "&*" := (strcaseEq_iff _ _).mp hop
    rw [cstr_cons (by decide), cstr_eq_self (zero_notMem_of_hasSpaces hspaces)] at heq
    exact hstar (eq_star_of_lower (cons.inj heq).2)
  unfold aclSetSelector
  rw [hallchannels]
  show setChannelPattern f (38 :: c) = _
  unfold setChannelPattern
  rw [hall, if_neg Bool.false_ne_true, drop_one, tail_cons, hspaces, if_neg Bool.false_ne_true]

end

/-- A pattern that is printed like the `allkeys` rule. -/
def allKeysPattern : KeyPattern := ⟨true, true, ofString "*"⟩

lemma foldlM_keyWords (hs : SelectorOk table Q s) (hstar : allKeysPattern ∉ s.patterns)
    (hall : f.allKeys = false) (hnone : f.patterns = []) :
    (keyWords s).foldlM (aclSetSelector table) f =
    .ok { f with allKeys := s.allKeys, patterns := s.patterns } := by
  unfold keyWords
  cases hkeys : s.allKeys with
  | true =>
    rw [if_pos rfl, foldlM_cons, hs.allKeys hkeys]
    rfl
  | false =>
    have hrun := foldlM_items table (g := fun ps => { f with patterns := ps, allKeys := false })
      (fun p hp ps hnew => by
        have hplain : ¬ (p.read ∧ p.write ∧ p.pattern = ofString "*") := by
          rintro ⟨hr, hw, hp'⟩
          apply hstar
          have heq : p = allKeysPattern := by
            cases p
            simp_all [allKeysPattern]
          exact heq ▸ hp
        rw [aclSetSelector_pattern table rfl (hs.patterns p hp).1 (hs.patterns p hp).2.1 hplain,
          addPattern_of_new hnew]) [] hs.patternsNodup
    have hf : { f with patterns := [], allKeys := false } = f := by rw [← hnone, ← hall]
    rw [hf] at hrun
    exact hrun

lemma foldlM_describeChannels (hs : SelectorOk table Q s) (f : Selector) :
    (describeChannels s).foldlM (aclSetSelector table) f =
    .ok { f with allChannels := s.allChannels, channels := s.channels } := by
  unfold describeChannels
  cases hall : s.allChannels with
  | true =>
    rw [if_pos rfl, foldlM_cons, hs.allChannels hall]
    rfl
  | false =>
    have hrun := foldlM_items table (k := id)
      (g := fun cs => { f with channels := cs, allChannels := false })
      (fun c hc cs hnew => by
        rw [aclSetSelector_channel table rfl (hs.channels c hc).1 (hs.channels c hc).2.1]
        simp_all) [] (by simpa using hs.channelsNodup)
    exact hrun

/-- The same permissions.  First arguments are compared as the check compares
them, that is, up to case and order. -/
structure SameSelector (s s' : Selector) : Prop where
  commands : s'.allowedCommands = s.allowedCommands
  firstArgs : ∀ id arg, allowsFirstArg s' id arg = allowsFirstArg s id arg
  allKeys : s'.allKeys = s.allKeys
  patterns : s'.patterns = s.patterns
  allChannels : s'.allChannels = s.allChannels
  channels : s'.channels = s.channels

/-- **A described selector is recreated.** -/
lemma foldlM_selectorWords (hs : SelectorOk table Q s) (hstar : allKeysPattern ∉ s.patterns)
    (hall : f.allKeys = false) (hnone : f.patterns = []) :
    ∃ f', (selectorWords s).foldlM (aclSetSelector table) f = .ok f' ∧
      SameSelector s f' ∧ f'.root = f.root := by
  obtain ⟨rules, hrules, _⟩ := hs.rules
  obtain ⟨f', hrun, hview, hlists⟩ := foldlM_ruleWords hrules id (fun _ => rfl)
    { f with allKeys := s.allKeys, patterns := s.patterns
             allChannels := s.allChannels, channels := s.channels }
  obtain ⟨hroot, hkeys, hpatterns, hch, hchannels⟩ := eq_of_lists hlists
  refine ⟨f', ?_, ?_, hroot⟩
  · unfold selectorWords
    rw [foldlM_append, foldlM_append, foldlM_keyWords hs hstar hall hnone]
    show ((describeChannels s).foldlM (aclSetSelector table)
      { f with allKeys := s.allKeys, patterns := s.patterns }).bind _ = _
    rw [foldlM_describeChannels hs]
    exact hrun
  · exact ⟨allowedCommands_eq_of_view hview, fun id arg => congrFun hview (.arg id arg),
      hkeys, hpatterns, hch, hchannels⟩

end Dice.Ports.AclSelectorText
