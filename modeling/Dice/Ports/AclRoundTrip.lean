import Dice.Ports.AclSelectorText

/-!
# Describing a user and loading the description

Passwords, flags and selectors of a user are printed as one line.  Loading
splits the line at blanks, puts brackets together again and applies the
operations to a new user, which gives back the user if its operations can be
described.

Three kinds of accepted operations cannot.  A command rule with a first argument
may contain blanks and quotes, and its text is split at blanks again.  A selector
in brackets may contain quotes, which are lost, and words that end in a closing
bracket, which end it too early.  The pattern `*` that was given with
permissions is printed as `~*`, which means `allkeys`.
-/

namespace Dice.Ports.AclRoundTrip

open List Verified CString Run Sds AclSelector AclUser AclRules AclPermissions AclRuleText
open AclDescribe AclSelectorText

/-- The operations inside a bracket. -/
def bracketOps (op : Bytes) : List Bytes := (sdssplitargs ((op.drop 1).dropLast)).getD []

/-- Command rules contain neither blanks nor quotes; brackets contain no
quotes and no operation that ends in a closing bracket. -/
def Describable (op : Bytes) : Prop :=
  (isCommandOp op = true → ∀ c ∈ cstr op, tokenByte c = true) ∧
    (opAt op 0 = 40 → (34 : UInt8) ∉ op ∧ (39 : UInt8) ∉ op ∧
      ∀ w ∈ bracketOps op, w.getLast? ≠ some 41)

instance (op : Bytes) : Decidable (Describable op) :=
  @instDecidableAnd _ _ (@instDecidableForall _ _ _ (decidableBAll _ (cstr op))) _

/-- What may stand between brackets. -/
def Inner (w : Bytes) : Prop := (34 : UInt8) ∉ w ∧ (39 : UInt8) ∉ w ∧ w.getLast? ≠ some 41

variable {op w : Bytes} {table : CommandTable} {ops ws : List Bytes} {env : AclEnv} {u u' : User}
  {s : Selector} {Q : Bytes → Prop}

lemma tokenByte_of_bracketOps (h34 : (34 : UInt8) ∉ op)
    (h39 : (39 : UInt8) ∉ op) : ∀ w ∈ bracketOps op, ∀ c ∈ w, tokenByte c := by
  intro w hw
  have hsub : ∀ c ∈ cstr ((op.drop 1).dropLast), c ∈ op := by
    intro c hc
    have hc := (takeWhile_sublist _).subset hc
    exact mem_of_mem_drop ((dropLast_sublist _).subset hc)
  unfold bracketOps at hw
  cases hsplit : sdssplitargs ((op.drop 1).dropLast) with
  | none => cases hsplit ▸ hw
  | some ws =>
    rw [hsplit] at hw
    exact splitargsLoop_bytes (fun hm => h34 (hsub 34 hm)) (fun hm => h39 (hsub 39 hm))
      (zero_notMem_cstr _) hsplit w hw

lemma getLast?_lower (w : Bytes) : (lower w).getLast? = w.getLast?.map tolower := getLast?_map

lemma opOk_inner (htoken : ∀ c ∈ w, tokenByte c) (hlast : w.getLast? ≠ some 41) : OpOk Inner w := by
  have hzero : (0 : UInt8) ∉ w := fun hm => (tokenByte_cases (htoken 0 hm)).2.2.2 rfl
  have h34 : (34 : UInt8) ∉ w := fun hm => (tokenByte_cases (htoken 34 hm)).2.1 rfl
  have h39 : (39 : UInt8) ∉ w := fun hm => (tokenByte_cases (htoken 39 hm)).2.2.1 rfl
  have hsuffix : ∀ v, v <:+ w → Inner v := by
    intro v hv
    refine ⟨fun hm => h34 (hv.subset hm), fun hm => h39 (hv.subset hm), ?_⟩
    intro h41
    apply hlast
    obtain ⟨front, rfl⟩ := hv
    rw [getLast?_append, h41]
    rfl
  refine ⟨fun _ c hc => htoken c (by rwa [cstr_eq_self hzero] at hc), hsuffix, ?_⟩
  rw [cstr_eq_self hzero]
  obtain ⟨hd34, hd39, hdlast⟩ := hsuffix (w.drop 1) (drop_suffix 1 w)
  refine ⟨?_, ?_, ?_⟩
  · rwa [mem_lower_iff (.inl (by decide))]
  · rwa [mem_lower_iff (.inl (by decide))]
  rw [getLast?_lower]
  intro h41
  obtain ⟨c, hc, hlow⟩ := Option.map_eq_some_iff.mp h41
  rw [(tolower_eq_iff (.inl (by decide))).mp hlow] at hc
  exact hdlast hc

lemma opOk_root (h : Describable op) : OpOk (fun _ => True) op := ⟨h.1, fun _ _ => trivial, trivial⟩

/-- What holds of every user made by operations that can be described. -/
structure UserOk (env : AclEnv) (u : User) : Prop where
  enabled : u.flags.disabled = !u.flags.enabled
  sanitize : u.flags.sanitizePayload = !u.flags.sanitizePayloadSkip
  nopass : u.flags.nopass = true → u.passwords = []
  nodup : u.passwords.Nodup
  hashes : ∀ p ∈ u.passwords, aclCheckPasswordHash p = true
  root : u.root.root = true ∧ SelectorOk env.table (fun _ => True) u.root
  selectors : ∀ s ∈ u.selectors, s.root = false ∧ SelectorOk env.table Inner s
  cache : u.aclString = none

lemma userOk_new (env : AclEnv) : UserOk env (aclCreateUser env) where
  enabled := rfl
  sanitize := rfl
  nopass := fun _ => rfl
  nodup := nodup_nil
  hashes := by simp [aclCreateUser]
  root := ⟨rfl, selectorOk_new _ _ _ _⟩
  selectors := by simp [aclCreateUser]
  cache := rfl

/-- The operations on a bracket build a selector as they do at the root. -/
lemma selectorOk_bracket (hops : ∀ w ∈ ops, OpOk Inner w) {s' : Selector}
    (hs : s.root = false ∧ SelectorOk table Inner s)
    (h : ops.foldlM (aclSetSelector table) s = .ok s') :
    s'.root = false ∧ SelectorOk table Inner s' :=
  foldlM_invariant (I := fun s => s.root = false ∧ SelectorOk table Inner s)
    (fun _ op _ hop hs hset => ⟨(root_aclSetSelector hset).trans hs.1,
      selectorOk_aclSetSelector hs.2 (hops op hop) hset⟩) hs h

lemma passwordOf_ok {pass : Bytes} {sign : UInt8}
    (h : passwordOf env op sign = .ok pass) : aclCheckPasswordHash pass := by
  unfold passwordOf at h
  split at h
  · cases h
    exact env.hashPassword_ok _
  split at h
  next hok =>
    cases h
    exact hok
  next => cases h

section

variable (hu : UserOk env u)

include hu

lemma userOk_addPassword (h : addPassword env u op = .ok u') : UserOk env u' := by
  obtain ⟨pass, hpass, rfl⟩ := map_ok h
  have hmem : ∀ p, p ∈ (if u.passwords.contains pass then u.passwords
    else u.passwords ++ [pass]) → p ∈ u.passwords ∨ p = pass := by
    intro p hp
    split at hp
    · exact .inl hp
    · simpa using hp
  refine { hu with nopass := by simp, nodup := ?_, hashes := fun p hp => ?_ }
  · split
    next => exact hu.nodup
    next hnot => exact hu.nodup.append (nodup_singleton _) (by simpa using hnot)
  · rcases hmem p hp with hp | rfl
    · exact hu.hashes p hp
    · exact passwordOf_ok hpass

lemma userOk_removePassword (h : removePassword env u op = .ok u') : UserOk env u' := by
  obtain ⟨pass, _, h⟩ := bind_ok h
  split at h <;> cases h
  refine { hu with nopass := fun hno => ?_, nodup := hu.nodup.erase _, hashes := fun p hp => ?_ }
  · rw [hu.nopass hno]
    rfl
  · exact hu.hashes p (mem_of_mem_erase hp)
omit hu in
lemma selectorOk_of_opSet (hop : Describable op) (hopen : opAt op 0 = 40)
    (h : aclCreateSelectorFromOpSet env op = .ok s) :
    s.root = false ∧ SelectorOk env.table Inner s := by
  obtain ⟨h34, h39, hlast⟩ := hop.2 hopen
  refine selectorOk_bracket (fun w hw => ?_) ⟨rfl, selectorOk_new _ _ _ _⟩ h
  exact opOk_inner (tokenByte_of_bracketOps h34 h39 w hw) (hlast w hw)

lemma userOk_uncached : UserOk env { u with aclString := none } := { hu with cache := rfl }

lemma userOk_reset : UserOk env (resetUser env u) := by
  refine ⟨rfl, rfl, fun _ => rfl, nodup_nil, by simp [resetUser, resetPass],
    ⟨hu.root.1, ?_⟩, by simp [resetUser], hu.cache⟩
  exact ⟨fun _ => rfl, nodup_nil, by simp [resetUser, setNoCommands],
    fun _ => rfl, nodup_nil, by simp [resetUser, setNoCommands],
    [], rulesOk_none _ _, by simp⟩

lemma userOk_aclSetUser (hop : Describable op) (h : aclSetUser env u op = .ok u') :
    UserOk env u' := by
  have hv := userOk_uncached hu
  revert h
  fun_cases aclSetUser env u op with
  | case1 => exact fun h => Except.ok.inj h ▸ hv
  | case2 | case3 =>
    rintro ⟨⟩
    exact { hv with enabled := rfl }
  | case4 | case5 =>
    rintro ⟨⟩
    exact { hv with sanitize := rfl }
  | case6 | case7 =>
    rintro ⟨⟩
    exact { hv with nopass := fun _ => rfl, nodup := nodup_nil, hashes := by simp [resetPass] }
  | case8 => exact userOk_addPassword hv
  | case9 => exact userOk_removePassword hv
  | case10 v _ _ _ _ _ _ _ _ _ hbracket =>
    intro h
    obtain ⟨s, hs, rfl⟩ := map_ok h
    have hopen : opAt op 0 = 40 := by
      simp only [Bool.and_eq_true, decide_eq_true_eq] at hbracket
      exact hbracket.1
    refine { hv with selectors := fun s' hs' => ?_ }
    rcases mem_append.mp hs' with hs' | hs'
    · exact hv.selectors s' hs'
    · rw [mem_singleton.mp hs']
      exact selectorOk_of_opSet hop hopen hs
  | case11 =>
    rintro ⟨⟩
    exact { hv with selectors := by simp }
  | case12 =>
    rintro ⟨⟩
    exact userOk_reset hv
  | case13 =>
    intro h
    obtain ⟨s, hs, rfl⟩ := map_ok h
    exact { hv with root := ⟨(root_aclSetSelector hs).trans hv.root.1,
      selectorOk_aclSetSelector hv.root.2 (opOk_root hop) hs⟩ }

end

lemma tokenByte_of_noSpaces (hspaces : aclStringHasSpaces w = false)
    (h34 : (34 : UInt8) ∉ w) (h39 : (39 : UInt8) ∉ w) : ∀ c ∈ w, tokenByte c := by
  intro c hc
  have hno := any_eq_false.mp hspaces c hc
  simp only [Bool.or_eq_true, beq_iff_eq, not_or] at hno
  have hc34 : c ≠ 34 := fun heq => h34 (heq ▸ hc)
  have hc39 : c ≠ 39 := fun heq => h39 (heq ▸ hc)
  apply tokenByte_of_plainByte
  simp [plainByte, hno.1, hno.2, hc34, hc39]

/-- The signs in front of stored patterns. -/
def patternSigns : List Bytes := [[126], ofString "%R~", ofString "%W~", [38]]

/-- The fixed words of descriptions. -/
def fixedWords : List Bytes :=
  [ofString "~*", ofString "&*", ofString "resetchannels", ofString "+@all", ofString "-@all"]

/-- Every word of a description is a fixed one, a pattern with its sign, or a
command rule. -/
lemma forall_selectorWords {P : Bytes → Prop}
    (hs : SelectorOk table Q s) (hfixed : ∀ w ∈ fixedWords, P w)
    (hsigned : ∀ sign ∈ patternSigns, ∀ w, aclStringHasSpaces w = false → Q w →
    P (sign ++ w)) (hrule : ∀ r : Rule, isWord r.word → Q r.text → P r.word) :
    ∀ w ∈ selectorWords s, P w := by
  intro w hw
  rcases mem_append.mp hw with hw | hw
  · rcases mem_append.mp hw with hw | hw
    · unfold keyWords at hw
      split at hw
      · rw [mem_singleton.mp hw]
        exact hfixed _ (by simp [fixedWords])
      obtain ⟨p, hp, rfl⟩ := mem_map.mp hw
      obtain ⟨_, hspaces, hQ⟩ := hs.patterns p hp
      unfold patternWord
      split
      · exact hsigned [126] (by simp [patternSigns]) _ hspaces hQ
      · split
        · exact hsigned _ (by simp [patternSigns]) _ hspaces hQ
        · exact hsigned _ (by simp [patternSigns]) _ hspaces hQ
    unfold describeChannels at hw
    split at hw
    · rw [mem_singleton.mp hw]
      exact hfixed _ (by simp [fixedWords])
    rcases mem_cons.mp hw with rfl | hw
    · exact hfixed _ (by simp [fixedWords])
    · obtain ⟨c, hc, rfl⟩ := mem_map.mp hw
      obtain ⟨hspaces, _, hQ⟩ := hs.channels c hc
      exact hsigned [38] (by simp [patternSigns]) _ hspaces hQ
  · obtain ⟨rules, hrules, hQ⟩ := hs.rules
    rw [ruleWords_eq hrules] at hw
    rcases mem_cons.mp hw with rfl | hw
    · unfold startRule
      cases aclSelectorCanExecuteFutureCommands s <;> exact hfixed _ (by simp [fixedWords])
    · obtain ⟨r, hr, rfl⟩ := mem_map.mp hw
      exact hrule r (isWord_word hrules _ hw) (hQ r hr)

/-- A word that can stand between brackets. -/
def BracketWord (w : Bytes) : Prop := isWord w = true ∧ w.getLast? ≠ some 41

/-- A word that survives the cut at blanks and the copy of a C string, and
does not open a bracket. -/
def PlainWord (w : Bytes) : Prop := (32 : UInt8) ∉ w ∧ (0 : UInt8) ∉ w ∧ opAt w 0 ≠ 40

instance (w : Bytes) : Decidable (BracketWord w) := by
  unfold BracketWord
  infer_instance

instance (w : Bytes) : Decidable (PlainWord w) := by
  unfold PlainWord
  infer_instance

lemma bracketWord_selectorWords
    (hs : SelectorOk table Inner s) : ∀ w ∈ selectorWords s, BracketWord w := by
  apply forall_selectorWords (P := BracketWord) hs
  · decide
  · intro sign hsign w hspaces hinner
    obtain ⟨h34, h39, hlast⟩ := hinner
    have hsign : BracketWord sign := by
      revert sign
      decide
    constructor
    · obtain ⟨htoken, c, rest, rfl, hspace⟩ := isWord_iff.mp hsign.1
      apply isWord_iff.mpr
      refine ⟨?_, c, rest ++ w, rfl, hspace⟩
      intro c' hc'
      rcases mem_append.mp hc' with hc' | hc'
      · exact htoken c' hc'
      · exact tokenByte_of_noSpaces hspaces h34 h39 c' hc'
    rw [getLast?_append]
    cases hw : w.getLast? with
    | none => simpa using hsign.2
    | some c =>
      rw [hw] at hlast
      simpa using hlast
  · intro r hword hinner
    obtain ⟨_, _, hlast⟩ := hinner
    refine ⟨hword, ?_⟩
    unfold Rule.word
    cases htext : r.text with
    | nil => cases r.allow <;> decide
    | cons c text =>
      rw [htext] at hlast
      rw [getLast?_cons_cons]
      exact hlast

lemma plainWord_selectorWords (hs : SelectorOk table Q s) : ∀ w ∈ selectorWords s, PlainWord w := by
  apply forall_selectorWords (P := PlainWord) hs
  · decide
  · intro sign hsign w hspaces _
    have hsign : PlainWord sign ∧ sign ≠ [] := by
      revert sign
      decide
    obtain ⟨⟨hblank, hzero, hopen⟩, hne⟩ := hsign
    refine ⟨?_, ?_, ?_⟩
    · intro hm
      rcases mem_append.mp hm with hm | hm
      · exact hblank hm
      · exact (any_eq_false.mp hspaces 32 hm) (by decide)
    · intro hm
      rcases mem_append.mp hm with hm | hm
      · exact hzero hm
      · exact zero_notMem_of_hasSpaces hspaces hm
    · cases sign with
      | nil => exact absurd rfl hne
      | cons c rest => exact hopen
  · intro r hword _
    refine ⟨blank_notMem_of_isWord hword, ?_, ?_⟩
    · exact fun hm => (tokenByte_cases (tokenByte_of_isWord hword 0 hm)).2.2.2 rfl
    · unfold Rule.word
      cases r.allow <;> simp [opAt]

/-! ## Splitting and merging -/

/-- The closing bracket belongs to the last word. -/
def closeLast : List Bytes → List Bytes
  | [] => []
  | [w] => [w ++ [41]]
  | w :: v :: ws => w :: closeLast (v :: ws)

lemma closeLast_ne_nil (w : Bytes) (ws : List Bytes) : closeLast (w :: ws) ≠ [] := by
  cases ws <;> simp [closeLast]

lemma intercalate_closeLast (w : Bytes) (ws : List Bytes) :
    [(32 : UInt8)].intercalate (closeLast (w :: ws)) =
    [(32 : UInt8)].intercalate (w :: ws) ++ [41] := by
  induction ws generalizing w with
  | nil => simp [closeLast]
  | cons v ws ih =>
    cases hclose : closeLast (v :: ws) with
    | nil => exact absurd hclose (closeLast_ne_nil v ws)
    | cons v' ws' =>
      have hrest := ih v
      rw [hclose] at hrest
      rw [closeLast, hclose, intercalate_cons_cons, hrest,
        intercalate_cons_cons, append_assoc, append_assoc,
        append_assoc]

lemma mem_closeLast (h : w ∈ closeLast ws) : w ∈ ws ∨ ∃ v ∈ ws, w = v ++ [41] := by
  induction ws with
  | nil => exact absurd h (by simp [closeLast])
  | cons v ws ih =>
    cases ws with
    | nil => exact .inr ⟨v, by simp, by simpa [closeLast] using h⟩
    | cons v' ws =>
      rcases mem_cons.mp h with rfl | h
      · exact .inl (by simp)
      · rcases ih h with h | ⟨v'', hv'', rfl⟩
        · exact .inl (mem_cons_of_mem _ h)
        · exact .inr ⟨v'', mem_cons_of_mem _ hv'', rfl⟩

lemma intercalate_openFirst (w : Bytes) (ws : List Bytes) :
    [(32 : UInt8)].intercalate ((40 :: w) :: ws) = 40 :: [(32 : UInt8)].intercalate (w :: ws) := by
  cases ws with
  | nil => simp
  | cons v ws => rw [intercalate_cons_cons, intercalate_cons_cons]; rfl

lemma splitOn_bracket (hblank : ∀ v ∈ w :: ws, (32 : UInt8) ∉ v) :
    (40 :: [(32 : UInt8)].intercalate (w :: ws) ++ [41]).splitOn 32 =
    closeLast ((40 :: w) :: ws) := by
  have hopen : ∀ v ∈ (40 :: w) :: ws, (32 : UInt8) ∉ v := by
    intro v hv
    rcases mem_cons.mp hv with rfl | hv
    · have hw := hblank w (by simp)
      simp [hw]
    · exact hblank v (by simp [hv])
  rw [← intercalate_openFirst, ← intercalate_closeLast]
  apply splitOn_intercalate _ _ (closeLast_ne_nil _ _)
  intro v hv
  rcases mem_closeLast hv with hv | ⟨v', hv', rfl⟩
  · exact hopen v hv
  · have hv' := hopen v' hv'
    simp [hv']

lemma foldl_mergeStep_plain (h : ∀ w ∈ ws, opAt w 0 ≠ 40)
    (merged : List Bytes) : ws.foldl mergeStep (merged, none) = (merged ++ ws, none) := by
  induction ws generalizing merged with
  | nil => simp
  | cons w ws ih =>
    have hstep : mergeStep (merged, none) w = (merged ++ [w], none) := by
      simp [mergeStep, h w (by simp)]
    rw [foldl_cons, hstep, ih (fun w' hw' => h w' (by simp [hw']))]
    simp

/-- Inside a bracket everything up to the closing word is collected. -/
lemma foldl_mergeStep_close
    (h : ∀ v ∈ w :: ws, v.getLast? ≠ some 41 ∧ (0 : UInt8) ∉ v) (merged : List Bytes)
    (start selector : Bytes) :
    (closeLast (w :: ws)).foldl mergeStep (merged, some (start, selector)) =
    (merged ++ [selector ++ 32 :: ([(32 : UInt8)].intercalate (w :: ws) ++ [41])], none) := by
  induction ws generalizing w selector with
  | nil =>
    have hzero : (0 : UInt8) ∉ w ++ [41] := by
      have := (h w (by simp)).2
      simp [this]
    simp [closeLast, mergeStep, cstr_eq_self hzero]
  | cons v ws ih =>
    obtain ⟨hlast, hzero⟩ := h w (by simp)
    have hstep : mergeStep (merged, some (start, selector)) w =
      (merged, some (start, selector ++ 32 :: w)) := by
      simp [mergeStep, hlast, cstr_eq_self hzero]
    rw [closeLast, foldl_cons, hstep, ih (fun v' hv' => h v' (mem_cons_of_mem _ hv'))]
    simp

lemma foldl_mergeStep_bracket {v : Bytes}
    (h : ∀ x ∈ w :: v :: ws, x.getLast? ≠ some 41 ∧ (0 : UInt8) ∉ x) (merged : List Bytes) :
    (closeLast ((40 :: w) :: v :: ws)).foldl mergeStep (merged, none) =
    (merged ++ [40 :: [(32 : UInt8)].intercalate (w :: v :: ws) ++ [41]], none) := by
  have hopen : mergeStep (merged, none) (40 :: w) = (merged, some (40 :: w, 40 :: w)) := by
    have hlast : (40 :: w).getLast? ≠ some 41 := by
      cases w with
      | nil => decide
      | cons c w =>
        rw [getLast?_cons_cons]
        exact (h _ (by simp)).1
    simp [mergeStep, opAt, hlast]
  rw [closeLast, foldl_cons, hopen, foldl_mergeStep_close (fun x hx => h x (mem_cons_of_mem _ hx))]
  simp

/-- The text of a selector. -/
def selectorText (s : Selector) : Bytes := [(32 : UInt8)].intercalate (selectorWords s)

/-- A selector as one operation. -/
def bracketOp (s : Selector) : Bytes := 40 :: selectorText s ++ [41]

lemma selectorWords_cons (s : Selector) : ∃ w v ws, selectorWords s = w :: v :: ws := by
  have hlen : 2 ≤ (selectorWords s).length := by
    unfold selectorWords describeChannels ruleWords
    split <;> simp <;> omega
  rcases hws : selectorWords s with _ | ⟨w, _ | ⟨v, ws⟩⟩
  · simp [hws] at hlen
  · simp [hws] at hlen
  · exact ⟨w, v, ws, rfl⟩

/-- Splitting and merging a printed bracket gives one operation. -/
lemma merge_bracketOp (hs : SelectorOk table Inner s) (merged : List Bytes) :
    ((bracketOp s).splitOn 32).foldl mergeStep (merged, none) =
    (merged ++ [bracketOp s], none) := by
  have hplain := plainWord_selectorWords hs
  have hbracket := bracketWord_selectorWords hs
  obtain ⟨w, v, ws, hws⟩ := selectorWords_cons s
  unfold bracketOp selectorText
  rw [hws] at hplain hbracket ⊢
  rw [splitOn_bracket (fun x hx => (hplain x hx).1),
    foldl_mergeStep_bracket (fun x hx => ⟨(hbracket x hx).2, (hplain x hx).2.1⟩)]

/-- Texts that follow one another after a blank are cut apart. -/
lemma splitOn_flatMap {α : Type} (text : Bytes) (xs : List α) (g : α → Bytes) :
    (text ++ xs.flatMap fun x => 32 :: g x).splitOn 32 =
    text.splitOn 32 ++ xs.flatMap fun x => (g x).splitOn 32 := by
  induction xs generalizing text with
  | nil => simp
  | cons x xs ih => rw [flatMap_cons, flatMap_cons, cons_append, splitOn_append_cons_self, ih]

/-- The words of a user outside brackets. -/
def userWords (u : User) : List Bytes :=
  flagNames u.flags ++ u.passwords.map (35 :: ·) ++ selectorWords u.root

/-- The line that describes a user. -/
def userText (u : User) : Bytes :=
  [(32 : UInt8)].intercalate (userWords u) ++ u.selectors.flatMap fun s => 32 :: bracketOp s

lemma plainWord_userWords (hu : UserOk env u) : ∀ w ∈ userWords u, PlainWord w := by
  intro w hw
  rcases mem_append.mp hw with hw | hw
  · rcases mem_append.mp hw with hw | hw
    · have hnames : ∀ item ∈ aclUserFlags, PlainWord item.1 := by decide
      obtain ⟨item, hitem, rfl⟩ := mem_map.mp hw
      exact hnames item (mem_of_mem_filter hitem)
    obtain ⟨p, hp, rfl⟩ := mem_map.mp hw
    have hhash := hu.hashes p hp
    unfold aclCheckPasswordHash at hhash
    rw [Bool.and_eq_true, all_eq_true] at hhash
    have hno : ∀ c : UInt8, ((97 ≤ c && c ≤ 102) || (48 ≤ c && c ≤ 57)) = false →
      c ≠ 35 → c ∉ 35 :: p := by
      intro c hc hne hmem
      rcases mem_cons.mp hmem with rfl | hmem
      · exact hne rfl
      · rw [hhash.2 c hmem] at hc
        cases hc
    exact ⟨hno 32 (by decide) (by decide), hno 0 (by decide) (by decide), by simp [opAt]⟩
  · exact plainWord_selectorWords hu.root.2 w hw

lemma zero_notMem_selectorText (hs : SelectorOk table Q s) : (0 : UInt8) ∉ selectorText s := by
  intro hzero
  rcases mem_intercalate hzero with h | ⟨w, hw, hmem⟩
  · exact absurd h (by decide)
  · exact (plainWord_selectorWords hs w hw).2.1 hmem

lemma describeMember_eq (env : AclEnv) (hs : SelectorOk env.table Q s) : describeMember env s =
    some (if s.root then selectorText s else 32 :: bracketOp s) := by
  unfold describeMember
  rw [aclDescribeSelector_eq env hs]
  show some (if s.root then cstr (selectorText s) else _) = _
  have hcstr := cstr_eq_self (zero_notMem_selectorText hs)
  unfold selectorText at hcstr ⊢
  simp only [hcstr]
  rfl

lemma mapM_describeMember (env : AclEnv) {selectors : List Selector}
    (h : ∀ s ∈ selectors, s.root = false ∧ SelectorOk env.table Inner s) :
    selectors.mapM (describeMember env) = some (selectors.map fun s => 32 :: bracketOp s) := by
  induction selectors with
  | nil => rfl
  | cons s selectors ih =>
    obtain ⟨hroot, hs⟩ := h s (by simp)
    rw [mapM_cons, describeMember_eq env hs, hroot, ih (fun s' hs' => h s' (by simp [hs']))]
    rfl

/-- `ACLDescribeUser` succeeds and prints the words of the user. -/
lemma aclDescribeUser_eq (hu : UserOk env u) :
    aclDescribeUser env u = some (userText u, { u with aclString := some (userText u) }) := by
  have hmembers : u.allSelectors.mapM (describeMember env) =
    some (selectorText u.root :: u.selectors.map fun s => 32 :: bracketOp s) := by
    unfold User.allSelectors
    rw [mapM_cons, describeMember_eq env hu.root.2, hu.root.1, mapM_describeMember env hu.selectors]
    rfl
  have htext : (flagNames u.flags ++ u.passwords.map (35 :: ·)).flatMap (· ++ [32]) ++
    (selectorText u.root :: u.selectors.map fun s => 32 :: bracketOp s).flatten =
    userText u := by
    obtain ⟨w, v, ws, hws⟩ := selectorWords_cons u.root
    unfold userText userWords selectorText
    rw [flatten_cons, ← append_assoc, flatMap_intercalate _ _ (by rw [hws]; simp), flatMap_def]
  unfold aclDescribeUser
  rw [hu.cache]
  simp only [hmembers, some_bind]
  rw [htext]

lemma merge_userText (hu : UserOk env u) : aclMergeSelectorArguments (sdssplitlen (userText u) 32) =
    .ok (userWords u ++ u.selectors.map bracketOp) := by
  have hplain := plainWord_userWords hu
  obtain ⟨w, v, ws, hws⟩ := selectorWords_cons u.root
  have hne : userWords u ≠ [] := by
    unfold userWords
    rw [hws]
    simp
  have hsplit : sdssplitlen (userText u) 32 =
    userWords u ++ u.selectors.flatMap fun s => (bracketOp s).splitOn 32 := by
    have hwords : ([(32 : UInt8)].intercalate (userWords u)).splitOn 32 = userWords u :=
      splitOn_intercalate 32 (fun w hw => (hplain w hw).1) hne
    have hnonempty : (userText u).isEmpty = false := by
      rw [isEmpty_eq_false_iff]
      intro hnil
      rw [(append_eq_nil_iff.mp hnil).1, splitOn_nil] at hwords
      have hstart : startRule u.root ∈ userWords u := by simp [userWords, selectorWords, ruleWords]
      rw [← hwords] at hstart
      unfold startRule at hstart
      revert hstart
      cases aclSelectorCanExecuteFutureCommands u.root <;> decide
    unfold sdssplitlen
    rw [hnonempty, if_neg Bool.false_ne_true]
    unfold userText
    rw [splitOn_flatMap, hwords]
  have hbrackets : ∀ (selectors : List Selector) (merged : List Bytes),
    (∀ s ∈ selectors, SelectorOk env.table Inner s) →
    (selectors.flatMap fun s => (bracketOp s).splitOn 32).foldl mergeStep (merged, none) =
      (merged ++ selectors.map bracketOp, none) := by
    intro selectors
    induction selectors with
    | nil => simp
    | cons s selectors ih =>
      intro merged h
      rw [flatMap_cons, foldl_append, merge_bracketOp (h s (by simp)),
        ih _ (fun s' hs' => h s' (by simp [hs']))]
      simp
  unfold aclMergeSelectorArguments
  rw [hsplit, foldl_append, foldl_mergeStep_plain (fun w hw => (hplain w hw).2.2),
    hbrackets _ _ (fun s hs => (hu.selectors s hs).2)]
  rfl

/-! ## Loading a description -/

lemma foldlM_flagNames (env : AclEnv) {flags : UserFlags}
    (henabled : flags.disabled = !flags.enabled)
    (hsanitize : flags.sanitizePayload = !flags.sanitizePayloadSkip) :
    (flagNames flags).foldlM (aclSetUser env) (aclCreateUser env) =
    .ok { aclCreateUser env with flags := flags } := by
  obtain ⟨enabled, disabled, nopass, skip, sanitize⟩ := flags
  simp only at henabled hsanitize
  subst henabled hsanitize
  cases enabled <;> cases nopass <;> cases skip <;> rfl

lemma aclSetUser_hash (env : AclEnv) {pass : Bytes}
    (hhash : aclCheckPasswordHash pass) (hnew : pass ∉ u.passwords) :
    aclSetUser env u (35 :: pass) =
    .ok { u with
      passwords := u.passwords ++ [pass]
      flags := { u.flags with nopass := false }
      aclString := none } := by
  show addPassword env { u with aclString := none } (35 :: pass) = _
  have hcontains : u.passwords.contains pass = false := by
    rw [Bool.eq_false_iff]
    exact fun hmem => hnew (mem_of_elem_eq_true hmem)
  have hpass : passwordOf env (35 :: pass) 62 = .ok pass := by
    unfold passwordOf
    rw [if_neg (by simp [opAt]), drop_one, tail_cons, if_pos hhash]
  unfold addPassword
  rw [hpass]
  show Except.ok _ = Except.ok _
  simp only [hcontains, Bool.false_eq_true, if_false]

/-- The printed hashes rebuild the list of passwords. -/
lemma foldlM_passwords (env : AclEnv) {passwords : List Bytes}
    (hhash : ∀ p ∈ passwords, aclCheckPasswordHash p) :
    ∀ u : User, u.aclString = none → (passwords ≠ [] → u.flags.nopass = false) →
    (u.passwords ++ passwords).Nodup →
    (passwords.map (35 :: ·)).foldlM (aclSetUser env) u =
      .ok { u with passwords := u.passwords ++ passwords } := by
  induction passwords with
  | nil =>
    intro u _ _ _
    rw [append_nil]
    rfl
  | cons p passwords ih =>
    intro u hcache hnopass hnodup
    have hnew : p ∉ u.passwords := fun hmem =>
      (disjoint_of_nodup_append hnodup) hmem (by simp)
    have hflags : { u.flags with nopass := false } = u.flags := by
      cases hf : u.flags
      simp_all
    rw [map_cons, foldlM_cons, aclSetUser_hash env (hhash p (by simp)) hnew, hflags, ← hcache]
    have hrest := ih (fun p' hp' => hhash p' (by simp [hp']))
      { u with passwords := u.passwords ++ [p] } hcache
      (fun _ => hnopass (by simp)) (by simpa using hnodup)
    simp only [append_assoc] at hrest
    exact hrest

/-- An operation on the root selector: no word of users, no password and no
bracket. -/
def isRootOp (op : Bytes) : Bool :=
  op == ofString "resetchannels" || [126, 37, 38, 43, 45].contains (opAt op 0)

lemma aclSetUser_root (env : AclEnv) (u : User) (h : isRootOp op) : aclSetUser env u op =
      (aclSetSelector env.table u.root op).map fun root =>
        { u with root := root, aclString := none } := by
  unfold isRootOp at h
  rw [Bool.or_eq_true, beq_iff_eq] at h
  rcases h with rfl | h
  · rfl
  have hsign : opAt op 0 ∈ ([126, 37, 38, 43, 45] : List UInt8) := mem_of_elem_eq_true h
  have hne : ∀ c : UInt8, c ∉ ([126, 37, 38, 43, 45] : List UInt8) → opAt op 0 ≠ c :=
    fun c hc heq => hc (heq ▸ hsign)
  have hfold : ∀ c ∈ ([126, 37, 38, 43, 45] : List UInt8), tolower c = c := by decide +kernel
  have hword : ∀ word : String,
      tolower (opAt (ofString word) 0) ∉ ([126, 37, 38, 43, 45] : List UInt8) →
      opIs op word = false := by
    intro word hnot
    apply opIs_eq_false
    rw [hfold _ hsign]
    exact hne _ hnot
  have hempty : op.isEmpty = false := by
    cases op with
    | nil => exact absurd rfl (hne 0 (by decide))
    | cons c op => rfl
  unfold aclSetUser
  simp [hempty, hword "on" (by decide), hword "off" (by decide),
    hword "skip-sanitize-payload" (by decide), hword "sanitize-payload" (by decide),
    hword "nopass" (by decide), hword "resetpass" (by decide),
    hword "clearselectors" (by decide), hword "reset" (by decide), hne 62 (by decide),
    hne 35 (by decide), hne 60 (by decide), hne 33 (by decide), hne 40 (by decide)]

/-- Operations on the root selector change the root selector only. -/
lemma foldlM_root (env : AclEnv) (hops : ∀ op ∈ ops, isRootOp op) {root : Selector} :
    ∀ u : User, u.aclString = none → ops.foldlM (aclSetSelector env.table) u.root = .ok root →
    ops.foldlM (aclSetUser env) u = .ok { u with root := root } := by
  induction ops with
  | nil =>
    intro u _ h
    cases h
    rfl
  | cons op ops ih =>
    intro u hcache h
    obtain ⟨mid, hset, h⟩ := foldlM_cons_ok h
    rw [foldlM_cons, aclSetUser_root env u (hops op (by simp)), hset, hcache]
    exact ih (fun op' hop' => hops op' (by simp [hop'])) { u with root := mid, aclString := none }
      rfl h

lemma isRootOp_selectorWords (hs : SelectorOk table Q s) : ∀ w ∈ selectorWords s, isRootOp w := by
  apply forall_selectorWords (P := fun w => isRootOp w) hs
  · decide
  · intro sign hsign w _ _
    have hsigns : ∀ sign ∈ patternSigns,
      sign ≠ [] ∧ [126, 37, 38, 43, 45].contains (opAt sign 0) := by decide
    obtain ⟨hne, hcontains⟩ := hsigns sign hsign
    unfold isRootOp
    rw [Bool.or_eq_true]
    cases sign with
    | nil => exact absurd rfl hne
    | cons c rest => exact .inr hcontains
  · intro r _ _
    unfold isRootOp Rule.word
    cases r.allow <;> simp [opAt]

lemma aclSetUser_bracket {f : Selector} (u : User) (hs : SelectorOk env.table Inner s)
    (hf : (selectorWords s).foldlM (aclSetSelector env.table)
    (aclCreateSelector env.pubsubDefault false) = .ok f) :
    aclSetUser env u (bracketOp s) =
    .ok { u with selectors := u.selectors ++ [f], aclString := none } := by
  have hclose : opAt (bracketOp s) ((bracketOp s).length - 1) = 41 := by
    unfold bracketOp opAt
    simp
  have hsplit : sdssplitargs (selectorText s) = some (selectorWords s) :=
    sdssplitargs_words (fun w hw => (bracketWord_selectorWords hs w hw).1)
  have hcreate : aclCreateSelectorFromOpSet env (bracketOp s) = .ok f := by
    have htrim : ((bracketOp s).drop 1).dropLast = selectorText s := by
      unfold bracketOp
      rw [cons_append, drop_one, tail_cons, dropLast_concat]
    unfold aclCreateSelectorFromOpSet
    simp only [htrim, hsplit]
    exact hf
  unfold aclSetUser
  rw [hclose, hcreate]
  rfl

/-- The printed brackets rebuild the list of selectors. -/
lemma foldlM_brackets {selectors : List Selector}
    (hok : ∀ s ∈ selectors, SelectorOk env.table Inner s ∧ allKeysPattern ∉ s.patterns) :
    ∀ u : User, u.aclString = none →
    ∃ selectors', (selectors.map bracketOp).foldlM (aclSetUser env) u =
        .ok { u with selectors := u.selectors ++ selectors' } ∧
      List.Forall₂ SameSelector selectors selectors' := by
  induction selectors with
  | nil =>
    intro u _
    refine ⟨[], ?_, .nil⟩
    rw [append_nil]
    rfl
  | cons s selectors ih =>
    intro u hcache
    obtain ⟨hs, hstar⟩ := hok s (by simp)
    obtain ⟨f, hrun, hsame, _⟩ := foldlM_selectorWords hs hstar
      (f := aclCreateSelector env.pubsubDefault false) rfl rfl
    obtain ⟨rest, hrest, hforall⟩ := ih (fun s' hs' => hok s' (by simp [hs']))
      { u with selectors := u.selectors ++ [f] } hcache
    refine ⟨f :: rest, ?_, .cons hsame hforall⟩
    rw [map_cons, foldlM_cons, aclSetUser_bracket u hs hrun, ← hcache]
    simp only [append_assoc] at hrest
    exact hrest

/-- The same user: flags, passwords and, selector by selector, permissions. -/
structure SameUser (u u' : User) : Prop where
  flags : u'.flags = u.flags
  passwords : u'.passwords = u.passwords
  root : SameSelector u.root u'.root
  selectors : List.Forall₂ SameSelector u.selectors u'.selectors

lemma foldlM_stageOp : ∀ {u : User}, ops.foldlM (aclSetUser env) u = .ok u' →
    ops.foldlM (stageOp env) u = .ok u' := by
  induction ops with
  | nil =>
    intro u h
    cases h
    rfl
  | cons op ops ih =>
    intro u h
    obtain ⟨mid, hset, h⟩ := foldlM_cons_ok h
    rw [foldlM_cons, stageOp, hset]
    exact ih h

lemma applyDescription_userText (hu : UserOk env u)
    (hstar : ∀ s ∈ u.allSelectors, allKeysPattern ∉ s.patterns) :
    ∃ u', applyDescription env (userText u) = .ok u' ∧ SameUser u u' := by
  obtain ⟨root, hroot, hsame, _⟩ := foldlM_selectorWords hu.root.2
    (hstar u.root (by simp [User.allSelectors]))
    (f := aclCreateSelector env.pubsubDefault true) rfl rfl
  have hflags := foldlM_flagNames env hu.enabled hu.sanitize
  have hpasswords := foldlM_passwords env hu.hashes { aclCreateUser env with flags := u.flags } rfl
    (by
      intro hne
      cases hno : u.flags.nopass with
      | false => rfl
      | true => exact absurd (hu.nopass hno) hne)
    hu.nodup
  have hwords := foldlM_root env (isRootOp_selectorWords hu.root.2)
    { aclCreateUser env with flags := u.flags, passwords := u.passwords } rfl hroot
  obtain ⟨selectors', hselectors, hforall⟩ := foldlM_brackets
    (fun s hs => ⟨(hu.selectors s hs).2, hstar s (by simp [User.allSelectors, hs])⟩)
    { aclCreateUser env with flags := u.flags, passwords := u.passwords, root := root } rfl
  refine ⟨{ aclCreateUser env with
    flags := u.flags, passwords := u.passwords, root := root, selectors := selectors' },
    ?_, rfl, rfl, hsame, hforall⟩
  unfold applyDescription stageUser
  rw [merge_userText hu]
  apply foldlM_stageOp
  unfold userWords
  rw [foldlM_append, foldlM_append, foldlM_append, hflags]
  show (((u.passwords.map (35 :: ·)).foldlM (aclSetUser env)
    { aclCreateUser env with flags := u.flags }).bind _).bind _ = _
  rw [hpasswords]
  show ((selectorWords u.root).foldlM (aclSetUser env)
    { aclCreateUser env with flags := u.flags, passwords := u.passwords }).bind _ = _
  rw [hwords]
  exact hselectors

lemma userOk_foldlM (hops : ∀ op ∈ ops, Describable op) (hu : UserOk env u)
    (h : ops.foldlM (aclSetUser env) u = .ok u') : UserOk env u' :=
  foldlM_invariant (fun _ op _ hop hu hset => userOk_aclSetUser hu (hops op hop) hset) hu h

/-- A user made by operations that can be described is described without a
failed assertion, and loading the description gives the user back, unless it
has the pattern `*` with both permissions. -/
theorem description_round_trip (env : AclEnv) (ops : List Bytes) (u : User)
    (hops : ∀ op ∈ ops, Describable op)
    (hrun : ops.foldlM (aclSetUser env) (aclCreateUser env) = .ok u)
    (hstar : ∀ s ∈ u.allSelectors, allKeysPattern ∉ s.patterns) :
    ∃ text cached u', aclDescribeUser env u = some (text, cached) ∧
      applyDescription env text = .ok u' ∧ SameUser u u' := by
  have hu := userOk_foldlM hops (userOk_new env) hrun
  obtain ⟨u', hload, hsame⟩ := applyDescription_userText hu hstar
  exact ⟨userText u, _, u', aclDescribeUser_eq hu, hload, hsame⟩

/-- Three commands: `get`, `select` and the container `config` with the
subcommand `config|get`. -/
private def sampleCommands : List Command :=
  [{ fullname := ofString "get", id := 1, aclCategories := 2, name := ofString "get" },
    { fullname := ofString "select", id := 2, name := ofString "select" },
    { fullname := ofString "config", id := 3, name := ofString "config"
      subcommands := some
        [{ fullname := ofString "config|get", id := 4, parent := true
           name := ofString "get" }] }]

private def sampleTable : CommandTable where
  commands := sampleCommands
  categories := [(ofString "read", 2)]
  name_ok := by decide +kernel
  sub_ok := by
    have h : ∀ cmd ∈ sampleCommands, ∀ sub ∈ cmd.subcommands.getD [],
        NameOk sub.name ∧ sub.fullname = cmd.name ++ 124 :: sub.name ∧ sub.parent = true := by
      decide +kernel
    intro cmd hcmd subs hsubs sub hsub
    exact h cmd hcmd sub (by rw [hsubs]; exact hsub)
  names_nodup := by decide +kernel
  sub_names_nodup := by
    have h : ∀ cmd ∈ sampleCommands,
        ((cmd.subcommands.getD []).map fun sub => lower sub.name).Nodup := by decide
    intro cmd hcmd subs hsubs
    have hcmd := h cmd hcmd
    rw [hsubs] at hcmd
    exact hcmd
  ids_nodup := by decide +kernel
  ids_lt := by decide +kernel
  category_ok := by decide +kernel

private def sampleEnv : AclEnv where
  table := sampleTable
  pubsubDefault := false
  hashPassword := fun _ => replicate 64 97
  hashPassword_ok := fun _ => by decide

/-- The user made by a list of operations, if they are all accepted. -/
private def sampleUser (ops : List String) : Option User :=
  ((ops.map ofString).foldlM (aclSetUser sampleEnv) (aclCreateUser sampleEnv)).toOption

/-- The user that the description of a user gives when it is loaded. -/
private def reloaded (u : User) : Option User :=
  (aclDescribeUser sampleEnv u).bind fun described =>
    (applyDescription sampleEnv described.1).toOption

/-- A blank in a first argument ends the process when the user is described; a
blank followed by `~*` grants all keys; `%RW~*` followed by another pattern, and
an operation in brackets that ends in a bracket, cannot be loaded; quotes in
brackets are lost. -/
theorem description_loses_users :
    (∃ u, sampleUser ["+select|a b"] = some u ∧ aclDescribeUser sampleEnv u = none) ∧
      (∃ u u', sampleUser ["+select|a ~*"] = some u ∧ reloaded u = some u' ∧
        u.root.allKeys = false ∧ u'.root.allKeys = true) ∧
      (∃ u, sampleUser ["%RW~*", "~a"] = some u ∧
        (aclDescribeUser sampleEnv u).isSome = true ∧ reloaded u = none) ∧
      (∃ u, sampleUser ["(~a) ~b)"] = some u ∧
        (aclDescribeUser sampleEnv u).isSome = true ∧ reloaded u = none) ∧
      ∃ u u', sampleUser ["('~\"a\"')"] = some u ∧ reloaded u = some u' ∧
        u.selectors.map (·.patterns) ≠ u'.selectors.map (·.patterns) := by
  have hmade : ∀ (ops : List String) (P : User → Bool),
      ((sampleUser ops).map P = some true) → ∃ u, sampleUser ops = some u ∧ P u :=
    fun ops P h => Option.map_eq_some_iff.mp h
  have hload : ∀ (ops : List String) (P : User → User → Bool),
      ((sampleUser ops).bind fun u => (reloaded u).map (P u)) = some true →
      ∃ u u', sampleUser ops = some u ∧ reloaded u = some u' ∧ P u u' := by
    intro ops P h
    obtain ⟨u, hu, h⟩ := Option.bind_eq_some_iff.mp h
    obtain ⟨u', hu', hP⟩ := Option.map_eq_some_iff.mp h
    exact ⟨u, u', hu, hu', hP⟩
  refine ⟨?_, ?_, ?_, ?_, ?_⟩
  · obtain ⟨u, hu, hP⟩ := hmade ["+select|a b"]
      (fun u => (aclDescribeUser sampleEnv u).isNone) (by decide +kernel)
    exact ⟨u, hu, by simpa using hP⟩
  · obtain ⟨u, u', hu, hu', hP⟩ := hload ["+select|a ~*"]
      (fun u u' => !u.root.allKeys && u'.root.allKeys) (by decide +kernel)
    exact ⟨u, u', hu, hu', by simpa using hP⟩
  · obtain ⟨u, hu, hP⟩ := hmade ["%RW~*", "~a"]
      (fun u => (aclDescribeUser sampleEnv u).isSome && (reloaded u).isNone)
      (by decide +kernel)
    exact ⟨u, hu, by simpa using hP⟩
  · obtain ⟨u, hu, hP⟩ := hmade ["(~a) ~b)"]
      (fun u => (aclDescribeUser sampleEnv u).isSome && (reloaded u).isNone)
      (by decide +kernel)
    exact ⟨u, hu, by simpa using hP⟩
  · obtain ⟨u, u', hu, hu', hP⟩ := hload ["('~\"a\"')"]
      (fun u u' => decide (u.selectors.map (·.patterns) ≠ u'.selectors.map (·.patterns)))
      (by decide +kernel)
    exact ⟨u, u', hu, hu', by simpa using hP⟩

/-- Flags, a password, first arguments, categories, subcommands and a second
selector. -/
private def sampleOps : List String :=
  ["on", ">secret", "+@read", "-get", "+SELECT|0", "+config|get", "%R~a*", "&news", "(%W~b* +get)"]

theorem description_round_trip_sample : ∃ u, sampleUser sampleOps = some u ∧
      ∃ text cached u', aclDescribeUser sampleEnv u = some (text, cached) ∧
        applyDescription sampleEnv text = .ok u' ∧ SameUser u u' := by
  have hmade : ((sampleUser sampleOps).map fun u =>
      decide (∀ s ∈ u.allSelectors, allKeysPattern ∉ s.patterns)) = some true := by
    decide +kernel
  obtain ⟨u, hu, hstar⟩ := Option.map_eq_some_iff.mp hmade
  have hrun : (sampleOps.map ofString).foldlM (aclSetUser sampleEnv)
      (aclCreateUser sampleEnv) = .ok u := by
    unfold sampleUser Except.toOption at hu
    split at hu <;> simp_all
  exact ⟨u, hu, description_round_trip sampleEnv _ u (by decide +kernel) hrun
    (by simpa using hstar)⟩

end Dice.Ports.AclRoundTrip
