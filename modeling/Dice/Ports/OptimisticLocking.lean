import Dice.Ports.WatchedKeys

/-!
# WATCH as an optimistic lock

`EXEC` must not run the queue of a client when a key it watches has changed.  A
key that is already expired when it is watched counts as absent, and its later
removal is no change.  `Sound` relates the flag of the watch, whether the key has
changed since `WATCH`, and whether it is expired now: a key is expired because it
was so from the beginning or because it changed.

Every event but one keeps the relation.  `touchWatchedKey` leaves its loop at a
watcher that has its flag set when the key is present, so that this watcher and
all those after it learn nothing of the write.
-/

namespace Dice.Ports.OptimisticLocking

open List Function Prod

open Verified CString Table Index Run Transactions WatchedKeys Option

variable {V : Type} [DecidableEq V]

/-- Flag of the watch, change since `WATCH`, expired now. -/
def Sound (e changed expired : Bool) : Prop :=
  expired = (e || changed) ∧ ¬(e = true ∧ changed = true)

/-- What a client's marks say about its watches, while it is not dirty. -/
def Guarded (srv : Server V) (c : Client V) (marks : List Mark) : Prop :=
  c.dirtyCas = false → ∀ m ∈ marks, ∃ e, flag c m.db m.key = some e ∧
    Sound e m.changed (srv.keyIsExpired m.db m.key)

/-- Every watch has been asked for. -/
def Covered (c : Client V) (marks : List Mark) : Prop :=
  ∀ db key, (flag c db key).isSome = true → ∃ m ∈ marks, (m.db, m.key) = (db, key)

/-- The registry agrees, and the marks of a clean run tell what the watches
know. -/
structure Inv (s : State V) : Prop where
  linked : Linked s.server
  marked : s.clean = true → ∀ cid, Covered (s.server.clients cid) (s.marks cid) ∧
    Guarded s.server (s.server.clients cid) (s.marks cid)

/-- What an event has to do to one client. -/
structure Follows (before after : Server V) (c c' : Client V) : Prop where
  places : places c' ⊆ places c
  dirty : c.dirtyCas = true → c'.dirtyCas = true
  flags : c'.dirtyCas = false → ∀ db key e changed, flag c db key = some e →
    Sound e changed (before.keyIsExpired db key) →
    ∃ e', flag c' db key = some e' ∧
      Sound e' (changed || decide (before.holds db key ≠ after.holds db key))
        (after.keyIsExpired db key)

variable {before after srv srv' : Server V} {c c' : Client V} {marks : List Mark} {db : DbId}
  {key : Bytes} {s : State V} {cid : ClientId} {m : Mark}

lemma Follows.covered (h : Follows before after c c') (hc : Covered c marks) :
    Covered c' (marks.map (Mark.note before after)) := by
  intro db key hsome
  rw [flag_isSome_iff] at hsome
  obtain ⟨m, hm, hplace⟩ := hc db key ((flag_isSome_iff c db key).mpr (h.places hsome))
  exact ⟨m.note before after, mem_map_of_mem hm, hplace⟩

lemma Follows.guarded (h : Follows before after c c') (hc : Guarded before c marks) :
    Guarded after c' (marks.map (Mark.note before after)) := by
  intro hclean m' hm'
  obtain ⟨m, hm, rfl⟩ := mem_map.mp hm'
  have hcclean : c.dirtyCas = false := by
    by_contra hd
    rw [h.dirty (by simpa using hd)] at hclean
    exact absurd hclean (by simp)
  obtain ⟨e, he, hsound⟩ := hc hcclean m hm
  exact h.flags hclean m.db m.key e m.changed he hsound

/-- A client whose watches are untouched by an event that changes no data. -/
lemma Follows.of_same (h : SameData before after)
    (hkeys : c'.watchedKeys = c.watchedKeys) (hdirty : c'.dirtyCas = c.dirtyCas) :
    Follows before after c c' where
  places := by
    unfold WatchedKeys.places
    rw [hkeys]
    exact fun _ hx => hx
  dirty hd := hdirty.trans hd
  flags _ db key e changed he hsound := by
    refine ⟨e, ?_, ?_⟩
    · unfold flag Client.watchedKey at he ⊢
      rw [hkeys]
      exact he
    · rw [h.holds, h.keyIsExpired]
      simpa using hsound

/-! ## Changes of the data -/

omit [DecidableEq V] in
/-- The three facts after the mark was noted, as propositions. -/
lemma sound_note {e changed expired : Bool} {p : Prop} [Decidable p] :
    Sound e (changed || decide p) expired ↔
    (expired = true ↔ e = true ∨ changed = true ∨ p) ∧ ¬(e = true ∧ (changed = true ∨ p)) := by
  unfold Sound
  rw [Bool.eq_iff_iff]
  simp

lemma sound_of_entry (hnow : after.now = before.now)
    (hentry : after.dbFind db key = before.dbFind db key)
    {e changed : Bool} (h : Sound e changed (before.keyIsExpired db key)) :
    Sound e (changed || decide (before.holds db key ≠ after.holds db key))
    (after.keyIsExpired db key) := by
  have hexp : after.keyIsExpired db key = before.keyIsExpired db key := by
    rw [Server.keyIsExpired, Server.keyIsExpired, hentry, hnow]
  rw [holds_eq, holds_eq, hexp, hentry, hnow]
  simpa using h

/-- A signalled write that does not overwrite a key watched as expired. -/
lemma write_follows (h : Linked srv) (db : DbId) (key : Bytes) (entry : Option (Entry V)) :
    ∃ srv', srv.apply (.write db key entry) = some srv' ∧ Linked srv' ∧
    (srv.overwritesExpired (.write db key entry) = false →
      ∀ cid, Follows srv srv' (srv.clients cid) (srv'.clients cid)) := by
  have hstore : Linked (srv.store db key entry) := h.of_places rfl fun _ => rfl
  obtain ⟨srv', hrun, h', hsame, hall⟩ := touchWatchedKey_spec hstore db key
  refine ⟨srv', hrun, h', ?_⟩
  intro hclean cid
  have hfind : ∀ db' key', srv'.dbFind db' key' =
    if (db', key') = (db, key) then entry else srv.dbFind db' key' := by
    intro db' key'
    rw [hsame.dbFind, dbFind_store]
  have hother : ∀ db' key' e changed, (db', key') ≠ (db, key) →
    Sound e changed (srv.keyIsExpired db' key') →
    Sound e (changed || decide (srv.holds db' key' ≠ srv'.holds db' key'))
      (srv'.keyIsExpired db' key') := by
    intro db' key' e changed hne
    exact sound_of_entry (show srv'.now = srv.now from hsame.now) (by rw [hfind, if_neg hne])
  have hreach : entry = none ∨ ∀ cid, flag (srv.clients cid) db key ≠ some true := by
    cases entry with
    | none => exact .inl rfl
    | some e => exact .inr (watchedAsExpired_eq_false h hclean)
  have hclients := hall (by
    rw [dbFind_store, if_pos rfl]
    exact hreach) cid
  change srv'.clients cid = if (flag (srv.clients cid) db key).isSome
    then touched db key (srv.clients cid) else srv.clients cid at hclients
  cases hflag : flag (srv.clients cid) db key with
  | none =>
    rw [hflag] at hclients
    rw [hclients]
    refine ⟨fun _ hx => hx, id, ?_⟩
    intro _ db' key' e changed he hsound
    refine ⟨e, he, hother db' key' e changed ?_ hsound⟩
    rintro heq
    obtain ⟨rfl, rfl⟩ := mk.inj heq
    rw [hflag] at he
    exact absurd he (by simp)
  | some flagged =>
    rw [hflag, isSome_some, if_pos rfl, touched, hflag] at hclients
    cases flagged with
    | false =>
      rw [hclients]
      refine ⟨by simp [WatchedKeys.places], fun _ => rfl, ?_⟩
      intro hc
      exact absurd hc (by simp [Client.setDirty])
    | true =>
      -- the key was expired all along and is removed now
      rw [if_pos rfl] at hclients
      have hnone : entry = none := hreach.resolve_right fun hne => hne cid hflag
      rw [hclients]
      refine ⟨by rw [places_setExpired]; exact fun _ hx => hx, id, ?_⟩
      intro _ db' key' e changed he hsound
      rw [flag_setExpired]
      by_cases hat : (db', key') = (db, key)
      · obtain ⟨rfl, rfl⟩ := mk.inj hat
        have hgone : srv'.dbFind db' key' = none := by rw [hfind, if_pos rfl, hnone]
        refine ⟨false, by rw [if_pos rfl, hflag]; rfl, ?_⟩
        rw [sound_note, holds_eq, holds_eq, Server.keyIsExpired, hgone]
        simp only [Sound, Server.keyIsExpired] at hsound
        cases hold : srv.dbFind db' key' <;> grind
      · exact ⟨e, by rw [if_neg hat]; exact he, hother db' key' e changed hat hsound⟩

/-- The clients after the watches were judged and the data changed. -/
lemma follows_of_judged {srv1 : Server V} (hclients : srv'.clients = srv1.clients)
    {f : DbId → Bytes → Bool → Option Bool}
    (hj : ∀ cid, Judged f (srv.clients cid) (srv1.clients cid))
    (hf : ∀ db key e changed e', f db key e = some e' → Sound e changed (srv.keyIsExpired db key) →
    Sound e' (changed || decide (srv.holds db key ≠ srv'.holds db key))
      (srv'.keyIsExpired db key)) (cid : ClientId) :
    Follows srv srv' (srv.clients cid) (srv'.clients cid) := by
  rw [hclients]
  refine ⟨by rw [(hj cid).places]; exact fun _ hx => hx, (hj cid).dirty, ?_⟩
  intro hc db key e changed he hsound
  have hflag := (hj cid).flags hc db key
  rw [he, bind_some] at hflag
  cases hfe : f db key e with
  | none =>
    -- the place has not gone
    have hplace : (flag (srv1.clients cid) db key).isSome := by
      rw [flag_isSome_iff, (hj cid).places, ← flag_isSome_iff, he]
      rfl
    rw [hflag, hfe] at hplace
    exact absurd hplace (by simp)
  | some e' => exact ⟨e', hflag.trans hfe, hf db key e changed e' hfe hsound⟩

lemma flush_follows (h : Linked srv) (db : Option DbId) :
    ∃ srv', srv.apply (.flush db) = some srv' ∧ Linked srv' ∧
    ∀ cid, Follows srv srv' (srv.clients cid) (srv'.clients cid) := by
  obtain ⟨srv1, hrun, h1, hsame, hj⟩ := signalFlushedDb_spec h (flushed_nodup srv db)
  refine ⟨srv1.emptyDbs (srv.flushed db), by simp [Server.apply, hrun],
    Linked.of_places h1 (show (srv1.emptyDbs _).watched = srv1.watched from rfl) (fun _ => rfl), ?_⟩
  refine follows_of_judged rfl hj ?_
  intro d key e changed e' hfe hsound
  have hnow : (srv1.emptyDbs (srv.flushed db)).now = srv.now := hsame.now
  have hfind : (srv1.emptyDbs (srv.flushed db)).dbFind d key =
    if d ∈ srv.flushed db then none else srv.dbFind d key := by
    rw [← hsame.dbFind]
    by_cases hd : d ∈ srv.flushed db <;> simp [Server.emptyDbs, Server.dbFind, hd]
  -- a key that was there is noted, or was expired from the beginning
  rw [sound_note, holds_eq, holds_eq]
  simp only [Sound, flushVerdict, Server.keyIsExpired, hfind, hnow] at hfe hsound ⊢
  cases hold : srv.dbFind d key <;> grind

/-- One half of a swap: database `a` gets what `b` holds. -/
lemma sound_swapped (hnow : srv'.now = srv.now) {a b : DbId}
    (hfind : srv'.dbFind a key = srv.dbFind b key) {e changed e' : Bool}
    (hfe : verdict srv a (some b) (fun _ => True) a key e = some e')
    (hsound : Sound e changed (srv.keyIsExpired a key)) :
    Sound e' (changed || decide (srv.holds a key ≠ srv'.holds a key))
    (srv'.keyIsExpired a key) := by
  -- the flag is kept or set only for a key that is absent for the client on both sides
  rw [sound_note, holds_eq, holds_eq]
  simp only [verdict, replacedFlag, Server.existsInEither, any_some] at hfe
  simp only [Sound, Server.keyIsExpired, hfind, hnow] at hfe hsound ⊢
  cases ha : srv.dbFind a key <;> cases hb : srv.dbFind b key <;> grind

lemma swap_follows (h : Linked srv) (a b : DbId) :
    ∃ srv', srv.apply (.swap a b) = some srv' ∧ Linked srv' ∧
    ∀ cid, Follows srv srv' (srv.clients cid) (srv'.clients cid) := by
  rw [Server.apply, dbSwapDatabases]
  by_cases hsame : srv.dbnum ≤ a ∨ srv.dbnum ≤ b ∨ a = b
  · rw [if_pos hsame]
    exact ⟨srv, rfl, h, fun cid => Follows.of_same (SameData.refl srv) rfl rfl⟩
  rw [if_neg hsame]
  have hab : a ≠ b := fun heq => hsame (.inr (.inr heq))
  obtain ⟨srv1, hrun1, h1, hsame1, hj1⟩ := touchAllWatchedKeysInDb_spec h a (some b)
  obtain ⟨srv2, hrun2, h2, hsame2, hj2⟩ := touchAllWatchedKeysInDb_spec h1 b (some a)
  refine ⟨srv2.swapKeys a b, by simp [hrun1, hrun2],
    Linked.of_places h2 (show (srv2.swapKeys a b).watched = srv2.watched from rfl)
      (fun _ => rfl), ?_⟩
  refine follows_of_judged rfl (fun cid => (hj1 cid).trans (hj2 cid)) ?_
  intro db key e changed e' hfe hsound
  have hsame := hsame1.trans hsame2
  have hnow : (srv2.swapKeys a b).now = srv.now := hsame.now
  have hfind : (srv2.swapKeys a b).dbFind db key =
    srv.dbFind (if db = a then b else if db = b then a else db) key := by
    rw [dbFind_swapKeys srv2 hab, hsame.dbFind]
  rw [verdict_congr hsame1] at hfe
  have hoff : ∀ x y, db ≠ x → verdict srv x (some y) (fun _ => True) db key = some := by
    intro x y hx
    funext e
    simp [verdict, hx]
  by_cases ha : db = a
  · subst ha
    rw [if_pos rfl] at hfind
    rw [hoff b db hab, bind_fun_some] at hfe
    exact sound_swapped hnow hfind hfe hsound
  rw [hoff a b ha, bind_some] at hfe
  rw [if_neg ha] at hfind
  by_cases hb : db = b
  · subst hb
    rw [if_pos rfl] at hfind
    exact sound_swapped hnow hfind hfe hsound
  rw [if_neg hb] at hfind
  rw [hoff b a hb, some.injEq] at hfe
  subst hfe
  exact sound_of_entry hnow hfind hsound

lemma tick_follows (srv : Server V) (ms : Nat) (c : Client V) :
    Follows srv { srv with now := srv.now + ms } c c := by
  refine ⟨fun _ hx => hx, id, fun _ db key e changed he hsound => ⟨e, he, ?_⟩⟩
  have hfind : ({ srv with now := srv.now + ms } : Server V).dbFind db key =
    srv.dbFind db key := rfl
  rw [sound_note, holds_eq, holds_eq]
  simp only [Sound, Server.keyIsExpired, hfind] at hsound ⊢
  cases hentry : srv.dbFind db key with
  | none => simp_all
  | some entry =>
    have hmono : entry.isExpired srv.now → entry.isExpired (srv.now + ms) := by
      unfold Entry.isExpired
      cases entry.deadline with
      | none => exact id
      | some deadline =>
        simp only [any_some, decide_eq_true_eq]
        omega
    -- a key that expires now held a value until now
    grind

/-! ## The events keep the invariant -/

section

variable (h : Inv s)

include h

lemma Inv.become (hlinked : Linked srv) {clean : Bool} (hfollows : clean → s.clean ∧
    ∀ cid, Follows s.server srv (s.server.clients cid) (srv.clients cid)) :
    Inv { s.become srv with clean := clean } where
  linked := hlinked
  marked hclean cid := by
    obtain ⟨hs, hall⟩ := hfollows hclean
    exact ⟨(hall cid).covered (h.marked hs cid).1, (hall cid).guarded (h.marked hs cid).2⟩

/-- A request that leaves data, watches and `dirty_cas` alone. -/
lemma Inv.modify (cid : ClientId) {f : Client V → Client V}
    (hkeys : (f (s.server.clients cid)).watchedKeys = (s.server.clients cid).watchedKeys)
    (hdirty : (f (s.server.clients cid)).dirtyCas = (s.server.clients cid).dirtyCas) :
    Inv (s.become (s.server.modify cid f)) := by
  refine h.become (h.linked.modify ?_) ?_
  · unfold places
    rw [hkeys]
  intro hclean
  refine ⟨hclean, fun cid' => ?_⟩
  rw [clients_modify]
  split
  · next heq =>
    subst heq
    exact Follows.of_same (sameData_modify _ _ _) hkeys hdirty
  · exact Follows.of_same (sameData_modify _ _ _) rfl rfl

lemma Inv.forget (hlinked : Linked srv) (hsame : SameData s.server srv)
    (hothers : ∀ cid', cid' ≠ cid → srv.clients cid' = s.server.clients cid')
    (hnil : (srv.clients cid).watchedKeys = []) : Inv ((s.become srv).forget cid) where
  linked := hlinked
  marked hclean cid' := by
    show Covered (srv.clients cid') (update (s.become srv).marks cid [] cid') ∧
      Guarded srv (srv.clients cid') (update (s.become srv).marks cid [] cid')
    by_cases hc : cid' = cid
    · subst hc
      refine ⟨?_, fun _ m hm => absurd hm (by simp)⟩
      intro db key hsome
      exact absurd hsome (by simp [flag, Client.watchedKey, hnil])
    rw [update_of_ne hc, hothers cid' hc]
    have hfollows : Follows s.server srv (s.server.clients cid') (s.server.clients cid') :=
      Follows.of_same hsame rfl rfl
    obtain ⟨hcov, hguard⟩ := h.marked hclean cid'
    exact ⟨hfollows.covered hcov, hfollows.guarded hguard⟩

lemma effect_inv (e : Effect V) : ∃ s', s.effect e = some s' ∧ Inv s' := by
  have hspec : ∃ srv', s.server.apply e = some srv' ∧ Linked srv' ∧
    (s.server.overwritesExpired e = false →
      ∀ cid, Follows s.server srv' (s.server.clients cid) (srv'.clients cid)) := by
    cases e with
    | write db key entry => exact write_follows h.linked db key entry
    | flush db =>
      obtain ⟨srv', hrun, h', hall⟩ := flush_follows h.linked db
      exact ⟨srv', hrun, h', fun _ => hall⟩
    | swap a b =>
      obtain ⟨srv', hrun, h', hall⟩ := swap_follows h.linked a b
      exact ⟨srv', hrun, h', fun _ => hall⟩
  obtain ⟨srv', hrun, h', hall⟩ := hspec
  refine ⟨_, by rw [State.effect, hrun, map_some], h.become h' ?_⟩
  intro hclean
  rw [Bool.and_eq_true, Bool.not_eq_true'] at hclean
  exact ⟨hclean.1, hall hclean.2⟩

lemma unwatch_inv (cid : ClientId) (f : Client V → Client V)
    (hf : ∀ c, (f c).watchedKeys = c.watchedKeys) :
    ∃ srv, unwatchAllKeys (s.server.modify cid f) cid = some srv ∧ SameData s.server srv ∧
    Inv ((s.become srv).forget cid) := by
  obtain ⟨srv, hrun, hlinked, hsame, hclients⟩ := unwatchAllKeys_spec
    (h.linked.modify (f := f) (show places (f (s.server.clients cid)) = _ by
      unfold places
      rw [hf])) cid
  have hdata := (sameData_modify s.server cid f).trans hsame
  refine ⟨srv, hrun, hdata, h.forget hlinked hdata ?_ ?_⟩
  · intro cid' hc
    rw [hclients, if_neg hc, clients_modify, if_neg hc]
  · rw [hclients, if_pos rfl]

lemma discard_inv (cid : ClientId) :
    ∃ s', s.discard cid = some s' ∧ Inv s' ∧ SameData s.server s'.server := by
  obtain ⟨srv, hrun, hsame, hinv⟩ := unwatch_inv h cid (fun c =>
    { resetClientMultiState c with multi := false, dirtyCas := false, dirtyExec := false })
    fun _ => rfl
  exact ⟨_, by rw [State.discard, discardTransaction, hrun, map_some], hinv, hsame⟩
omit h in
lemma call_inv (cid : ClientId) (h : Inv s) (cmd : Command V) :
    ∃ s', s.call cid cmd = some s' ∧ Inv s' := by
  cases cmd with
  | select db =>
    refine ⟨_, rfl, ?_⟩
    unfold selectCommand
    split
    · exact h.modify cid rfl rfl
    · exact h.become h.linked fun hclean =>
        ⟨hclean, fun cid' => Follows.of_same (SameData.refl _) rfl rfl⟩
  | unwatch =>
    obtain ⟨srv, hrun, hlinked, hsame, hclients⟩ := unwatchAllKeys_spec h.linked cid
    refine ⟨_, by rw [State.call, unwatchCommand, hrun, map_some, map_some], ?_⟩
    refine h.forget (hlinked.modify rfl) (hsame.trans (sameData_modify _ _ _)) ?_ ?_
    · intro cid' hc
      rw [clients_modify, if_neg hc, hclients, if_neg hc]
    · rw [clients_modify, if_pos rfl, hclients, if_pos rfl]
  | data effects => exact run_total' (fun s e hs => effect_inv hs e) h _

lemma execCommand_inv (cid : ClientId) :
    ∃ s', s.execCommand cid = some (s', execReply s.server cid) ∧ Inv s' ∧
    ((∀ n, execReply s.server cid ≠ .array n) → SameData s.server s'.server) := by
  unfold State.execCommand
  cases hreply : execReply s.server cid with
  | withoutMulti => exact ⟨s, rfl, h, fun _ => SameData.refl _⟩
  | execAbort =>
    obtain ⟨s', hrun, h', hsame⟩ := discard_inv h cid
    exact ⟨s', by simp [hrun], h', fun _ => hsame⟩
  | null =>
    obtain ⟨s', hrun, h', hsame⟩ := discard_inv h cid
    exact ⟨s', by simp [hrun], h', fun _ => hsame⟩
  | array count =>
    obtain ⟨srv, hun, hlinked, hsame, hclients⟩ := unwatchAllKeys_spec h.linked cid
    have hforget : Inv ((s.become srv).forget cid) := by
      refine h.forget hlinked hsame ?_ ?_
      · intro cid' hc
        rw [hclients, if_neg hc]
      · rw [hclients, if_pos rfl]
    obtain ⟨s₁, hqueue, h1⟩ := run_total'
      (show ∀ s cmd, Inv s → ∃ s', State.call cid s cmd = some s' ∧ Inv s' from
        fun s cmd hs => call_inv cid hs cmd) hforget (s.server.clients cid).commands
    obtain ⟨s', hrun, h', _⟩ := discard_inv h1 cid
    exact ⟨s', by simp [hun, hqueue, hrun], h', fun hne => absurd rfl (hne count)⟩

end

lemma mem_addMark : m ∈ addMark db marks key ↔ m ∈ marks ∨
    (m = { db := db, key := key } ∧ ∀ m' ∈ marks, (m'.db, m'.key) ≠ (db, key)) := by
  unfold addMark
  split
  · next hany =>
    obtain ⟨m', hm', hplace⟩ := any_eq_true.mp hany
    constructor
    · exact .inl
    · rintro (hm | ⟨_, hno⟩)
      · exact hm
      · exact absurd (by simpa using hplace) (hno m' hm')
  · next hany =>
    rw [mem_append, mem_singleton]
    refine or_congr Iff.rfl ⟨fun hm => ⟨hm, ?_⟩, And.left⟩
    intro m' hm' hplace
    exact hany (any_eq_true.mpr ⟨m', hm', by simpa using hplace⟩)

lemma mem_foldl_addMark (db : DbId) (keys : List Bytes)
    (hm : m ∈ marks) : m ∈ keys.foldl (addMark db) marks := by
  induction keys generalizing marks with
  | nil => exact hm
  | cons key keys ih => exact ih (mem_addMark.mpr (.inl hm))

lemma exists_addMark (db : DbId) (marks : List Mark) (key : Bytes) :
    ∃ m ∈ addMark db marks key, (m.db, m.key) = (db, key) := by
  by_cases hold : ∃ m ∈ marks, (m.db, m.key) = (db, key)
  · obtain ⟨m, hm, hplace⟩ := hold
    exact ⟨m, mem_addMark.mpr (.inl hm), hplace⟩
  · refine ⟨{ db := db, key := key }, mem_addMark.mpr (.inr ⟨rfl, ?_⟩), rfl⟩
    intro m hm hplace
    exact hold ⟨m, hm, hplace⟩

omit [DecidableEq V] in
lemma watch_marks (hw : Watches srv cid key srv') (hclean : (srv.clients cid).dirtyCas = false)
    (hcov : Covered (srv.clients cid) marks) (hguard : Guarded srv (srv.clients cid) marks) :
    Covered (srv'.clients cid) (addMark (srv.clients cid).db marks key) ∧
    Guarded srv' (srv'.clients cid) (addMark (srv.clients cid).db marks key) := by
  constructor
  · intro db key' hsome
    rw [hw.flags] at hsome
    by_cases hat : (db, key') = ((srv.clients cid).db, key)
    · rw [hat]
      exact exists_addMark _ _ _
    · rw [if_neg hat] at hsome
      obtain ⟨m, hm, hplace⟩ := hcov db key' hsome
      exact ⟨m, mem_addMark.mpr (.inl hm), hplace⟩
  intro _ m hm
  rw [hw.same.keyIsExpired, hw.flags]
  rcases mem_addMark.mp hm with hm | ⟨rfl, hno⟩
  · obtain ⟨e, he, hsound⟩ := hguard hclean m hm
    refine ⟨e, ?_, hsound⟩
    rw [he]
    split <;> rfl
  have hnone : flag (srv.clients cid) (srv.clients cid).db key = none := by
    rw [← not_isSome_iff_eq_none]
    intro hsome
    obtain ⟨m, hm, hplace⟩ := hcov _ _ hsome
    exact hno m hm hplace
  refine ⟨srv.keyIsExpired (srv.clients cid).db key, ?_, ?_⟩
  · rw [if_pos rfl, hnone, none_or]
  · simp [Sound]

omit [DecidableEq V] in
lemma watchKeys_inv (hlinked : Linked srv) (hclean : (srv.clients cid).dirtyCas = false) {p : Prop}
    (hmarks : p → Covered (srv.clients cid) marks ∧ Guarded srv (srv.clients cid) marks)
    (keys : List Bytes) :
    ∃ srv', keys.foldl (fun srv key => watchForKey srv cid key) srv = srv' ∧ Linked srv' ∧
    SameData srv srv' ∧ (∀ cid', cid' ≠ cid → srv'.clients cid' = srv.clients cid') ∧
    (p → Covered (srv'.clients cid) (keys.foldl (addMark (srv.clients cid).db) marks) ∧
      Guarded srv' (srv'.clients cid) (keys.foldl (addMark (srv.clients cid).db) marks)) := by
  induction keys generalizing srv marks with
  | nil => exact ⟨srv, rfl, hlinked, SameData.refl srv, fun _ _ => rfl, hmarks⟩
  | cons key keys ih =>
    have hw := watchForKey_spec hlinked cid key
    obtain ⟨srv', hrun, hlinked', hsame, hothers, hmarks'⟩ :=
      ih hw.linked (hw.dirtyCas.trans hclean)
        (fun hp => watch_marks hw hclean (hmarks hp).1 (hmarks hp).2)
    rw [hw.db] at hmarks'
    refine ⟨srv', hrun, hlinked', hw.same.trans hsame, ?_, hmarks'⟩
    intro cid' hc
    rw [hothers cid' hc, hw.others cid' hc]

lemma watch_inv (h : Inv s) (cid : ClientId) (keys : List Bytes) :
    Inv { s.become (watchCommand s.server cid keys) with
    marks := update s.marks cid
      (keys.foldl (addMark (s.server.clients cid).db) (s.marks cid)) } := by
  cases hdirty : (s.server.clients cid).dirtyCas with
  | true =>
    -- the server ignores the request, and the client cannot succeed anyway
    have hsrv : watchCommand s.server cid keys = s.server := by simp [watchCommand, hdirty]
    rw [hsrv]
    refine ⟨h.linked, fun hclean cid' => ?_⟩
    show Covered (s.server.clients cid') (update s.marks cid _ cid') ∧
      Guarded s.server (s.server.clients cid') (update s.marks cid _ cid')
    by_cases hc : cid' = cid
    · subst hc
      rw [update_self]
      refine ⟨?_, fun hno => absurd (hdirty.symm.trans hno) (by simp)⟩
      intro db key hsome
      obtain ⟨m, hm, hplace⟩ := (h.marked hclean cid').1 db key hsome
      exact ⟨m, mem_foldl_addMark _ keys hm, hplace⟩
    · rw [update_of_ne hc]
      exact h.marked hclean cid'
  | false =>
    obtain ⟨srv', hrun, hlinked, hsame, hothers, hmarks⟩ :=
      watchKeys_inv h.linked hdirty (fun hclean : s.clean => h.marked hclean cid) keys
    have hsrv : watchCommand s.server cid keys = srv' := by simp [watchCommand, hdirty, hrun]
    rw [hsrv]
    refine ⟨hlinked, fun hclean cid' => ?_⟩
    show Covered (srv'.clients cid') (update s.marks cid _ cid') ∧
      Guarded srv' (srv'.clients cid') (update s.marks cid _ cid')
    by_cases hc : cid' = cid
    · subst hc
      rw [update_self]
      exact hmarks hclean
    rw [update_of_ne hc, hothers cid' hc]
    obtain ⟨hcov, hguard⟩ := h.marked hclean cid'
    refine ⟨hcov, fun hno m hm => ?_⟩
    rw [hsame.keyIsExpired]
    exact hguard hno m hm

lemma process_inv (h : Inv s) (cid : ClientId) (r : Request V) :
    ∃ s', s.process cid r = some s' ∧ Inv s' := by
  have hflag : Inv (s.become (flagTransaction s.server cid)) := by
    refine h.modify cid ?_ ?_
    · split <;> rfl
    · split <;> rfl
  cases r with
  | watch keys =>
    rw [State.process]
    split
    · exact ⟨_, rfl, hflag⟩
    · exact ⟨_, rfl, watch_inv h cid keys⟩
  | multi =>
    rw [State.process]
    split
    · exact ⟨_, rfl, hflag⟩
    · exact ⟨_, rfl, h.modify cid rfl rfl⟩
  | exec =>
    obtain ⟨s', hrun, h', _⟩ := execCommand_inv h cid
    exact ⟨s', by rw [State.process, hrun, map_some], h'⟩
  | discard =>
    rw [State.process]
    split
    · obtain ⟨s', hrun, h', _⟩ := discard_inv h cid
      exact ⟨s', hrun, h'⟩
    · exact ⟨s, rfl, h⟩
  | invalid => exact ⟨_, rfl, hflag⟩
  | command cmd =>
    rw [State.process]
    split
    · refine ⟨_, rfl, h.modify cid ?_ ?_⟩
      · split <;> rfl
      · split <;> rfl
    · exact call_inv cid h cmd

lemma step_inv (h : Inv s) (e : Event V) : ∃ s', step s e = some s' ∧ Inv s' := by
  cases e with
  | request cid r => exact process_inv h cid r
  | effect e => exact effect_inv h e
  | tick ms =>
    refine ⟨_, rfl, h.become ?_ ?_⟩
    · exact h.linked.of_places (show ({ s.server with now := _ } : Server V).watched = _ from rfl)
        fun _ => rfl
    · exact fun hclean => ⟨hclean, fun cid => tick_follows s.server ms _⟩

omit [DecidableEq V] in
lemma inv_start (now dbnum : Nat) (keys : Keyspace V) : Inv (start now dbnum keys) where
  linked := {
    tidy := fun _ => tidy_empty
    nodup := fun _ => nodup_nil
    mem := fun db key cid => by simp [start, members, places] }
  marked _ cid := ⟨fun db key hsome => absurd hsome (by simp [start, flag, Client.watchedKey]),
    fun _ m hm => absurd hm (by simp [start])⟩

omit [DecidableEq V] in
lemma isWatchedKeyExpired_iff (h : Linked srv) (cid : ClientId) : isWatchedKeyExpired srv cid ↔
    ∃ db key, flag (srv.clients cid) db key = some false ∧ srv.keyIsExpired db key := by
  unfold isWatchedKeyExpired
  rw [List.any_eq_true]
  constructor
  · rintro ⟨wk, hwk, hexp⟩
    rw [Bool.and_eq_true, Bool.not_eq_true'] at hexp
    exact ⟨wk.db, wk.key, (flag_eq_some_iff (h.nodup cid) _ _ _).mpr ⟨wk, hwk, rfl, hexp.1⟩, hexp.2⟩
  rintro ⟨db, key, hflag, hexp⟩
  obtain ⟨wk, hwk, hplace, hfalse⟩ := (flag_eq_some_iff (h.nodup cid) _ _ _).mp hflag
  obtain ⟨rfl, rfl⟩ := mk.inj hplace
  exact ⟨wk, hwk, by simp [hfalse, hexp]⟩

omit [DecidableEq V] in
lemma execReply_of_changed (h : Inv s) (hclean : s.clean)
    (hm : m ∈ s.marks cid) (hchanged : m.changed) (n : Nat) :
    execReply s.server cid ≠ .array n := by
  have hfail : (isWatchedKeyExpired s.server cid || (s.server.clients cid).dirtyCas) := by
    cases hdirty : (s.server.clients cid).dirtyCas with
    | true => simp
    | false =>
      obtain ⟨e, he, hexp, hboth⟩ := (h.marked hclean cid).2 hdirty m hm
      have hfalse : e = false := by
        by_contra hne
        exact hboth ⟨by simpa using hne, hchanged⟩
      subst hfalse
      rw [hchanged] at hexp
      rw [(isWatchedKeyExpired_iff h.linked cid).mpr ⟨m.db, m.key, he, hexp⟩]
      rfl
  unfold execReply
  dsimp only
  split
  · simp
  · split <;> simp

omit [DecidableEq V] in
lemma execReply_congr (hmulti : (srv'.clients cid).multi = (srv.clients cid).multi)
    (hexec : (srv'.clients cid).dirtyExec = (srv.clients cid).dirtyExec)
    (hcas : (srv'.clients cid).dirtyCas = (srv.clients cid).dirtyCas)
    (hrest : (srv.clients cid).dirtyCas = false →
    (srv'.clients cid).commands = (srv.clients cid).commands ∧
      isWatchedKeyExpired srv' cid = isWatchedKeyExpired srv cid) :
    execReply srv' cid = execReply srv cid := by
  unfold execReply
  simp only [hmulti, hexec, hcas]
  cases hdirty : (srv.clients cid).dirtyCas with
  | true => simp
  | false => rw [(hrest hdirty).1, (hrest hdirty).2]

/-- The removal of an expired key changes nothing for a client that has not
seen it change. -/
lemma execReply_of_removal (h : Inv s) (hclean : s.clean) (hexp : s.server.keyIsExpired db key)
    (hmarks : ∀ m ∈ s.marks cid, (m.db, m.key) = (db, key) → m.changed = false) :
    ∃ s', s.effect (.write db key none) = some s' ∧
    execReply s'.server cid = execReply s.server cid := by
  have hstore : Linked (s.server.store db key none) := h.linked.of_places rfl fun _ => rfl
  obtain ⟨srv', hrun, hlinked, hsame, hall⟩ := touchWatchedKey_spec hstore db key
  have hgone : ∀ db' key', srv'.dbFind db' key' =
    if (db', key') = (db, key) then none else s.server.dbFind db' key' := by
    intro db' key'
    rw [hsame.dbFind, dbFind_store]
  have hkept : ∀ db' key', (db', key') ≠ (db, key) →
    srv'.keyIsExpired db' key' = s.server.keyIsExpired db' key' := by
    intro db' key' hne
    have hnow : srv'.now = s.server.now := hsame.now
    rw [Server.keyIsExpired, Server.keyIsExpired, hgone, if_neg hne, hnow]
  have hnot : srv'.keyIsExpired db key = false := keyIsExpired_of_none (by rw [hgone, if_pos rfl])
  have hclients := hall (.inl (by rw [dbFind_store, if_pos rfl])) cid
  change srv'.clients cid = if (flag (s.server.clients cid) db key).isSome
    then touched db key (s.server.clients cid) else s.server.clients cid at hclients
  refine ⟨_, by rw [State.effect, Server.apply, hrun, map_some], ?_⟩
  show execReply srv' cid = execReply s.server cid
  obtain ⟨hcov, hguard⟩ := h.marked hclean cid
  -- the mark has not changed, so the flag of a client that is not dirty is set
  have hset : (s.server.clients cid).dirtyCas = false →
    flag (s.server.clients cid) db key ≠ some false := by
    intro hdirty hflag
    obtain ⟨m, hm, hplace⟩ := hcov db key (by rw [hflag]; rfl)
    obtain ⟨e, he, hsound, _⟩ := hguard hdirty m hm
    obtain ⟨rfl, rfl⟩ := mk.inj hplace
    obtain rfl := some.inj (hflag.symm.trans he)
    simp [hexp, hmarks m hm rfl] at hsound
  have hclient : (srv'.clients cid).multi = (s.server.clients cid).multi ∧
    (srv'.clients cid).dirtyExec = (s.server.clients cid).dirtyExec ∧
    (srv'.clients cid).dirtyCas = (s.server.clients cid).dirtyCas ∧
    ((s.server.clients cid).dirtyCas = false →
      (srv'.clients cid).commands = (s.server.clients cid).commands ∧
      ∀ db' key', flag (srv'.clients cid) db' key' =
        if (db', key') = (db, key) then (flag (s.server.clients cid) db key).map fun _ => false
        else flag (s.server.clients cid) db' key') := by
    rw [hclients]
    cases hflag : flag (s.server.clients cid) db key with
    | none => exact ⟨rfl, rfl, rfl, fun _ => ⟨rfl, by grind⟩⟩
    | some e =>
      rw [isSome_some, if_pos rfl, touched, hflag]
      cases e with
      | true =>
        refine ⟨rfl, rfl, rfl, fun _ => ⟨rfl, fun db' key' => ?_⟩⟩
        rw [if_pos rfl, flag_setExpired, hflag]
      | false =>
        -- dirty before, dirty after
        have hdirty : (s.server.clients cid).dirtyCas := by
          by_contra hno
          exact hset (by simpa using hno) hflag
        exact ⟨rfl, rfl, hdirty.symm, fun hno => absurd (hdirty.symm.trans hno) (by simp)⟩
  obtain ⟨hmulti, hexec, hcas, hrest⟩ := hclient
  refine execReply_congr hmulti hexec hcas fun hdirty => ⟨(hrest hdirty).1, ?_⟩
  rw [Bool.eq_iff_iff, isWatchedKeyExpired_iff hlinked, isWatchedKeyExpired_iff h.linked]
  refine exists_congr fun db' => exists_congr fun key' => ?_
  rw [(hrest hdirty).2]
  by_cases hat : (db', key') = (db, key)
  · obtain ⟨rfl, rfl⟩ := mk.inj hat
    simp [hnot, hset hdirty]
  · rw [if_neg hat, hkept db' key' hat]

/-- `EXEC` as an optimistic check.  Whatever the clients do, as long as no write
puts a value under a key that is being watched as an expired one: a client one
of whose keys has changed since its `WATCH` gets no result from `EXEC`, and no
command of its queue is run; and the removal of an expired key does not change
the answer for a client that has not seen the key change. -/
theorem exec_is_optimistic_check (now dbnum : Nat) (keys : Keyspace V) (events : List (Event V)) :
    ∃ t, run step (start now dbnum keys) events = some t ∧ (t.clean = true → ∀ cid,
      ((∃ m ∈ t.marks cid, m.changed = true) →
        ∃ t' r, t.execCommand cid = some (t', r) ∧ (∀ n, r ≠ .array n) ∧
          t'.server.keys = t.server.keys) ∧
      ∀ db key, t.server.keyIsExpired db key = true →
        (∀ m ∈ t.marks cid, (m.db, m.key) = (db, key) → m.changed = false) →
        ∃ t', t.effect (.write db key none) = some t' ∧
          (t'.execCommand cid).map Prod.snd = (t.execCommand cid).map Prod.snd) := by
  obtain ⟨t, hrun, hinv⟩ := run_total' (fun s e hs => step_inv hs e) (inv_start now dbnum keys)
    events
  refine ⟨t, hrun, fun hclean cid => ⟨?_, ?_⟩⟩
  · rintro ⟨m, hm, hchanged⟩
    have hno := execReply_of_changed hinv hclean hm hchanged
    obtain ⟨t', hexec, _, hsame⟩ := execCommand_inv hinv cid
    exact ⟨t', _, hexec, hno, (hsame hno).keys⟩
  intro db key hexp hmarks
  obtain ⟨t', heffect, hreply⟩ := execReply_of_removal hinv hclean hexp hmarks
  obtain ⟨s', hs', hinv'⟩ := effect_inv hinv (.write db key none)
  rw [heffect, some.injEq] at hs'
  subst hs'
  obtain ⟨t₁, hexec₁, _⟩ := execCommand_inv hinv' cid
  obtain ⟨t₂, hexec₂, _⟩ := execCommand_inv hinv cid
  exact ⟨t', heffect, by rw [hexec₁, hexec₂, map_some, map_some, hreply]⟩

/-- Client 1 watches `k`, another client writes it. -/
def seenWrite : List (Event Nat) :=
  [.request 1 (.watch [ofString "k"]), .request 1 .multi,
    .effect (.write 0 (ofString "k") (some ⟨1, none⟩))]

theorem seenWrite_checked :
    ∃ t, run step (start 0 16 fun _ => ∅) seenWrite = some t ∧ t.clean = true ∧
      ∃ t' r, t.execCommand 1 = some (t', r) ∧ (∀ n, r ≠ .array n) ∧
        t'.server.keys = t.server.keys := by
  obtain ⟨t, hrun, hall⟩ := exec_is_optimistic_check 0 16 (fun _ => ∅) seenWrite
  have hseen : (run step (start 0 16 fun _ => ∅) seenWrite).map (fun t => (t.clean, t.marks 1)) =
      some (true, [⟨0, ofString "k", true⟩]) := by decide
  rw [hrun, map_some, some.injEq, mk.injEq] at hseen
  exact ⟨t, hrun, hseen.1, (hall hseen.1 1).1 ⟨_, by rw [hseen.2]; exact mem_singleton_self _,
    rfl⟩⟩

/-- A database in which `k` holds a value until time 0. -/
def staleKeys : Keyspace Nat := fun _ => AList.singleton (ofString "k") ⟨0, some 0⟩

/-- Client 1 watches `k`, which is expired, and queues a command.  Then `k` is
overwritten, as on a replica.  Client 2 watches the new value, and `k` is
overwritten again. -/
def missedWrites : List (Event Nat) :=
  [.request 1 (.watch [ofString "k"]), .request 1 .multi,
    .request 1 (.command (.data fun _ _ _ => [])),
    .effect (.write 0 (ofString "k") (some ⟨1, none⟩)),
    .request 2 (.watch [ofString "k"]), .request 2 .multi,
    .request 2 (.command (.data fun _ _ _ => [])),
    .effect (.write 0 (ofString "k") (some ⟨2, none⟩))]

/-- Both clients have seen their key change, and both queues are run: the loop
of `touchWatchedKey` ends at the watch of client 1. -/
theorem missedWrites_run : (run step (start 1 16 staleKeys) missedWrites).map (fun t =>
      (t.marks 1, (t.execCommand 1).map Prod.snd, t.marks 2, (t.execCommand 2).map Prod.snd)) =
    some ([⟨0, ofString "k", true⟩], some (.array 1), [⟨0, ofString "k", true⟩],
      some (.array 1)) := by
  decide

/-- Whatever the clients do, no list is looked for in vain, and the lists of the
databases and of the clients agree. -/
theorem watch_registry_consistent (now dbnum : Nat) (keys : Keyspace V) (events : List (Event V)) :
    ∃ t, run step (start now dbnum keys) events = some t ∧ Linked t.server := by
  obtain ⟨t, hrun, hinv⟩ := run_total' (fun s e hs => step_inv hs e) (inv_start now dbnum keys)
    events
  exact ⟨t, hrun, hinv.linked⟩

end Dice.Ports.OptimisticLocking
