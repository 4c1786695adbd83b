import Dice.Ports.BlockedRegistry

/-!
# The registry stays consistent

Serving a ready key executes commands, which signal further keys and may block
their client again on the very list that is being walked.  The loop visits the
clients that were in the list when it began.  Each of them is still where it
was when its turn comes, because serving a client touches no other client; this
is all the loop needs to know.
-/

namespace Dice.Ports.BlockedConsistency

open Option List

open Verified CString Table Index Run BlockedClients BlockedRegistry

variable {σ : Type}

/-- `signalKeyAsReadyLogic` does nothing or queues the key. -/
lemma signal_cases (srv : Server σ) (s : Signal) :
    signalKeyAsReadyLogic srv s = srv ∨ signalKeyAsReadyLogic srv s = { srv with
    ready := Function.update srv.ready s.db ((srv.ready s.db).insert s.key ())
    readyKeys := srv.readyKeys ++ [(s.db, s.key)] } := by
  unfold signalKeyAsReadyLogic
  simp only
  repeat' split
  all_goals first | exact .inl rfl | exact .inr rfl

/-- `signalKeyAsReadyLogic` only queues. -/
lemma signal_fields (srv : Server σ) (s : Signal) : ∃ ready readyKeys,
    signalKeyAsReadyLogic srv s = { srv with ready := ready, readyKeys := readyKeys } := by
  rcases signal_cases srv s with heq | heq
  · exact ⟨_, _, heq⟩
  · exact ⟨_, _, heq⟩

lemma signals_fields (signals : List Signal) (srv : Server σ) : ∃ ready readyKeys,
    signals.foldl signalKeyAsReadyLogic srv =
    { srv with ready := ready, readyKeys := readyKeys } := by
  induction signals generalizing srv with
  | nil => exact ⟨_, _, rfl⟩
  | cons s signals ih =>
    obtain ⟨ready, readyKeys, heq⟩ := signal_fields srv s
    rw [foldl_cons, heq]
    exact ih _

variable {srv : Server σ} {cid : ClientId} {c : Client} {key : Bytes} {pos : NodeId}

lemma consistent_queues (h : Consistent srv) (data : σ)
    (ready : DbId → Dict Bytes Unit) (readyKeys : List (DbId × Bytes)) :
    Consistent { srv with data := data, ready := ready, readyKeys := readyKeys } :=
  { h with }

/-- Only client `cid` has changed. -/
def Others (srv srv' : Server σ) (cid : ClientId) : Prop :=
  ∀ cid', cid' ≠ cid → srv'.clients.lookup cid' = srv.clients.lookup cid'

lemma Others.of_insert {srv' : Server σ}
    (h : srv'.clients = srv.clients.insert cid c) : Others srv srv' cid := by
  intro cid' hne
  rw [h, lookup_insert_eq, if_neg hne]

lemma Others.trans {a b c : Server σ} (hab : Others a b cid)
    (hbc : Others b c cid) : Others a c cid :=
  fun cid' hne => (hbc cid' hne).trans (hab cid' hne)

lemma processCommand_spec (h : Consistent (srv.put cid c)) (hfree : c.blocked = false) (r : Ran σ) :
    ∃ srv' c', processCommand srv cid c r = some srv' ∧ Consistent srv' ∧
    srv'.clients = srv.clients.insert cid c' := by
  obtain ⟨ready, readyKeys, heq⟩ := signals_fields r.signals { srv with data := r.data }
  have hput : Consistent (Server.put { srv with
    data := r.data, ready := ready, readyKeys := readyKeys } cid c) :=
    consistent_queues h r.data ready readyKeys
  unfold processCommand
  simp only [heq]
  cases r.block with
  | none => exact ⟨_, c, rfl, hput, rfl⟩
  | some b =>
    by_cases hb : b.fits c
    · simp only [if_pos hb]
      obtain ⟨srv', c', hrun, hcons, hblocks⟩ := blockForKeys_spec hput hfree hb
      exact ⟨srv', c', hrun, hcons, hblocks.clients⟩
    · simp only [if_neg hb]
      exact ⟨_, c, rfl, hput, rfl⟩

/-- What happens to clients that are not blocked while the keys stay as they
are: nothing is signalled, clients only leave lists, and those that are blocked
in the end are as they were. -/
structure Settles (srv srv' : Server σ) : Prop where
  consistent : Consistent srv'
  data : srv'.data = srv.data
  ready : srv'.ready = srv.ready
  readyKeys : srv'.readyKeys = srv.readyKeys
  shorter : Shorter srv.blockingKeys srv'.blockingKeys
  blocked : ∀ cid c, srv'.clients.lookup cid = some c → c.blocked = true →
    srv.clients.lookup cid = some c

lemma Settles.refl (h : Consistent srv) : Settles srv srv :=
  ⟨h, rfl, rfl, rfl, Shorter.refl _, fun _ _ hc _ => hc⟩

lemma Settles.trans {a b c : Server σ} (hab : Settles a b) (hbc : Settles b c) : Settles a c where
  consistent := hbc.consistent
  data := hbc.data.trans hab.data
  ready := hbc.ready.trans hab.ready
  readyKeys := hbc.readyKeys.trans hab.readyKeys
  shorter := hab.shorter.trans hbc.shorter
  blocked cid x hx hb := hab.blocked cid x (hbc.blocked cid x hx hb) hb

/-- A client that is not blocked comes, changes or goes. -/
lemma settles_idle {clients : Dict ClientId Client} {queue : List ClientId} (h : Consistent srv)
    (new : Option Client)
    (hnew : ∀ id, clients.lookup id = if id = cid then new else srv.clients.lookup id)
    (hold : ∀ c, srv.clients.lookup cid = some c → c.blocked = false)
    (hidle : ∀ c, new = some c → c.blocked = false ∧ Well c)
    (hqueue : ∀ id ∈ srv.unblockedClients, id ≠ cid → id ∈ queue)
    (hqueued : ∀ c, new = some c → c.unblocked → cid ∈ queue) :
    Settles srv { srv with clients := clients, unblockedClients := queue } where
  consistent := h.alike new hnew (alike_idle (fun c hc => ⟨hold c hc, h.well cid c hc⟩) hidle)
    (fun c hc => (hidle c hc).2) hqueue hqueued
  data := rfl
  ready := rfl
  readyKeys := rfl
  shorter := Shorter.refl _
  blocked id c hc hb := by
    have hfree := hidle c
    grind

section

variable (B : Behaviour σ) (h : Consistent srv) (hc : srv.clients.lookup cid = some c)

include h hc

lemma settles_put (c' : Client) (hfree : c.blocked = false) (hidle : c'.blocked = false ∧ Well c')
    (hflag : c'.unblocked → c.unblocked) : Settles srv (srv.put cid c') := by
  refine settles_idle h (some c') (lookup_insert_eq _ _ · _) ?_ ?_ (fun id hid _ => hid) ?_
  · intro x hx
    rwa [← some.inj (hc.symm.trans hx)]
  · rintro _ ⟨⟩
    exact hidle
  · rintro _ ⟨⟩ hset
    exact h.queued cid c hc (hflag hset)

lemma afterReexecution_spec : ∃ c' queue, afterReexecution srv cid =
      some { srv.put cid c' with unblockedClients := queue } ∧ c'.blocked = c.blocked ∧
    Consistent { srv.put cid c' with unblockedClients := queue } := by
  rw [afterReexecution, hc, map_some]
  dsimp only
  split
  · exact ⟨_, srv.unblockedClients, rfl, rfl, h.put hc _ rfl⟩
  next hfree =>
  rw [Bool.not_eq_true] at hfree
  split
  · exact ⟨_, srv.unblockedClients, rfl, rfl, (settles_put h hc
      { c with reexecutingCommand := false, db := 0 } hfree ⟨hfree, h.well cid c hc⟩ id).consistent⟩
  · obtain ⟨flag, queue, heq, hcons⟩ := queue_spec
      (h.put hc { c with reexecutingCommand := false } rfl)
    exact ⟨_, queue, congrArg some heq, rfl, heq ▸ hcons⟩

lemma reexecute_spec (hfree : c.blocked = false) :
    ∃ srv', reexecute B srv cid = some srv' ∧ Consistent srv' ∧ Others srv srv' cid := by
  rw [reexecute, hc, bind_some]
  by_cases hp : c.pendingCommand
  · rw [if_pos hp]
    obtain ⟨srv1, c1, hrun1, hcons1, hclients1⟩ := processCommand_spec (h.put hc
      { c with pendingCommand := false, reexecutingCommand := true } rfl) hfree
      (B.exec cid srv.data)
    have hc1 : srv1.clients.lookup cid = some c1 := by rw [hclients1]; simp
    obtain ⟨c2, queue, hrun2, -, hcons2⟩ := afterReexecution_spec hcons1 hc1
    exact ⟨_, by rw [hrun1]; exact hrun2, hcons2,
      (Others.of_insert hclients1).trans (Others.of_insert rfl)⟩
  · rw [if_neg hp]
    exact ⟨srv, rfl, h, fun _ _ => rfl⟩

omit h hc in
lemma consistent_released (h : Consistent srv)
    (hc : srv.clients.lookup cid = some c) (hblocked : c.blocked)
    (hkey : c.keys.lookup key = some pos) :
    ∃ srv1, releaseBlockedEntry srv cid c key pos = some srv1 ∧
    Consistent (srv1.put cid { c with keys := c.keys.erase key }) ∧
    srv1.clients = srv.clients ∧ srv1.data = srv.data ∧ srv1.ready = srv.ready ∧
    srv1.readyKeys = srv.readyKeys ∧ Shorter srv.blockingKeys srv1.blockingKeys := by
  have hput := h.put hc c rfl
  have hholds : ∀ cid' db' key', held (srv.clients.insert cid
    { c with keys := c.keys.erase key }) cid' db' key' =
    if cid' = cid ∧ db' = c.db ∧ key' = key then none
    else held (srv.clients.insert cid c) cid' db' key' := by
    grind
  obtain ⟨blocking, counts, hrun, hreg, hshort⟩ := releaseBlockedEntry_spec
    (show Registered srv.blockingKeys srv.unblockOnNokey (held (srv.clients.insert cid c)) _ from
      hput.registered) (by rw [held_insert, if_pos rfl, if_pos rfl]; exact hkey)
    (by simp [Server.put, wish_insert]) hholds
  refine ⟨_, hrun, hput.change _ (lookup_reinsert srv.clients cid c _)
    (hreg.congr (fun _ _ _ => rfl) ?_) (hput.ordered.shorter hshort) ?_ ?_ ?_
    (fun id hid _ => hid) ?_, rfl, rfl, rfl, rfl, hshort⟩
  · intro cid' db' key' _
    exact (wish_insert _ _ _ _).trans (wish_insert srv.clients cid cid' c).symm
  · rintro _ ⟨⟩
    exact ⟨fun hno => absurd (hblocked.symm.trans hno) (by simp), (h.well cid c hc).2⟩
  · intro t
    simp [Server.put, countedAs]
    rfl
  · intro id hid
    by_cases heq : id = cid
    · have hmodule := h.handles id hid
      rw [heq, hc] at hmodule
      exact .inr ⟨heq, hmodule⟩
    · exact .inl ⟨heq, hid⟩
  · rintro _ ⟨⟩
    exact h.queued cid c hc

lemma unblockClientOnKey_spec (hblocked : c.blocked) (hmodule : c.btype ≠ .module)
    (hkey : c.keys.lookup key = some pos) :
    ∃ srv', unblockClientOnKey B srv cid c key = some srv' ∧ Consistent srv' ∧
    Others srv srv' cid := by
  obtain ⟨srv1, hrun1, hcons1, hclients1, -⟩ := consistent_released h hc hblocked hkey
  have hdata : c.btype = .stream ∨ c.btype = .list ∨ c.btype = .zset := by
    have hkeys := (h.well cid c hc).2 hblocked
    cases hb : c.btype <;> simp_all [BlockType.onKeys]
  have hput : Consistent ((srv1.put cid { c with keys := c.keys.erase key }).put cid
    { c with keys := c.keys.erase key }) := hcons1.put (AList.lookup_insert _) _ rfl
  obtain ⟨srv2, flag, hrun2, hcons2, hun⟩ := unblockClient_spec hput hblocked false
  obtain ⟨srv', hrun', hcons', hothers⟩ :=
    reexecute_spec B hcons2 (by rw [hun.clients, AList.lookup_insert]) rfl
  refine ⟨srv', ?_, hcons', ?_⟩
  · simp [unblockClientOnKey, hkey, hrun1, hdata, hrun2, hrun']
  have hfirst : Others srv (srv1.put cid { c with keys := c.keys.erase key }) cid := by
    intro cid' hne
    simp only [Server.put]
    rw [lookup_insert_eq, if_neg hne, hclients1]
  exact (hfirst.trans (Others.of_insert hun.clients)).trans hothers

lemma moduleUnblockClientOnKey_spec (hblocked : c.blocked) (hmodule : c.btype = .module)
    (key : Bytes) :
    Consistent (moduleUnblockClientOnKey B srv cid c key) ∧
    Others srv (moduleUnblockClientOnKey B srv cid c key) cid := by
  unfold moduleUnblockClientOnKey
  by_cases hu : c.handleUnblocked
  · rw [if_pos hu]
    exact ⟨h, fun _ _ => rfl⟩
  rw [if_neg hu]
  obtain ⟨ready, readyKeys, heq⟩ := signals_fields (B.serve cid key srv.data).1.signals
    { srv with data := (B.serve cid key srv.data).1.data }
  have hq := consistent_queues h (B.serve cid key srv.data).1.data ready readyKeys
  simp only [heq]
  by_cases hs : (B.serve cid key srv.data).2
  · simp only [hs]
    refine ⟨?_, Others.of_insert rfl⟩
    have hput := hq.put hc { c with handleUnblocked := true } rfl
    refine { hput with handles := fun id hid => ?_ }
    rcases mem_append.mp hid with hid | hid
    · exact hput.handles id hid
    · rw [mem_singleton.mp hid]
      simp [Server.put, countedAs, hblocked, hmodule]
  · simp only [hs]
    exact ⟨hq, fun _ _ => rfl⟩

end

lemma blocked_of_held (h : Consistent srv) {db : DbId}
    (hheld : held srv.clients cid db key = some pos) :
    ∃ c, srv.clients.lookup cid = some c ∧ c.blocked ∧ c.db = db ∧
    c.keys.lookup key = some pos := by
  unfold held at hheld
  cases hc : srv.clients.lookup cid with
  | none => simp [hc] at hheld
  | some c =>
    rw [hc, bind_some] at hheld
    split at hheld
    · next hdb =>
      refine ⟨c, rfl, ?_, hdb, hheld⟩
      by_contra hno
      rw [((h.well cid c hc).1 (by simpa using hno)).1] at hheld
      simp at hheld
    · exact absurd hheld (by simp)

section Loops

variable (typeOf : σ → DbId → Bytes → Option ObjType) (B : Behaviour σ)

/-- The loop of `handleClientsBlockedOnKey`: the clients whose turn is to come
still hold the key. -/
lemma serveClients_spec (db : DbId) (key : Bytes) {ws : List Waiter} :
    ∀ {srv : Server σ}, Consistent srv → (ws.map Waiter.cid).Nodup →
    (∀ w ∈ ws, held srv.clients w.cid db key = some w.node) →
    ∃ srv', serveClients typeOf B db key srv ws = some srv' ∧ Consistent srv' := by
  induction ws with
  | nil =>
    intro srv h _ _
    exact ⟨srv, rfl, h⟩
  | cons w ws ih =>
    intro srv h hnd hheld
    rw [map_cons, nodup_cons] at hnd
    obtain ⟨c, hc, hblocked, -, hkey⟩ := blocked_of_held h (hheld w (by simp))
    -- whatever happens to the first client, the others keep what they hold
    have hnext : ∀ srv1, Consistent srv1 → Others srv srv1 w.cid →
      ∃ srv', serveClients typeOf B db key srv1 ws = some srv' ∧ Consistent srv' := by
      intro srv1 h1 hothers
      refine ih h1 hnd.2 ?_
      intro w' hw'
      have hne : w'.cid ≠ w.cid := fun heq => hnd.1 (heq ▸ mem_map_of_mem hw')
      rw [held, hothers w'.cid hne]
      exact hheld w' (by simp [hw'])
    rw [serveClients, hc, bind_some]
    by_cases hserves : serves (typeOf srv.data db key) c
    · rw [if_pos hserves]
      by_cases hmodule : c.btype = .module
      · rw [if_neg (by simp [hmodule])]
        obtain ⟨h1, hothers⟩ := moduleUnblockClientOnKey_spec B h hc hblocked hmodule key
        exact hnext _ h1 hothers
      rw [if_pos hmodule]
      obtain ⟨srv1, hrun, h1, hothers⟩ := unblockClientOnKey_spec B h hc hblocked hmodule hkey
      rw [hrun]
      exact hnext srv1 h1 hothers
    · rw [if_neg hserves]
      exact hnext srv h fun _ _ => rfl

lemma nodup_cids (h : Consistent srv) (db : DbId) (key : Bytes) :
    ((members (srv.blockingKeys db) key).map Waiter.cid).Nodup := by
  refine List.Nodup.map_on ?_ ((h.registered.tidy db).nodup key)
  rintro ⟨n1, c1⟩ h1 ⟨n2, c2⟩ h2 heq
  have heq' : c1 = c2 := heq
  subst heq'
  rw [h.registered.mem] at h1 h2
  rw [h1, some.injEq] at h2
  rw [h2]

lemma handleReady_spec (ready : List (DbId × Bytes)) : ∀ {srv : Server σ}, Consistent srv →
    ∃ srv', handleReady typeOf B srv ready = some srv' ∧ Consistent srv' := by
  induction ready with
  | nil =>
    intro srv h
    exact ⟨srv, rfl, h⟩
  | cons entry ready ih =>
    obtain ⟨db, key⟩ := entry
    intro srv h
    have h0 : Consistent { srv with
      ready := Function.update srv.ready db ((srv.ready db).erase key) } :=
      consistent_queues h srv.data _ srv.readyKeys
    obtain ⟨srv1, hrun, h1⟩ := serveClients_spec typeOf B db key h0 (nodup_cids h0 db key)
      (fun w hw => (h0.registered.mem db key w.node w.cid).mp hw)
    obtain ⟨srv', hrun', h'⟩ := ih h1
    refine ⟨srv', ?_, h'⟩
    rw [handleReady, handleClientsBlockedOnKey, hrun]
    exact hrun'

lemma handleClientsBlockedOnKeys_spec (fuel : Nat) : ∀ {srv : Server σ}, Consistent srv →
    ∃ srv', handleClientsBlockedOnKeys typeOf B fuel srv = some srv' ∧ Consistent srv' := by
  induction fuel with
  | zero =>
    intro srv h
    exact ⟨srv, rfl, h⟩
  | succ fuel ih =>
    intro srv h
    rw [handleClientsBlockedOnKeys]
    by_cases hnil : srv.readyKeys = []
    · rw [if_pos hnil]
      exact ⟨srv, rfl, h⟩
    rw [if_neg hnil]
    have h0 : Consistent { srv with readyKeys := [] } := consistent_queues h srv.data srv.ready []
    obtain ⟨srv1, hrun, h1⟩ := handleReady_spec typeOf B srv.readyKeys h0
    rw [hrun]
    exact ih h1

end Loops

/-! ## Every event -/

section

variable (h : Consistent srv) (hc : srv.clients.lookup cid = some c)

include h hc

/-- `unblockClient`, called from outside. -/
lemma unblock_settles (c1 : Client) (hrole : role c1 = role c) (hblocked : c.blocked) :
    ∃ srv' c', unblockClient srv cid c1 true = some srv' ∧ Settles srv srv' ∧
    srv'.clients.lookup cid = some c' ∧ c'.blocked = false := by
  have hblocked1 : c1.blocked := (congrArg (·.2.2.1) hrole).trans hblocked
  obtain ⟨srv', flag, hrun, hcons, hun⟩ := unblockClient_spec (h.put hc c1 hrole) hblocked1 true
  refine ⟨srv', _, hrun, ⟨hcons, hun.data, hun.ready, hun.readyKeys, hun.shorter, ?_⟩,
    by rw [hun.clients, AList.lookup_insert], rfl⟩
  intro id x hx hb
  rw [hun.clients] at hx
  grind [freed]

lemma unblockClientOnTimeout_spec (hblocked : c.blocked) :
    ∃ srv', unblockClientOnTimeout srv cid c = some srv' ∧ Settles srv srv' := by
  unfold unblockClientOnTimeout
  split
  · exact ⟨srv, rfl, .refl h⟩
  · obtain ⟨srv', -, hrun, hsettles, -⟩ := unblock_settles h hc
      { c with pendingCommand := false } rfl hblocked
    exact ⟨srv', hrun, hsettles⟩

lemma unlinkClient_spec (hfree : c.blocked = false) :
    ∃ srv', unlinkClient srv cid c = some srv' ∧ Settles srv srv' := by
  have hgone : ∀ queue, (∀ id ∈ srv.unblockedClients, id ≠ cid → id ∈ queue) →
    Settles srv { srv with clients := srv.clients.erase cid, unblockedClients := queue } :=
    fun queue hqueue => settles_idle h none (lookup_erase_eq srv.clients cid)
      (fun x hx => by rwa [← some.inj (hc.symm.trans hx)]) (by simp) hqueue (by simp)
  unfold unlinkClient
  split
  · exact ⟨_, rfl, hgone _ fun id hid _ => hid⟩
  next hflag =>
  rw [if_pos (h.queued cid c hc (by simpa using hflag))]
  exact ⟨_, rfl, hgone _ fun id hid hne => (mem_erase_of_ne hne).mpr hid⟩

lemma freeClient_spec : ∃ srv', freeClient srv cid c = some srv' ∧ Settles srv srv' := by
  unfold freeClient
  by_cases hblocked : c.blocked
  · obtain ⟨srv1, c1, hrun, hsettles, hc1, hfree⟩ := unblock_settles h hc c rfl hblocked
    obtain ⟨srv', hrun', hgone⟩ := unlinkClient_spec hsettles.consistent hc1 hfree
    rw [if_pos hblocked, hrun, bind_some, hc1]
    exact ⟨srv', hrun', hsettles.trans hgone⟩
  · rw [if_neg hblocked, bind_some, hc]
    exact unlinkClient_spec h hc (by simpa using hblocked)

lemma consistent_processUnblocked {rest : List ClientId}
    (hlist : srv.unblockedClients = cid :: rest) :
    Consistent (processUnblockedClient srv cid c rest) := by
  have hrest : ∀ id ∈ srv.unblockedClients, id ≠ cid → id ∈ rest :=
    fun id hid hne => (mem_cons.mp (hlist ▸ hid)).resolve_left hne
  have hwell := h.well cid c hc
  have hput : ∀ c' : Client, c'.unblocked = false → Well c' → Alike (some c) (some c') →
    Consistent ({ srv with unblockedClients := rest }.put cid c') := by
    intro c' hflag hwell' halike
    refine h.alike (some c') (lookup_insert_eq _ _ · _) (hc ▸ halike) ?_ hrest ?_
    · rintro _ ⟨⟩
      exact hwell'
    · rintro _ ⟨⟩ hset
      simp [hflag] at hset
  unfold processUnblockedClient
  dsimp only
  split
  next hfree =>
    rw [Bool.not_eq_true] at hfree
    refine hput _ rfl hwell (alike_idle ?_ ?_)
    · rintro _ ⟨⟩
      exact ⟨hfree.2, hwell⟩
    · rintro _ ⟨⟩
      exact ⟨hfree.2, hwell⟩
  · exact hput _ rfl hwell ⟨fun _ _ => rfl, rfl, fun _ => rfl⟩

end

/-- The events that change no key and signal nothing. -/
def Event.quiet : Event σ → Bool
  | .connect .. | .select .. | .timeout _ | .unblock .. | .release _ => true
  | _ => false

lemma withClient_spec (cid : ClientId) {f : Client → Option (Server σ)} {P : Server σ → Prop}
    (hsame : P srv) (hf : ∀ c, srv.clients.lookup cid = some c → ∃ srv', f c = some srv' ∧ P srv') :
    ∃ srv', srv.withClient cid f = some srv' ∧ P srv' := by
  unfold Server.withClient
  cases hc : srv.clients.lookup cid with
  | none => exact ⟨srv, rfl, hsame⟩
  | some c => exact hf c hc

section

variable (h : Consistent srv)

include h

lemma step_settles (typeOf : σ → DbId → Bytes → Option ObjType) {e : Event σ}
    (hquiet : Event.quiet e) : ∃ srv', step typeOf srv e = some srv' ∧ Settles srv srv' := by
  cases e with
  | connect cid isModule primary =>
    rw [step]
    split
    · exact ⟨srv, rfl, .refl h⟩
    next hnew =>
    refine ⟨_, rfl, settles_idle h _ (lookup_insert_eq _ _ · _) ?_ ?_ (fun id hid _ => hid) ?_⟩
    · simp_all
    · rintro _ ⟨⟩
      exact ⟨rfl, fun _ => ⟨rfl, rfl⟩, nofun⟩
    · rintro _ ⟨⟩
      exact nofun
  | select cid db =>
    refine withClient_spec cid (.refl h) fun c hc => ⟨_, rfl, ?_⟩
    split
    · exact .refl h
    next hfree =>
    rw [Bool.not_eq_true] at hfree
    exact settles_put h hc { c with db } hfree ⟨hfree, h.well cid c hc⟩ id
  | timeout cid =>
    refine withClient_spec cid (.refl h) fun c hc => ?_
    split
    next hok => exact unblockClientOnTimeout_spec h hc hok.1
    · exact ⟨srv, rfl, .refl h⟩
  | unblock cid error =>
    refine withClient_spec cid (.refl h) fun c hc => ?_
    split
    next hok =>
      cases error with
      | true =>
        obtain ⟨srv', -, hrun, hsettles, -⟩ := unblock_settles h hc
          { c with pendingCommand := false } rfl hok.1
        exact ⟨srv', hrun, hsettles⟩
      | false => exact unblockClientOnTimeout_spec h hc hok.1
    · exact ⟨srv, rfl, .refl h⟩
  | release cid => exact withClient_spec cid (.refl h) fun c hc => freeClient_spec h hc
  | _ => exact absurd hquiet (by simp [Event.quiet])

/-- Every event keeps the registry consistent, and fails no assertion. -/
lemma step_consistent (typeOf : σ → DbId → Bytes → Option ObjType) (e : Event σ) :
    ∃ srv', step typeOf srv e = some srv' ∧ Consistent srv' := by
  cases e with
  | data d => exact ⟨_, rfl, consistent_queues h d srv.ready srv.readyKeys⟩
  | block cid b =>
    refine withClient_spec cid h fun c hc => ?_
    split
    · exact ⟨srv, rfl, h⟩
    next hno =>
    rw [not_or, not_not, Bool.not_eq_true] at hno
    obtain ⟨srv', c', hrun, hcons, -⟩ := blockForKeys_spec (h.put hc c rfl) hno.1 hno.2
    exact ⟨srv', hrun, hcons⟩
  | signal s =>
    obtain ⟨ready, readyKeys, heq⟩ := signal_fields srv s
    exact ⟨_, rfl, heq ▸ consistent_queues h srv.data ready readyKeys⟩
  | handle B fuel => exact handleClientsBlockedOnKeys_spec typeOf B fuel h
  | moduleHandle =>
    rw [step]
    cases hlist : srv.moduleUnblockedClients with
    | nil => exact ⟨srv, rfl, h⟩
    | cons cid rest =>
      obtain ⟨c, hc, hmodule⟩ := (Option.any_eq_true _ _).mp (h.handles cid (by rw [hlist]; simp))
      have hrest : Consistent { srv with moduleUnblockedClients := rest } :=
        { h with handles := fun id hid => h.handles id (by rw [hlist]; simp [hid]) }
      obtain ⟨srv', -, hrun, hsettles, -⟩ := unblock_settles hrest hc c rfl (by
        rw [countedAs, Bool.and_eq_true] at hmodule
        exact hmodule.1)
      refine ⟨srv', ?_, hsettles.consistent⟩
      simp only [moduleHandleBlockedClient, hc]
      exact hrun
  | processUnblocked =>
    rw [step]
    cases hlist : srv.unblockedClients with
    | nil => exact ⟨srv, rfl, h⟩
    | cons cid rest =>
      exact withClient_spec cid h fun c hc => ⟨_, rfl, consistent_processUnblocked h hc hlist⟩
  | _ => exact (step_settles h typeOf rfl).imp fun _ hs => ⟨hs.1, hs.2.consistent⟩

/-- The number of clients blocked on a key that want to know when it goes. -/
def waitingForNokey (srv : Server σ) (db : DbId) (key : Bytes) : Nat :=
  countValues (fun c => decide (c.db = db) && (c.keys.lookup key).isSome && c.unblockOnNokey)
    srv.clients

lemma countP_eq_waiting (db : DbId) (key : Bytes) :
    (members (srv.blockingKeys db) key).countP (fun w => wish srv.clients w.cid) =
    waitingForNokey srv db key := by
  have hlist := nodup_cids h db key
  have hnd : (((members (srv.blockingKeys db) key).filter fun w =>
    wish srv.clients w.cid).map Waiter.cid).Nodup := hlist.sublist (filter_sublist.map _)
  rw [waitingForNokey, countValues_eq_length hnd, length_map, countP_eq_length_filter]
  intro cid
  rw [List.mem_map]
  constructor
  · rintro ⟨w, hw, rfl⟩
    rw [mem_filter] at hw
    obtain ⟨c, hc, -, hdb, hkey⟩ :=
      blocked_of_held h ((h.registered.mem db key w.node w.cid).mp hw.1)
    have hwish : c.unblockOnNokey := by simpa [wish, hc] using hw.2
    exact ⟨c, hc, by simp [hdb, hkey, hwish]⟩
  rintro ⟨c, hc, hp⟩
  rw [Bool.and_eq_true, Bool.and_eq_true, decide_eq_true_eq] at hp
  obtain ⟨⟨hdb, hsome⟩, hwish⟩ := hp
  obtain ⟨node, hnode⟩ := isSome_iff_exists.mp hsome
  refine ⟨⟨node, cid⟩, mem_filter.mpr ⟨?_, by simp [wish, hc, hwish]⟩, rfl⟩
  rw [h.registered.mem, held, hc, bind_some, if_pos hdb]
  exact hnode

/-- A client occurs once in the lists of the keys it holds, and in no other. -/
lemma count_cid (hc : srv.clients.lookup cid = some c) (db : DbId) (key : Bytes) :
    ((members (srv.blockingKeys db) key).map Waiter.cid).count cid =
    if c.db = db ∧ (c.keys.lookup key).isSome then 1 else 0 := by
  have hmem : cid ∈ (members (srv.blockingKeys db) key).map Waiter.cid ↔
    c.db = db ∧ (c.keys.lookup key).isSome := by
    rw [List.mem_map]
    constructor
    · rintro ⟨w, hw, rfl⟩
      obtain ⟨c', hc', -, hdb, hkey⟩ :=
        blocked_of_held h ((h.registered.mem db key w.node w.cid).mp hw)
      rw [hc, some.injEq] at hc'
      subst hc'
      exact ⟨hdb, by rw [hkey]; rfl⟩
    rintro ⟨hdb, hsome⟩
    obtain ⟨node, hnode⟩ := isSome_iff_exists.mp hsome
    refine ⟨⟨node, cid⟩, ?_, rfl⟩
    rw [h.registered.mem, held, hc, bind_some, if_pos hdb]
    exact hnode
  rw [(nodup_cids h db key).count]
  simp [hmem]

end

/-- The registry of blocked clients after any sequence of events: a client is
in the list of a key once if it holds the key, at the node it holds, and not at
all otherwise; no list is empty; the counter of a key is the number of clients
that wait for it to go, and absent if there is none; the counters of the server
are the numbers of blocked clients, of all but module clients and by type. -/
theorem registry_consistent (typeOf : σ → DbId → Bytes → Option ObjType) (data : σ)
    (events : List (Event σ)) :
    ∃ t, run (step typeOf) (start data) events = some t ∧
      (∀ cid c, t.clients.lookup cid = some c → ∀ db key,
        (((members (t.blockingKeys db) key).map Waiter.cid).count cid =
          if c.db = db ∧ (c.keys.lookup key).isSome = true then 1 else 0) ∧
        ∀ node, ⟨node, cid⟩ ∈ members (t.blockingKeys db) key ↔
          c.db = db ∧ c.keys.lookup key = some node) ∧
      (∀ db key, (t.blockingKeys db).lookup key ≠ some []) ∧
      (∀ db key, (t.unblockOnNokey db).lookup key = if waitingForNokey t db key = 0 then none
        else some (waitingForNokey t db key : Int)) ∧
      t.blockedClients = countValues (fun c => c.blocked && !c.isModule) t.clients ∧
      ∀ type, t.blockedClientsByType type =
        countValues (fun c => c.blocked && decide (c.btype = type)) t.clients := by
  obtain ⟨t, hrun, h⟩ := run_total' (fun s e hs => step_consistent hs typeOf e)
    (consistent_start data) events
  refine ⟨t, hrun, ?_, fun db key => (h.registered.tidy db).nonempty key, ?_, h.counters none,
    fun t => h.counters (some t)⟩
  · intro cid c hc db key
    refine ⟨count_cid h hc db key, fun node => ?_⟩
    rw [h.registered.mem, held, hc, bind_some]
    split
    · next hdb => simp [hdb]
    · next hdb => simp [hdb]
  · intro db key
    rw [h.registered.count, countP_eq_waiting h, tally]

/-- The client of a command that a module calls is blocked and not counted in
`server.blocked_clients`. -/
theorem moduleClient_not_counted : (run (step fun (_ : Unit) _ _ => none) (start ())
      [.connect 1 true false, .block 1 { btype := .list, keys := [ofString "k"] }]).map
      (fun t => (t.blockedClients, countValues Client.blocked t.clients)) = some (0, 1) := by
  decide

end Dice.Ports.BlockedConsistency
