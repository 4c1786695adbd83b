import Dice.Ports.BlockingLists

/-!
# Serving the clients of a list

Two facts carry the loop of `handleClientsBlockedOnKeys`.

`Live`: a key with an element and a waiting client is in one of the queues, so
it is still to be served.  The table of ready keys names no key that is in no
queue.

`Progress`: a client that is served gets one element, is not blocked any more
and leaves all lists; the others stay as they are.  So the number of blocked
clients falls whenever something is served, and the call ends.

The clients of a key are served in the order in which they blocked, as long as
every client waits for a single key.  A client of several keys takes an element
of the first that has one and may overtake the clients of that key.
-/

namespace Dice.Ports.BlockingListsServing

open AList

open List Verified CString Table Index Run BlockedClients BlockedRegistry
open BlockedConsistency BlockingLists

section Registry

variable {σ : Type}

variable {srv srv' : Server σ} {c : Client} {cid : ClientId} {todo : List (DbId × Bytes)}

lemma not_mem_of_free (h : Consistent srv) {w : Waiter}
    (hc : srv.clients.lookup w.cid = some c) (hfree : c.blocked = false) (db : DbId)
    (key : Bytes) : w ∉ members (srv.blockingKeys db) key := by
  intro hw
  obtain ⟨c', hc', hb, -⟩ := blocked_of_held h ((h.registered.mem db key w.node w.cid).mp hw)
  exact ne_of_blocked hc hfree hc' hb rfl

lemma mem_of_others (h : Consistent srv) (h' : Consistent srv')
    {w : Waiter} (hsame : srv'.clients.lookup w.cid = srv.clients.lookup w.cid) (db : DbId)
    (key : Bytes) :
    w ∈ members (srv'.blockingKeys db) key ↔ w ∈ members (srv.blockingKeys db) key := by
  obtain ⟨node, cid⟩ := w
  rw [h.registered.mem, h'.registered.mem, held, held]
  exact iff_of_eq (by rw [hsame])

lemma members_freed (h : Consistent srv) (h' : Consistent srv')
    (hshort : Shorter srv.blockingKeys srv'.blockingKeys)
    (hothers : Others srv srv' cid) (hc : srv'.clients.lookup cid = some c)
    (hfree : c.blocked = false) (db : DbId) (key : Bytes) :
    members (srv'.blockingKeys db) key =
    (members (srv.blockingKeys db) key).filter fun w => w.cid ≠ cid := by
  have hsub : List.Sublist (members (srv'.blockingKeys db) key)
    ((members (srv.blockingKeys db) key).filter fun w => w.cid ≠ cid) := by
    have hfilter := (hshort db key).filter fun w => decide (w.cid ≠ cid)
    rwa [filter_eq_self.mpr] at hfilter
    intro w hw
    rw [decide_eq_true_eq]
    rintro rfl
    exact not_mem_of_free h' hc hfree db key hw
  apply hsub.eq_of_length_le
  apply List.Subperm.length_le
  apply subperm_of_subset (((h.registered.tidy db).nodup key).filter _)
  intro w hw
  rw [mem_filter, decide_eq_true_eq] at hw
  exact (mem_of_others h h' (hothers w.cid hw.2) db key).mpr hw.1

/-- A command that does not block again takes effect: the signals it sends, and
the client is queued. -/
structure Reexecuted (srv : Server σ) (cid : ClientId) (r : Ran σ) (srv' : Server σ) : Prop where
  consistent : Consistent srv'
  clients : ∃ c', srv'.clients = srv.clients.insert cid c' ∧ c'.blocked = false
  blockingKeys : srv'.blockingKeys = srv.blockingKeys
  data : srv'.data = r.data
  ready : srv'.ready = (r.signals.foldl signalKeyAsReadyLogic { srv with data := r.data }).ready
  readyKeys : srv'.readyKeys =
    (r.signals.foldl signalKeyAsReadyLogic { srv with data := r.data }).readyKeys

section

variable (B : Behaviour σ) (h : Consistent srv) (hc : srv.clients.lookup cid = some c)

include h hc

lemma reexecute_served (hfree : c.blocked = false) (hpending : c.pendingCommand)
    (hblock : (B.exec cid srv.data).block = none) :
    ∃ srv', reexecute B srv cid = some srv' ∧ Reexecuted srv cid (B.exec cid srv.data) srv' := by
  obtain ⟨ready, readyKeys, heq⟩ := signals_fields (B.exec cid srv.data).signals
    { srv with data := (B.exec cid srv.data).data }
  have hput := consistent_queues (h.put hc
    { c with pendingCommand := false, reexecutingCommand := true } rfl)
    (B.exec cid srv.data).data ready readyKeys
  obtain ⟨c', queue, hafter, hfree', hcons⟩ := afterReexecution_spec hput (lookup_insert _)
  refine ⟨_, ?_, hcons, ⟨c', insert_insert _, hfree'.trans hfree⟩, rfl, rfl, ?_, ?_⟩
  · simp only [reexecute, hc, Option.bind_some, hpending, if_true, processCommand, heq, hblock]
    exact hafter
  · rw [heq]
    rfl
  · rw [heq]
    rfl

/-- `unblockClientOnKey` for a client whose command does not block again; it is
executed in a server `mid` in which the client is free. -/
lemma unblockClientOnKey_served (hblocked : c.blocked) (hlist : c.btype = .list)
    (hpending : c.pendingCommand) {key : Bytes} {pos : NodeId} (hkey : c.keys.lookup key = some pos)
    (hblock : (B.exec cid srv.data).block = none) :
    ∃ mid c1 srv', unblockClientOnKey B srv cid c key = some srv' ∧ Consistent mid ∧
    Unblocked srv cid c1 mid ∧ c1.blocked = false ∧
    Reexecuted mid cid (B.exec cid srv.data) srv' := by
  obtain ⟨srv1, hrun1, hcons1, hclients1, hdata1, hready1, hkeys1, hshort1⟩ :=
    consistent_released h hc hblocked hkey
  have hput : Consistent ((srv1.put cid { c with keys := c.keys.erase key }).put cid
    { c with keys := c.keys.erase key }) := hcons1.put (lookup_insert _) _ rfl
  obtain ⟨mid, flag, hrun2, hcons2, hun⟩ := unblockClient_spec hput hblocked false
  have hdata := hun.data.trans hdata1
  have hmid := congrArg (AList.lookup cid) hun.clients
  rw [lookup_insert] at hmid
  obtain ⟨srv', hrun3, hre⟩ := reexecute_served B hcons2 hmid rfl hpending
    (by rw [hdata]; exact hblock)
  rw [hdata] at hre
  have hclients := hun.clients.trans (insert_insert _)
  rw [hclients1] at hclients
  refine ⟨mid, _, srv', ?_, hcons2, ⟨hclients, hdata, hun.ready.trans hready1,
    hun.readyKeys.trans hkeys1, hshort1.trans hun.shorter⟩, rfl, hre⟩
  have hkind : c.btype = .stream ∨ c.btype = .list ∨ c.btype = .zset := .inr (.inl hlist)
  simp [unblockClientOnKey, hkey, hrun1, hkind, hrun2, hrun3]

end

/-- Every blocked client waits for a list. -/
def AllList (srv : Server σ) : Prop :=
  ∀ cid c, srv.clients.lookup cid = some c → c.blocked = true → c.btype = .list

/-- A key that is marked as ready is in a queue: still to be served in this
round, or in the next one. -/
def Queued (srv : Server σ) (todo : List (DbId × Bytes)) : Prop :=
  ∀ db key, ((srv.ready db).lookup key).isSome = true → (db, key) ∈ todo ++ srv.readyKeys

lemma queued_signal (h : Queued srv todo) (s : Signal) : Queued (signalKeyAsReadyLogic srv s) todo ∧
    ∀ e ∈ srv.readyKeys, e ∈ (signalKeyAsReadyLogic srv s).readyKeys := by
  rcases signal_cases srv s with heq | heq
  · rw [heq]
    exact ⟨h, fun _ he => he⟩
  rw [heq]
  refine ⟨?_, fun e he => mem_append_left _ he⟩
  intro db key hsome
  by_cases hat : db = s.db ∧ key = s.key
  · obtain ⟨rfl, rfl⟩ := hat
    simp
  have hold : ((srv.ready db).lookup key).isSome := by
    by_cases hdb : db = s.db
    · subst hdb
      simpa [show key ≠ s.key from fun hk => hat ⟨rfl, hk⟩] using hsome
    · simpa [hdb] using hsome
  have := h db key hold
  rw [← append_assoc]
  exact mem_append_left _ this

lemma signal_created (hcons : Consistent srv) (hlist : AllList srv)
    (h : Queued srv todo) {db : DbId} {key : Bytes}
    (hwait : members (srv.blockingKeys db) key ≠ []) :
    (db, key) ∈ todo ++ (signalKeyAsReadyLogic srv { db, key, type := .list }).readyKeys := by
  obtain ⟨w, hw⟩ := exists_mem_of_ne_nil _ hwait
  obtain ⟨c, hc, hblocked, -⟩ :=
    blocked_of_held hcons ((hcons.registered.mem db key w.node w.cid).mp hw)
  have hcount : srv.blockedClientsByType .list ≠ 0 := by
    have hsplit := countValues_erase (countedAs (some .list)) srv.clients hc
    have hcount : srv.blockedClientsByType .list = _ := hcons.counters (some .list)
    simp only [countedAs, hblocked, hlist w.cid c hc hblocked, decide_true, Bool.and_true,
      if_true] at hsplit hcount
    omega
  have hlook : (srv.blockingKeys db).lookup key ≠ none := by simp [lookup_of_mem hw]
  unfold signalKeyAsReadyLogic
  simp only [getBlockedTypeByType, reduceCtorEq, if_false, hcount, false_and, hlook, and_false]
  split
  · next hready => exact h db key hready
  · simp

lemma queued_signals (signals : List Signal)
    (hcons : Consistent srv) (hlist : AllList srv) (h : Queued srv todo) :
    Queued (signals.foldl signalKeyAsReadyLogic srv) todo ∧
    (∀ e ∈ srv.readyKeys, e ∈ (signals.foldl signalKeyAsReadyLogic srv).readyKeys) ∧
    ∀ db key, { db, key, type := .list } ∈ signals → members (srv.blockingKeys db) key ≠ [] →
      (db, key) ∈ todo ++ (signals.foldl signalKeyAsReadyLogic srv).readyKeys := by
  induction signals generalizing srv with
  | nil => exact ⟨h, fun _ he => he, fun _ _ hs => absurd hs (by simp)⟩
  | cons s signals ih =>
    obtain ⟨ready, readyKeys, heq⟩ := signal_fields srv s
    have hcons1 : Consistent (signalKeyAsReadyLogic srv s) := by
      rw [heq]
      exact consistent_queues hcons srv.data ready readyKeys
    have hlist1 : AllList (signalKeyAsReadyLogic srv s) := by
      rw [heq]
      exact hlist
    have hblocking : (signalKeyAsReadyLogic srv s).blockingKeys = srv.blockingKeys := by rw [heq]
    obtain ⟨hq, hmono⟩ := queued_signal h s
    obtain ⟨hq', hmono', hnew⟩ := ih hcons1 hlist1 hq
    refine ⟨hq', fun e he => hmono' e (hmono e he), ?_⟩
    intro db key hs hwait
    rcases mem_cons.mp hs with rfl | hs
    · have := signal_created hcons hlist h hwait
      rw [mem_append] at this ⊢
      exact this.imp_right (hmono' _)
    · exact hnew db key hs (by rw [hblocking]; exact hwait)

end Registry

/-- A blocked client waits for the keys of the command it sent last. -/
structure Waits (w : World) (cid : ClientId) (c : Client) : Prop where
  btype : c.btype = .list
  pending : c.pendingCommand = true
  nokey : c.unblockOnNokey = false
  command : ∃ cmd, w.argv.lookup cid = some (c.db, cmd) ∧
    ∀ key, (c.keys.lookup key).isSome = true ↔ key ∈ cmd.keys

/-- The invariant of the server, but for the queues. -/
structure Sane (srv : Server World) : Prop where
  consistent : Consistent srv
  filled : Filled srv.data
  waits : ∀ cid c, srv.clients.lookup cid = some c → c.blocked = true → Waits srv.data cid c

variable {srv srv' s t u : Server World} {todo : List (DbId × Bytes)} {but : DbId → Bytes → Prop}
  {new1 new2 : List Delivery} {ws : List Waiter} {db : DbId} {key : Bytes} {c : Client}
  {cid : ClientId}

lemma Sane.allList (h : Sane srv) : AllList srv := fun cid c hc hb => (h.waits cid c hc hb).btype

/-- A key with an element and a client is in a queue, or it is one of the keys
`but` that are being served. -/
structure Live (srv : Server World) (todo : List (DbId × Bytes)) (but : DbId → Bytes → Prop) :
    Prop where
  queued : Queued srv todo
  covered : ∀ db key, srv.data.elements db key ≠ [] → members (srv.blockingKeys db) key ≠ [] →
    (db, key) ∈ todo ++ srv.readyKeys ∨ but db key

/-- A command changes the lists and sends its signals, while clients may have
left the lists of the keys. -/
lemma Live.signals {mid : Server World} (h : Live srv todo but) (hcons : Consistent mid)
    (hlist : AllList mid) {signals : List Signal} (hready : mid.ready = srv.ready)
    (hkeys : mid.readyKeys = srv.readyKeys) (hshort : Shorter srv.blockingKeys mid.blockingKeys)
    (hsig : Signalled srv.data srv'.data signals) (hblocking : srv'.blockingKeys = mid.blockingKeys)
    (hready' : srv'.ready = (signals.foldl signalKeyAsReadyLogic mid).ready)
    (hkeys' : srv'.readyKeys = (signals.foldl signalKeyAsReadyLogic mid).readyKeys) :
    Live srv' todo but := by
  have hmid : Queued mid todo := by
    intro db key hsome
    rw [hkeys]
    exact h.queued db key (hready ▸ hsome)
  obtain ⟨hq, hmono, hnew⟩ := queued_signals signals hcons hlist hmid
  constructor
  · intro db key hsome
    rw [hkeys']
    exact hq db key (hready' ▸ hsome)
  intro db key hel hwait
  rw [hblocking] at hwait
  rw [hkeys']
  by_cases hold : srv.data.elements db key = []
  · exact .inl (hnew db key (hsig.created db key hold hel) hwait)
  have hwait' : members (srv.blockingKeys db) key ≠ [] := by
    intro hnil
    have hsub := hshort db key
    rw [hnil, sublist_nil] at hsub
    exact hwait hsub
  refine (h.covered db key hold hwait').imp_left fun hmem => ?_
  rw [mem_append] at hmem ⊢
  exact hmem.imp_right fun he => hmono _ (hkeys ▸ he)

/-! ## What a stretch of the call does -/

/-- The clients of the deliveries. -/
def served (new : List Delivery) : List ClientId := new.map Delivery.cid

/-- Everyone who blocked on the key before the client of a delivery has been
served before it. -/
def InOrder (srv : Server World) (new : List Delivery) : Prop :=
  ∀ pre d post, new = pre ++ d :: post →
    ∀ w ∈ members (srv.blockingKeys d.db) d.key, w.cid = d.cid →
      ∀ w' ∈ members (srv.blockingKeys d.db) d.key, w'.node < w.node → w'.cid ∈ served pre

/-- Between `s` and `t` the deliveries `new` were made. -/
structure Progress (s t : Server World) (new : List Delivery) : Prop where
  log : t.data.log = s.data.log ++ new
  balance : ∀ db key, (t.data.elements db key).length + (new.map (·.takes db key)).sum =
    (s.data.elements db key).length + (new.map (·.puts db key)).sum
  lists : ∀ db key, members (t.blockingKeys db) key =
    (members (s.blockingKeys db) key).filter fun w => w.cid ∉ served new
  others : ∀ cid, cid ∉ served new → t.clients.lookup cid = s.clients.lookup cid
  freed : ∀ d ∈ new, ∃ c, t.clients.lookup d.cid = some c ∧ c.blocked = false
  waited : ∀ d ∈ new, ∃ c, s.clients.lookup d.cid = some c ∧ c.blocked = true ∧ c.db = d.db ∧
    (c.keys.lookup d.key).isSome = true
  once : (served new).Nodup
  fewer : countValues Client.blocked t.clients + new.length = countValues Client.blocked s.clients

lemma Progress.refl (hdata : t.data = s.data)
    (hclients : t.clients = s.clients) (hlists : t.blockingKeys = s.blockingKeys) :
    Progress s t [] where
  log := by simp [hdata]
  balance db key := by simp [hdata]
  lists db key := by simp [hlists, served]
  others cid _ := by rw [hclients]
  freed d hd := absurd hd (by simp)
  waited d hd := absurd hd (by simp)
  once := nodup_nil
  fewer := by simp [hclients]

section

variable (h1 : Progress s t new1) (h2 : Progress t u new2)

include h1 h2

lemma Progress.not_again {d : Delivery} (hd : d ∈ new2) : d.cid ∉ served new1 := by
  intro hmem
  obtain ⟨d', hd', heq⟩ := mem_map.mp hmem
  obtain ⟨c, hc, hfree⟩ := h1.freed d' hd'
  obtain ⟨c', hc', hb, -⟩ := h2.waited d hd
  exact ne_of_blocked hc hfree hc' hb heq.symm
omit h1 h2 in
lemma served_append (new1 new2 : List Delivery) :
    served (new1 ++ new2) = served new1 ++ served new2 := map_append

lemma Progress.trans : Progress s u (new1 ++ new2) where
  log := by rw [h2.log, h1.log, append_assoc]
  balance db key := by
    have hb1 := h1.balance db key
    have hb2 := h2.balance db key
    simp only [map_append, sum_append]
    omega
  lists db key := by
    rw [h2.lists, h1.lists, filter_filter, served_append]
    apply filter_congr
    intro w _
    by_cases hw : w.cid ∈ served new1 <;> simp [hw]
  others cid hcid := by
    rw [served_append, mem_append, not_or] at hcid
    rw [h2.others cid hcid.2, h1.others cid hcid.1]
  freed d hd := by
    by_cases hagain : d.cid ∈ served new2
    · obtain ⟨d', hd', heq⟩ := mem_map.mp hagain
      rw [← heq]
      exact h2.freed d' hd'
    rcases mem_append.mp hd with hd | hd
    · rw [h2.others d.cid hagain]
      exact h1.freed d hd
    · exact h2.freed d hd
  waited d hd := by
    rcases mem_append.mp hd with hd | hd
    · exact h1.waited d hd
    · rw [← h1.others d.cid (h1.not_again h2 hd)]
      exact h2.waited d hd
  once := by
    rw [served_append]
    refine h1.once.append h2.once ?_
    intro cid hcid1 hcid2
    obtain ⟨d, hd, rfl⟩ := mem_map.mp hcid2
    exact h1.not_again h2 hd hcid1
  fewer := by
    have hf1 := h1.fewer
    have hf2 := h2.fewer
    rw [length_append]
    omega

omit h1 h2 in
/-- An element of two lists one after the other is in the first or in the
second. -/
lemma split_append {α : Type} {xs ys pre post : List α} {d : α}
    (h : xs ++ ys = pre ++ d :: post) : (∃ tail, xs = pre ++ d :: tail) ∨
    ∃ rest, pre = xs ++ rest ∧ ys = rest ++ d :: post := by
  rcases append_eq_append_iff.mp h with ⟨rest, hpre, hys⟩ | ⟨tail, hxs, htail⟩
  · exact .inr ⟨rest, hpre, hys⟩
  cases tail with
  | nil => exact .inr ⟨[], by simpa using hxs.symm, by simpa using htail.symm⟩
  | cons x tail =>
    rw [cons_append, cons.injEq] at htail
    exact .inl ⟨tail, by rw [hxs, htail.1]⟩

/-- The order of two stretches: who stood before a client of the second is
served in the first, or stands before it still. -/
lemma InOrder.append (ho1 : InOrder s new1) (ho2 : InOrder t new2) : InOrder s (new1 ++ new2) := by
  intro pre d post hsplit w hw hwd w' hw' hlt
  rcases split_append hsplit with ⟨tail, hnew1⟩ | ⟨rest, hpre, hnew2⟩
  · exact ho1 pre d tail hnew1 w hw hwd w' hw' hlt
  have hd : d ∈ new2 := by rw [hnew2]; simp
  have hlist : ∀ v ∈ members (s.blockingKeys d.db) d.key, v.cid ∉ served new1 →
    v ∈ members (t.blockingKeys d.db) d.key := by
    intro v hv hno
    rw [h1.lists]
    exact mem_filter.mpr ⟨hv, by simpa using hno⟩
  rw [hpre, served_append, mem_append]
  by_cases hserved : w'.cid ∈ served new1
  · exact .inl hserved
  · have hw1 := hlist w hw (by rw [hwd]; exact h1.not_again h2 hd)
    exact .inr (ho2 rest d post hnew2 w hw1 hwd w' (hlist w' hw' hserved) hlt)

end

/-- Every blocked client waits for a single key. -/
def Single (srv : Server World) : Prop :=
  ∀ cid c, srv.clients.lookup cid = some c → c.blocked = true →
    ∀ key key', (c.keys.lookup key).isSome = true → (c.keys.lookup key').isSome = true → key = key'

lemma Progress.single {new : List Delivery} (h : Progress s t new) (hs : Single s) : Single t := by
  intro cid c hc hb
  by_cases hcid : cid ∈ served new
  · obtain ⟨d, hd, rfl⟩ := mem_map.mp hcid
    obtain ⟨c', hc', hfree⟩ := h.freed d hd
    exact absurd rfl (ne_of_blocked hc' hfree hc hb)
  · exact hs cid c ((h.others cid hcid).symm.trans hc) hb

/-- A stretch of the call that leaves the keys `todo` and `but` to be served. -/
structure Stretch (s t : Server World) (todo : List (DbId × Bytes)) (but : DbId → Bytes → Prop)
    (new : List Delivery) : Prop where
  sane : Sane t
  live : Live t todo but
  progress : Progress s t new
  order : Single s → InOrder s new

lemma Stretch.trans {todo' : List (DbId × Bytes)} {but' : DbId → Bytes → Prop}
    (h1 : Stretch s t todo but new1) (h2 : Stretch t u todo' but' new2) :
    Stretch s u todo' but' (new1 ++ new2) where
  sane := h2.sane
  live := h2.live
  progress := h1.progress.trans h2.progress
  order hs := InOrder.append h1.progress h2.progress (h1.order hs)
    (h2.order (h1.progress.single hs))

lemma Stretch.idle (hsane : Sane t) (hlive : Live t todo but)
    (h : Progress s t []) : Stretch s t todo but [] where
  sane := hsane
  live := hlive
  progress := h
  order _ pre d post hnil := absurd hnil (by simp)

lemma inOrder_first (h : Consistent srv) {d : Delivery} {w : Waiter}
    (hws : members (srv.blockingKeys d.db) d.key = w :: ws)
    (hcid : d.cid = w.cid) : InOrder srv [d] := by
  intro pre d' post hsplit w1 hw1 hcid1 w2 hw2 hlt
  have hd' : d' = d := by
    have hmem : d' ∈ [d] := by rw [hsplit]; simp
    simpa using hmem
  subst hd'
  have hsorted := h.ordered.sorted d'.db d'.key
  have hnd := nodup_cids h d'.db d'.key
  have hfirst : w1 = w := inj_on_of_nodup_map hnd hw1 (by rw [hws]; simp) (hcid1.trans hcid)
  rw [hws, pairwise_cons] at hsorted
  rw [hws] at hw2
  subst hfirst
  rcases mem_cons.mp hw2 with rfl | hw2
  · exact absurd hlt (Nat.lt_irrefl _)
  · exact absurd hlt (Nat.lt_asymm (hsorted.1 w2 hw2))

/-- The first client of a key with an element is served. -/
lemma serve_first (h : Sane srv) (hlive : Live srv todo fun db' key' => db' = db ∧ key' = key)
    (hel : srv.data.elements db key ≠ []) {w : Waiter}
    (hws : members (srv.blockingKeys db) key = w :: ws)
    (hc : srv.clients.lookup w.cid = some c) (hblocked : c.blocked) (hdb : c.db = db)
    (hkey : c.keys.lookup key = some w.node) :
    ∃ srv' d, unblockClientOnKey behaviour srv w.cid c key = some srv' ∧ d.cid = w.cid ∧
    Stretch srv srv' todo (fun db' key' => db' = db ∧ key' = key) [d] ∧
    members (srv'.blockingKeys db) key = ws := by
  obtain ⟨hbtype, hpending, hnokey, cmd, hargv, hkeys⟩ := h.waits w.cid c hc hblocked
  obtain ⟨d, ht⟩ := execute_takes w.cid h.filled ((hkeys key).mp (by rw [hkey]; rfl)) hel
  have hexec : behaviour.exec w.cid srv.data = execute w.cid db srv.data cmd := by
    simp [behaviour, hargv, hdb]
  rw [← hexec] at ht
  obtain ⟨mid, c1, srv', hrun, hmid, hun, hfree1, hre⟩ := unblockClientOnKey_served behaviour
    h.consistent hc hblocked hbtype hpending hkey ht.block
  obtain ⟨c', hclients, hfree⟩ := hre.clients
  rw [hun.clients, insert_insert] at hclients
  have hself : srv'.clients.lookup w.cid = some c' := by rw [hclients]; simp
  have hothers : Others srv srv' w.cid := Others.of_insert hclients
  have hshort : Shorter srv.blockingKeys srv'.blockingKeys := by
    rw [hre.blockingKeys]
    exact hun.shorter
  have hlists := members_freed h.consistent hre.consistent hshort hothers hself hfree
  have hserved : served [d] = [w.cid] := by rw [served, map_singleton, ht.client]
  have hmidList : AllList { mid with data := (behaviour.exec w.cid srv.data).data } := by
    intro cid x hx hb
    have hold := h.allList cid x
    grind [hun.clients]
  refine ⟨srv', d, hrun, ht.client, ⟨⟨hre.consistent, ?_, ?_⟩, ?_, ?_, ?_⟩, ?_⟩
  · rw [hre.data]
    exact ht.signalled.filled
  · intro cid x hx hb
    have hne : cid ≠ w.cid := ne_of_blocked hself hfree hx hb
    obtain ⟨hb1, hb2, hb3, cmd', hcmd', hkeys'⟩ :=
      h.waits cid x ((hothers cid hne).symm.trans hx) hb
    exact ⟨hb1, hb2, hb3, cmd', by rw [hre.data, ht.argv]; exact hcmd', hkeys'⟩
  · exact hlive.signals (consistent_queues hmid _ mid.ready mid.readyKeys) hmidList hun.ready
      hun.readyKeys hun.shorter (by rw [hre.data]; exact ht.signalled) hre.blockingKeys hre.ready
      hre.readyKeys
  · constructor
    · rw [hre.data, ht.log]
    · intro db' key'
      rw [hre.data]
      simpa using ht.balance db' key'
    · intro db' key'
      rw [hlists, hserved]
      simp
    · intro cid hcid
      exact hothers cid (by simpa [hserved] using hcid)
    · intro d' hd'
      rw [mem_singleton] at hd'
      exact ⟨c', by rw [hd', ht.client]; exact hself, hfree⟩
    · intro d' hd'
      rw [mem_singleton] at hd'
      refine ⟨c, by rw [hd', ht.client]; exact hc, hblocked, ?_, ?_⟩
      · rw [hd', ht.base, hdb]
      · rw [hd', hkeys]
        exact ht.key
    · exact nodup_singleton _
    · have hcount := countValues_change Client.blocked srv.clients
        fun id => lookup_insert_eq srv.clients w.cid id c'
      rw [hclients]
      simpa [hc, hblocked, hfree] using hcount
  · -- a client of a single key takes the element of the key it is served for
    intro hsingle
    have hdkey : d.key = key := hsingle w.cid c hc hblocked _ _ ((hkeys _).mpr ht.key)
      (by rw [hkey]; rfl)
    exact inOrder_first h.consistent (by rw [ht.base, hdkey]; exact hws) ht.client
  · rw [hlists, hws]
    have hnd := nodup_cids h.consistent db key
    rw [hws, map_cons, nodup_cons] at hnd
    rw [filter_cons_of_neg (by simp), filter_eq_self]
    intro v hv
    rw [decide_eq_true_eq]
    intro heq
    exact hnd.1 (heq ▸ mem_map_of_mem hv)

/-- The loop of `handleClientsBlockedOnKey`.  As long as the key has elements the
clients that are left are the clients of the key; once it has none, nobody is
served any more. -/
lemma serveClients_stretch : ∀ {srv : Server World}, Sane srv →
    Live srv todo (fun db' key' => db' = db ∧ key' = key) →
    (∀ w ∈ ws, held srv.clients w.cid db key = some w.node) → (ws.map Waiter.cid).Nodup →
    (srv.data.elements db key ≠ [] → members (srv.blockingKeys db) key = ws) →
    ∃ srv' new, serveClients typeOf behaviour db key srv ws = some srv' ∧
      Stretch srv srv' todo (fun _ _ => False) new ∧
      (new = [] → srv'.readyKeys = srv.readyKeys) := by
  induction ws with
  | nil =>
    intro srv h hlive _ _ hws
    refine ⟨srv, [], rfl, .idle h ⟨hlive.queued, ?_⟩ (.refl rfl rfl rfl), fun _ => rfl⟩
    intro db' key' hel hwait
    refine (hlive.covered db' key' hel hwait).imp_right ?_
    rintro ⟨rfl, rfl⟩
    exact hwait (hws hel)
  | cons w ws ih =>
    intro srv h hlive hheld hnd hws
    rw [map_cons, nodup_cons] at hnd
    obtain ⟨c, hc, hblocked, hdb, hkey⟩ := blocked_of_held h.consistent (hheld w (by simp))
    obtain ⟨hbtype, -, hnokey, -⟩ := h.waits w.cid c hc hblocked
    have hne : ∀ w' ∈ ws, w'.cid ≠ w.cid := fun w' hw' heq => hnd.1 (heq ▸ mem_map_of_mem hw')
    rw [serveClients, hc, Option.bind_some]
    by_cases hel : srv.data.elements db key = []
    · -- the key has no element: the client stays where it is
      have hnone : (srv.data.lists db).lookup key = none := by
        have hiff := h.filled.lookup_isSome db key
        rw [hel] at hiff
        simpa using hiff
      have hno : serves (typeOf srv.data db key) c = false := by
        simp [serves, typeOf, hnone, hnokey]
      rw [hno, if_neg (by simp)]
      exact ih h hlive (fun w' hw' => hheld w' (by simp [hw'])) hnd.2 (fun hno => absurd hel hno)
    have hyes : serves (typeOf srv.data db key) c := by
      obtain ⟨l, hl⟩ := Option.isSome_iff_exists.mp ((h.filled.lookup_isSome db key).mpr hel)
      simp [serves, typeOf, hl, hbtype, getBlockedTypeByType]
    obtain ⟨srv1, d, hrun, hcid, hstretch, hws1⟩ :=
      serve_first h hlive hel (hws hel) hc hblocked hdb hkey
    have hheld1 : ∀ w' ∈ ws, held srv1.clients w'.cid db key = some w'.node := by
      intro w' hw'
      rw [held, hstretch.progress.others w'.cid (by simp [served, hcid, hne w' hw'])]
      exact hheld w' (by simp [hw'])
    obtain ⟨srv', new, hrun', hrest, -⟩ :=
      ih hstretch.sane hstretch.live hheld1 hnd.2 (fun _ => hws1)
    refine ⟨srv', _, ?_, hstretch.trans hrest, fun hnil => absurd hnil (by simp)⟩
    rw [hyes, if_pos rfl, if_pos (by simp [hbtype]), hrun]
    exact hrun'

/-- The mark of a key is removed before the key is served. -/
lemma live_unmark (h : Live srv ((db, key) :: todo) fun _ _ => False) :
    Live { srv with ready := Function.update srv.ready db ((srv.ready db).erase key) } todo
    (fun db' key' => db' = db ∧ key' = key) := by
  constructor
  · intro db' key' hsome
    have hat : ¬(db' = db ∧ key' = key) := by
      rintro ⟨rfl, rfl⟩
      simp at hsome
    have hold : ((srv.ready db').lookup key').isSome := by
      by_cases hdb : db' = db
      · subst hdb
        simpa [show key' ≠ key from fun hk => hat ⟨rfl, hk⟩] using hsome
      · simpa [hdb] using hsome
    have hmem := h.queued db' key' hold
    rw [cons_append, mem_cons, Prod.mk.injEq] at hmem
    exact hmem.resolve_left hat
  · intro db' key' hel hwait
    have hmem := (h.covered db' key' hel hwait).resolve_right id
    rw [cons_append, mem_cons, Prod.mk.injEq] at hmem
    exact hmem.symm

lemma Stretch.of_queues {ready : DbId → Dict Bytes Unit} {readyKeys : List (DbId × Bytes)}
    {new : List Delivery}
    (h : Stretch { srv with ready := ready, readyKeys := readyKeys } t todo but new) :
    Stretch srv t todo but new where
  sane := h.sane
  live := h.live
  progress := (Progress.refl (s := srv)
    (t := { srv with ready := ready, readyKeys := readyKeys }) rfl rfl rfl).trans h.progress
  order := h.order

lemma handleReady_stretch : ∀ {srv : Server World}, Sane srv → Live srv todo (fun _ _ => False) →
    ∃ srv' new, handleReady typeOf behaviour srv todo = some srv' ∧
      Stretch srv srv' [] (fun _ _ => False) new ∧
      (new = [] → srv'.readyKeys = srv.readyKeys) := by
  induction todo with
  | nil =>
    intro srv h hlive
    exact ⟨srv, [], rfl, .idle h hlive (.refl rfl rfl rfl), fun _ => rfl⟩
  | cons e todo ih =>
    obtain ⟨db, key⟩ := e
    intro srv h hlive
    have h0 : Sane { srv with
      ready := Function.update srv.ready db ((srv.ready db).erase key) } :=
      ⟨consistent_queues h.consistent srv.data _ srv.readyKeys, h.filled, h.waits⟩
    obtain ⟨srv1, new1, hrun1, hs1, hquiet1⟩ := serveClients_stretch h0 (live_unmark hlive)
      (fun w hw => (h0.consistent.registered.mem db key w.node w.cid).mp hw)
      (nodup_cids h0.consistent db key) (fun _ => rfl)
    obtain ⟨srv', new2, hrun2, hs2, hquiet2⟩ := ih hs1.sane hs1.live
    refine ⟨srv', new1 ++ new2, ?_, hs1.of_queues.trans hs2, ?_⟩
    · rw [handleReady, handleClientsBlockedOnKey, hrun1]
      exact hrun2
    · intro hnil
      obtain ⟨hnil1, hnil2⟩ := append_eq_nil_iff.mp hnil
      rw [hquiet2 hnil2, hquiet1 hnil1]

lemma round_stretch (h : Sane srv) (hlive : Live srv [] fun _ _ => False) :
    ∃ srv' new, handleReady typeOf behaviour { srv with readyKeys := [] } srv.readyKeys =
      some srv' ∧
    Stretch srv srv' [] (fun _ _ => False) new ∧ (new = [] → srv'.readyKeys = []) := by
  have h0 : Sane { srv with readyKeys := [] } :=
    ⟨consistent_queues h.consistent srv.data srv.ready [], h.filled, h.waits⟩
  have hlive0 : Live { srv with readyKeys := [] } srv.readyKeys fun _ _ => False := by
    constructor
    · intro db key hsome
      simpa using hlive.queued db key hsome
    · intro db key hel hwait
      simpa using hlive.covered db key hel hwait
  obtain ⟨srv', new, hrun, hs, hquiet⟩ := handleReady_stretch h0 hlive0
  exact ⟨srv', new, hrun, hs.of_queues, hquiet⟩

lemma handle_stretch (fuel : Nat) : ∀ {srv : Server World}, Sane srv →
    Live srv [] (fun _ _ => False) →
    ∃ t new, handle fuel srv = some t ∧ Stretch srv t [] (fun _ _ => False) new := by
  induction fuel with
  | zero =>
    intro srv h hlive
    exact ⟨srv, [], rfl, .idle h hlive (.refl rfl rfl rfl)⟩
  | succ fuel ih =>
    intro srv h hlive
    rw [handle, handleClientsBlockedOnKeys]
    by_cases hnil : srv.readyKeys = []
    · rw [if_pos hnil]
      exact ⟨srv, [], rfl, .idle h hlive (.refl rfl rfl rfl)⟩
    rw [if_neg hnil]
    obtain ⟨srv1, new1, hrun1, hs1, -⟩ := round_stretch h hlive
    obtain ⟨t, new2, hrun2, hs2⟩ := ih hs1.sane hs1.live
    exact ⟨t, new1 ++ new2, by rw [hrun1]; exact hrun2, hs1.trans hs2⟩

/-- The invariant between two events. -/
structure Inv (srv : Server World) : Prop where
  sane : Sane srv
  live : Live srv [] fun _ _ => False

section

variable (h : Inv srv)

include h

lemma Inv.settle (hs : Settles srv srv') : Inv srv' := by
  refine ⟨⟨hs.consistent, ?_, ?_⟩, ⟨?_, ?_⟩⟩
  · rw [hs.data]
    exact h.sane.filled
  · intro cid c hc hb
    rw [hs.data]
    exact h.sane.waits cid c (hs.blocked cid c hc hb) hb
  · intro db key hsome
    rw [hs.readyKeys]
    exact h.live.queued db key (hs.ready ▸ hsome)
  intro db key hel hwait
  rw [hs.readyKeys]
  refine h.live.covered db key (hs.data ▸ hel) ?_
  intro hnil
  have hsub := hs.shorter db key
  rw [hnil, sublist_nil] at hsub
  exact hwait hsub

lemma inv_quiet {e : BlockedClients.Event World} (hquiet : Event.quiet e) :
    ∃ srv', BlockedClients.step typeOf srv e = some srv' ∧ Inv srv' :=
  (step_settles h.sane.consistent typeOf hquiet).imp fun _ hs => ⟨hs.1, h.settle hs.2⟩

section

variable (hc : srv.clients.lookup cid = some c)

include hc

/-- A command that was sent and that blocks its client. -/
lemma inv_block (hfree : c.blocked = false) (hprimary : c.primary = false) {cmd : Command}
    (timeout : Nat) (hno : ∀ key ∈ cmd.keys, srv.data.elements c.db key = []) :
    ∃ srv', blockForKeys { srv with data := srv.data.send cid c.db cmd } cid c
      { btype := .list, keys := cmd.keys, timeout := timeout } = some srv' ∧ Inv srv' := by
  have hput := (consistent_queues h.sane.consistent (srv.data.send cid c.db cmd) srv.ready
    srv.readyKeys).put hc c rfl
  obtain ⟨srv1, c1, hrun, hcons, hblocks⟩ := blockForKeys_spec hput hfree
    (b := { btype := .list, keys := cmd.keys, timeout := timeout })
    (by rw [Block.fits, hprimary]; rfl)
  have hc1 : srv1.clients.lookup cid = some c1 := by rw [hblocks.clients, lookup_insert]
  have hothers : ∀ cid', cid' ≠ cid → srv1.clients.lookup cid' = srv.clients.lookup cid' := by
    intro cid' hne
    rw [hblocks.clients]
    exact (lookup_insert_eq _ _ _ _).trans (if_neg hne)
  refine ⟨srv1, hrun, ⟨hcons, ?_, ?_⟩, ?_, ?_⟩
  · rw [hblocks.data]
    exact h.sane.filled
  · intro cid' x hx hb
    rw [hblocks.data]
    by_cases hcid : cid' = cid
    · subst hcid
      rw [hc1, Option.some.injEq] at hx
      subst hx
      exact ⟨hblocks.btype, hblocks.pending (by simp), hblocks.nokey, cmd,
        by rw [hblocks.db]; exact lookup_insert _, hblocks.keys⟩
    obtain ⟨hb1, hb2, hb3, cmd', hcmd', hkeys'⟩ :=
      h.sane.waits cid' x ((hothers cid' hcid).symm.trans hx) hb
    refine ⟨hb1, hb2, hb3, cmd', ?_, hkeys'⟩
    rw [← hcmd']
    exact (lookup_insert_eq _ _ _ _).trans (if_neg hcid)
  · intro db key hsome
    rw [hblocks.readyKeys]
    rw [hblocks.ready] at hsome
    exact h.live.queued db key hsome
  · intro db key hel hwait
    rw [hblocks.data] at hel
    rw [hblocks.readyKeys]
    obtain ⟨w, hw⟩ := exists_mem_of_ne_nil _ hwait
    -- the keys the client has blocked on are empty
    have hne : w.cid ≠ cid := by
      rintro hcid
      obtain ⟨x, hx, -, hxdb, hxkey⟩ :=
        blocked_of_held hcons ((hcons.registered.mem db key w.node w.cid).mp hw)
      rw [hcid, hc1, Option.some.injEq] at hx
      subst hx
      have hmem := (hblocks.keys key).mp (by rw [hxkey]; rfl)
      rw [hblocks.db] at hxdb
      subst hxdb
      exact hel (hno key hmem)
    have hw' := (mem_of_others h.sane.consistent hcons (hothers w.cid hne) db key).mp hw
    exact h.live.covered db key hel (ne_nil_of_mem hw')

omit hc in
lemma inv_effect {w : World} {signals : List Signal} (hsig : Signalled srv.data w signals)
    (hargv : ∀ cid c, srv.clients.lookup cid = some c → c.blocked →
    w.argv.lookup cid = srv.data.argv.lookup cid) :
    Inv (signals.foldl signalKeyAsReadyLogic { srv with data := w }) := by
  obtain ⟨ready, readyKeys, heq⟩ := signals_fields signals { srv with data := w }
  have hcons : Consistent { srv with data := w } :=
    consistent_queues h.sane.consistent w srv.ready srv.readyKeys
  have hlive : Live (signals.foldl signalKeyAsReadyLogic { srv with data := w }) []
    fun _ _ => False :=
    h.live.signals hcons h.sane.allList rfl rfl (Shorter.refl _) (by rw [heq]; exact hsig)
      (by rw [heq]) rfl rfl
  refine ⟨?_, hlive⟩
  rw [heq]
  refine ⟨consistent_queues h.sane.consistent w ready readyKeys, hsig.filled, ?_⟩
  intro cid c hc hb
  obtain ⟨hb1, hb2, hb3, cmd, hcmd, hkeys⟩ := h.sane.waits cid c hc hb
  exact ⟨hb1, hb2, hb3, cmd, (hargv cid c hc hb).trans hcmd, hkeys⟩

/-- Storing a client that is not blocked where it is stored already. -/
lemma Inv.put_self (hfree : c.blocked = false) : Inv (srv.put cid c) :=
  h.settle (settles_put h.sane.consistent hc c hfree ⟨hfree, h.sane.consistent.well cid c hc⟩ id)

lemma inv_call (hfree : c.blocked = false) (cmd : Command) : ∃ srv', processCommand srv cid c
      (execute cid c.db (srv.data.send cid c.db cmd) cmd) = some srv' ∧ Inv srv' := by
  have hargv : ∀ cid' x, srv.clients.lookup cid' = some x → x.blocked →
    (srv.data.send cid c.db cmd).argv.lookup cid' = srv.data.argv.lookup cid' := by
    intro cid' x hx hb
    exact (lookup_insert_eq _ _ _ _).trans (if_neg (ne_of_blocked hc hfree hx hb))
  have hfilled : Filled (srv.data.send cid c.db cmd) := h.sane.filled
  by_cases hsome : ∃ key ∈ cmd.keys, srv.data.elements c.db key ≠ []
  · obtain ⟨key, hkey, hel⟩ := hsome
    obtain ⟨d, ht⟩ := execute_takes cid hfilled hkey
      (show (srv.data.send cid c.db cmd).elements c.db key ≠ [] from hel)
    generalize execute cid c.db (srv.data.send cid c.db cmd) cmd = r at ht ⊢
    have heff := inv_effect h (w := r.data) ⟨ht.signalled.filled, ht.signalled.created⟩
      (fun cid' x hx hb => by rw [ht.argv]; exact hargv cid' x hx hb)
    obtain ⟨ready, readyKeys, hfields⟩ := signals_fields r.signals { srv with data := r.data }
    refine ⟨_, by simp only [processCommand, ht.block]; rfl, ?_⟩
    rw [hfields] at heff ⊢
    exact heff.put_self hc hfree
  have hno : ∀ key ∈ cmd.keys, srv.data.elements c.db key = [] := by
    intro key hkey
    by_contra hel
    exact hsome ⟨key, hkey, hel⟩
  obtain ⟨timeout, hwait⟩ : ∃ timeout, execute cid c.db (srv.data.send cid c.db cmd) cmd =
    wait (srv.data.send cid c.db cmd) cmd timeout := by
    apply execute_waits
    intro key hkey
    have hiff := hfilled.lookup_isSome c.db key
    rw [show (srv.data.send cid c.db cmd).elements c.db key = [] from hno key hkey] at hiff
    simpa using hiff
  rw [hwait]
  by_cases hprimary : c.primary
  · have heff := inv_effect h (show Signalled srv.data (srv.data.send cid c.db cmd) [] from
      ⟨hfilled, fun db key hold hnew => absurd hold hnew⟩) hargv
    exact ⟨_, by simp [processCommand, wait, Block.fits, hprimary], heff.put_self hc hfree⟩
  obtain ⟨srv', hrun, hinv⟩ := inv_block h hc hfree (by simpa using hprimary) timeout hno
  refine ⟨srv', ?_, hinv⟩
  rw [← hrun]
  simp [processCommand, wait, hprimary, Block.fits, BlockType.onKeys]

end

lemma step_inv (e : BlockingLists.Event) :
    ∃ srv', BlockingLists.step srv e = some srv' ∧ Inv srv' := by
  cases e with
  | store db key l =>
    exact ⟨_, rfl, inv_effect h (signalled_setList h.sane.filled db key l)
      fun cid _ _ _ => by rw [argv_setList]⟩
  | call cid cmd =>
    refine withClient_spec cid h fun c hc => ?_
    split
    · exact ⟨srv, rfl, h⟩
    next hb => exact inv_call h hc (by simpa using hb) cmd
  | handle fuel =>
    obtain ⟨t, new, hrun, hs⟩ := handle_stretch fuel h.sane h.live
    exact ⟨t, hrun, hs.sane, hs.live⟩
  | connect cid isModule primary => exact inv_quiet h (e := .connect cid isModule primary) rfl
  | select cid db => exact inv_quiet h (e := .select cid db) rfl
  | timeout cid => exact inv_quiet h (e := .timeout cid) rfl
  | unblock cid error => exact inv_quiet h (e := .unblock cid error) rfl
  | release cid => exact inv_quiet h (e := .release cid) rfl

end

lemma inv_start : Inv (start {}) where
  sane := {
    consistent := consistent_start _
    filled := fun db key => by simp [start]
    waits := fun cid c hc => absurd hc (by simp [start]) }
  live := {
    queued := fun db key hsome => absurd hsome (by simp [start])
    covered := fun db key hel => absurd rfl hel }

end Dice.Ports.BlockingListsServing
