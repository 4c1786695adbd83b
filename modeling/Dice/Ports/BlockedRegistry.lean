import Dice.Ports.BlockedClients

/-!
# The registry of blocked clients

`Registered` relates the two tables of the databases to what the clients hold:
a client is in the list of a key exactly at the node it holds for that key, and
the counter of a key is the number of its clients that want to know when the
key goes away.  It is stated for arbitrary holdings, because the source edits
the tables one key at a time.

`Consistent` is the invariant of the server.  Every function of the model keeps
it, and no assertion fails on the way.
-/

namespace Dice.Ports.BlockedRegistry

open Verified CString Table Index Run BlockedClients Option List Function

variable {σ : Type}

/-! ## Tables and holdings -/

/-- A counter of the table: no entry stands for zero. -/
def tally (n : Nat) : Option Int := if n = 0 then none else some n

/-- The tables `blocking` and `counts` describe what the clients hold. -/
structure Registered (blocking : DbId → Dict Bytes (List Waiter))
    (counts : DbId → Dict Bytes Int) (holds : ClientId → DbId → Bytes → Option NodeId)
    (nokey : ClientId → Bool) : Prop where
  tidy : ∀ db, Tidy (blocking db)
  mem : ∀ db key node cid, ⟨node, cid⟩ ∈ members (blocking db) key ↔ holds cid db key = some node
  count : ∀ db key, (counts db).lookup key =
    tally ((members (blocking db) key).countP fun m => nokey m.cid)

section Tables

variable {blocking : DbId → Dict Bytes (List Waiter)}
  {counts : DbId → Dict Bytes Int} {holds holds' : ClientId → DbId → Bytes → Option NodeId}
  {nokey nokey' : ClientId → Bool}

/-- Only the wishes of clients that hold something matter. -/
lemma Registered.congr (h : Registered blocking counts holds nokey)
    (hholds : ∀ cid db key, holds' cid db key = holds cid db key)
    (hnokey : ∀ cid db key, (holds cid db key).isSome → nokey' cid = nokey cid) :
    Registered blocking counts holds' nokey' where
  tidy := h.tidy
  mem db key node cid := by rw [hholds]; exact h.mem db key node cid
  count db key := by
    rw [h.count]
    congr 1
    apply countP_congr
    rintro ⟨node, cid⟩ hmem
    rw [hnokey cid db key]
    rw [(h.mem db key node cid).mp hmem]
    rfl

variable {d : Dict Bytes Int} {key : Bytes}

lemma lookup_countNokey {n : Nat} (h : d.lookup key = tally n) (key' : Bytes) :
    (countNokey d key).lookup key' = if key' = key then tally (n + 1) else d.lookup key' := by
  unfold countNokey tally at *
  by_cases hn : n = 0
  · rw [if_pos hn] at h
    rw [h]
    simp only [lookup_insert_eq, hn]
    rfl
  · rw [if_neg hn] at h
    rw [h]
    simp only [lookup_insert_eq]
    rfl

lemma uncountNokey_eq {n : Nat} (h : d.lookup key = tally (n + 1)) :
    ∃ d', uncountNokey d key = some d' ∧
    ∀ key', d'.lookup key' = if key' = key then tally n else d.lookup key' := by
  have hsome : d.lookup key = some ((n : Int) + 1) := by simpa [tally] using h
  refine ⟨_, by rw [uncountNokey, hsome, map_some], ?_⟩
  intro key'
  have hsub : (n : Int) + 1 - 1 = n := by omega
  rw [hsub]
  by_cases hn : n = 0
  · rw [if_pos (by omega), lookup_erase_eq, hn]
    rfl
  · rw [if_neg (by omega), lookup_insert_eq, tally, if_neg hn]

section

variable (h : Registered blocking counts holds nokey) {cid : ClientId} {db : DbId}

include h

/-- A client appears in the list of a key it does not hold yet. -/
lemma Registered.link (node : NodeId) (hfree : holds cid db key = none)
    (hholds : ∀ cid' db' key', holds' cid' db' key' =
    if cid' = cid ∧ db' = db ∧ key' = key then some node else holds cid' db' key') :
    Registered (update blocking db (link (blocking db) key ⟨node, cid⟩))
    (update counts db
      (if nokey cid then countNokey (counts db) key else counts db)) holds' nokey where
  tidy := tidy_update_link h.tidy (by rw [h.mem, hfree]; simp)
  mem db' key' node' cid' := by
    have hold := h.mem db' key' node' cid'
    grind
  count db' key' := by
    have hold := h.count db' key'
    have hnew := lookup_countNokey (h.count db key)
    rw [members_update_link]
    by_cases hdb : db' = db
    · grind
    · rw [update_of_ne hdb, hold, if_neg (by grind)]

/-- What `releaseBlockedEntry` does to the tables of one database. -/
lemma Registered.unlink {node : NodeId} (hheld : holds cid db key = some node)
    (hholds : ∀ cid' db' key', holds' cid' db' key' =
    if cid' = cid ∧ db' = db ∧ key' = key then none else holds cid' db' key')
    (hd : ∀ key', d.lookup key' = if key' = key then
    tally (((members (blocking db) key).erase ⟨node, cid⟩).countP fun m => nokey m.cid)
    else (counts db).lookup key') :
    Registered (update blocking db
      (Dice.Verified.Index.unlink (blocking db) key ⟨node, cid⟩))
    (update counts db d) holds' nokey where
  tidy db' := tidy_update_unlink _ _ _ _ h.tidy
  mem db' key' node' cid' := by
    have hold := h.mem db' key' node' cid'
    have hin := ((h.tidy db').nodup key').mem_erase_iff (a := ⟨node, cid⟩) (b := ⟨node', cid'⟩)
    grind
  count db' key' := by
    have hold := h.count db' key'
    rw [members_update_unlink]
    by_cases hdb : db' = db
    · grind
    · rw [update_of_ne hdb, hold, if_neg (by grind)]

end

end Tables

/-- Clients have left the lists, and the others have kept their order. -/
def Shorter (blocking blocking' : DbId → Dict Bytes (List Waiter)) : Prop :=
  ∀ db key, (members (blocking' db) key).Sublist (members (blocking db) key)

section

variable (blocking : DbId → Dict Bytes (List Waiter))

lemma Shorter.refl : Shorter blocking blocking := fun _ _ => List.Sublist.refl _

lemma Shorter.trans {b1 b2 b3 : DbId → Dict Bytes (List Waiter)} (h1 : Shorter b1 b2)
    (h2 : Shorter b2 b3) : Shorter b1 b3 :=
  fun db key => (h2 db key).trans (h1 db key)

lemma shorter_unlink (db : DbId) (key : Bytes) (w : Waiter) :
    Shorter blocking (update blocking db (unlink (blocking db) key w)) := by
  intro db' key'
  rw [members_update_unlink]
  split
  · exact erase_sublist
  · exact List.Sublist.refl _

end

/-- The clients of a key stand in the order of their nodes, that is, in the
order in which they blocked on it. -/
structure Ordered (blocking : DbId → Dict Bytes (List Waiter)) (next : NodeId) : Prop where
  sorted : ∀ db key, (members (blocking db) key).Pairwise fun a b => a.node < b.node
  fresh : ∀ db key, ∀ w ∈ members (blocking db) key, w.node < next

lemma Ordered.shorter {b b' : DbId → Dict Bytes (List Waiter)} {next : NodeId}
    (h : Ordered b next) (hshort : Shorter b b') : Ordered b' next where
  sorted db key := (h.sorted db key).sublist (hshort db key)
  fresh db key w hw := h.fresh db key w ((hshort db key).subset hw)

lemma Ordered.link {b : DbId → Dict Bytes (List Waiter)} {next : NodeId} (h : Ordered b next)
    (db : DbId) (key : Bytes) (cid : ClientId) :
    Ordered (update b db (Dice.Verified.Index.link (b db) key ⟨next, cid⟩))
    (next + 1) := by
  constructor
  · intro db' key'
    rw [members_update_link]
    split
    · refine pairwise_append.mpr ⟨h.sorted db' key', pairwise_singleton _ _, ?_⟩
      intro a ha b' hb'
      rw [mem_singleton.mp hb']
      exact h.fresh db' key' a ha
    · exact h.sorted db' key'
  · intro db' key' w hw
    have hold := h.fresh db' key' w
    grind

variable {srv : Server σ} {cid : ClientId} {c c' : Client} {nokey : ClientId → Bool}

/-- `releaseBlockedEntry` finds the list and the counter it looks for. -/
lemma releaseBlockedEntry_spec {key : Bytes}
    {pos : NodeId} {holds holds' : ClientId → DbId → Bytes → Option NodeId}
    (h : Registered srv.blockingKeys srv.unblockOnNokey holds nokey)
    (hheld : holds cid c.db key = some pos) (hnokey : nokey cid = c.unblockOnNokey)
    (hholds : ∀ cid' db' key', holds' cid' db' key' =
    if cid' = cid ∧ db' = c.db ∧ key' = key then none else holds cid' db' key') :
    ∃ blocking counts, releaseBlockedEntry srv cid c key pos =
      some { srv with blockingKeys := blocking, unblockOnNokey := counts } ∧
    Registered blocking counts holds' nokey ∧ Shorter srv.blockingKeys blocking := by
  have hmem : (⟨pos, cid⟩ : Waiter) ∈ members (srv.blockingKeys c.db) key :=
    (h.mem _ _ _ _).mpr hheld
  have hcount := h.count c.db key
  have hsplit : ((members (srv.blockingKeys c.db) key).countP fun m => nokey m.cid) =
    (((members (srv.blockingKeys c.db) key).erase ⟨pos, cid⟩).countP fun m => nokey m.cid) +
      if c.unblockOnNokey then 1 else 0 := by
    rw [(perm_cons_erase hmem).countP_eq, countP_cons, hnokey]
  simp only [releaseBlockedEntry, lookup_of_mem hmem, bind_some]
  by_cases hlast : (members (srv.blockingKeys c.db) key).erase ⟨pos, cid⟩ = []
  · rw [if_pos hlast]
    refine ⟨_, _, rfl, h.unlink hheld hholds ?_, shorter_unlink _ _ _ _⟩
    intro key'
    rw [lookup_erase_eq, hlast, countP_nil, tally, if_pos rfl]
  rw [if_neg hlast]
  by_cases hn : c.unblockOnNokey
  · rw [if_pos hn]
    rw [hsplit, if_pos hn] at hcount
    obtain ⟨d, hd, hlook⟩ := uncountNokey_eq hcount
    rw [hd]
    exact ⟨_, _, rfl, h.unlink hheld hholds hlook, shorter_unlink _ _ _ _⟩
  rw [if_neg hn]
  rw [hsplit, if_neg hn, Nat.add_zero] at hcount
  refine ⟨_, srv.unblockOnNokey, rfl, ?_, shorter_unlink _ _ _ _⟩
  have hsame := h.unlink (d := srv.unblockOnNokey c.db) hheld hholds (by
    intro key'
    split
    · next hkey => rw [hkey, hcount]
    · rfl)
  rw [update_eq_self] at hsame
  exact hsame

/-- The loop of `unblockClientWaitingData`. -/
lemma releaseEntries_spec
    (hnokey : nokey cid = c.unblockOnNokey) {entries : List (Bytes × NodeId)} :
    ∀ (srv : Server σ) (holds holds' : ClientId → DbId → Bytes → Option NodeId),
    Registered srv.blockingKeys srv.unblockOnNokey holds nokey →
    (entries.map Prod.fst).Nodup →
    (∀ e ∈ entries, holds cid c.db e.1 = some e.2) →
    (∀ cid' db' key', holds' cid' db' key' =
      if cid' = cid ∧ db' = c.db ∧ key' ∈ entries.map Prod.fst then none
      else holds cid' db' key') →
    ∃ blocking counts, releaseEntries cid c srv entries =
        some { srv with blockingKeys := blocking, unblockOnNokey := counts } ∧
      Registered blocking counts holds' nokey ∧ Shorter srv.blockingKeys blocking := by
  induction entries with
  | nil =>
    intro srv holds holds' h _ _ hholds
    refine ⟨_, _, rfl, h.congr ?_ (fun _ _ _ _ => rfl), Shorter.refl _⟩
    intro cid' db' key'
    rw [hholds]
    simp
  | cons e entries ih =>
    obtain ⟨key, pos⟩ := e
    intro srv holds holds' h hnd hin hholds
    rw [map_cons, nodup_cons] at hnd
    obtain ⟨blocking, counts, hrun, h1, hshort⟩ := releaseBlockedEntry_spec h
      (hin (key, pos) (by simp)) hnokey (fun _ _ _ => rfl)
    obtain ⟨blocking', counts', hrun', h', hshort'⟩ := ih
      { srv with blockingKeys := blocking, unblockOnNokey := counts } _ holds' h1 hnd.2 (by
        intro e he
        rw [if_neg, hin e (by simp [he])]
        rintro ⟨-, -, hkey⟩
        exact hnd.1 (hkey ▸ mem_map_of_mem he)) (by
        intro cid' db' key'
        grind)
    exact ⟨blocking', counts', by rw [releaseEntries, hrun]; exact hrun', h', hshort.trans hshort'⟩

/-! ## The invariant -/

/-- The node a client holds for a key of a database. -/
def held (clients : Dict ClientId Client) (cid : ClientId) (db : DbId) (key : Bytes) :
    Option NodeId :=
  (clients.lookup cid).bind fun c => if c.db = db then c.keys.lookup key else none

/-- The client wants to know when a key goes away. -/
def wish (clients : Dict ClientId Client) (cid : ClientId) : Bool :=
  (clients.lookup cid).any Client.unblockOnNokey

/-- `server.blocked_clients`, and the counters of `blocked_clients_by_type`. -/
def counter (srv : Server σ) : Option BlockType → Int
  | none => srv.blockedClients
  | some t => srv.blockedClientsByType t

/-- The client is counted there. -/
def countedAs (t : Option BlockType) (c : Client) : Bool :=
  c.blocked && match t with
    | none => !c.isModule
    | some t => decide (c.btype = t)

/-- A client that is not blocked holds nothing, and one that is has a type. -/
def Well (c : Client) : Prop :=
  (c.blocked = false → c.keys = ∅ ∧ c.unblockOnNokey = false) ∧
    (c.blocked = true → c.btype.onKeys = true)

/-- The tables, the clients and the counters agree. -/
structure Consistent (srv : Server σ) : Prop where
  registered : Registered srv.blockingKeys srv.unblockOnNokey (held srv.clients)
    (wish srv.clients)
  ordered : Ordered srv.blockingKeys srv.nextNode
  well : ∀ cid c, srv.clients.lookup cid = some c → Well c
  counters : ∀ t, counter srv t = countValues (countedAs t) srv.clients
  handles : ∀ cid ∈ srv.moduleUnblockedClients,
    (srv.clients.lookup cid).any (countedAs (some .module)) = true
  queued : ∀ cid c, srv.clients.lookup cid = some c → c.unblocked = true →
    cid ∈ srv.unblockedClients

section

variable (clients : Dict ClientId Client) (cid cid' : ClientId) (c : Client)

@[grind =] lemma held_insert (db : DbId) (key : Bytes) : held (clients.insert cid c) cid' db key =
    if cid' = cid then (if c.db = db then c.keys.lookup key else none)
    else held clients cid' db key := by
  unfold held
  rw [lookup_insert_eq]
  split <;> rfl

@[grind =] lemma wish_insert :
    wish (clients.insert cid c) cid' =
    if cid' = cid then c.unblockOnNokey else wish clients cid' := by
  unfold wish
  rw [lookup_insert_eq]
  split <;> rfl

end

lemma lookup_reinsert (clients : Dict ClientId Client) (cid : ClientId) (c c' : Client)
    (id : ClientId) : (clients.insert cid c').lookup id =
    if id = cid then some c' else (clients.insert cid c).lookup id := by
  grind

lemma consistent_start (data : σ) : Consistent (start data) where
  registered := {
    tidy := fun _ => tidy_empty
    mem := fun db key node cid => by simp [start, members, held]
    count := fun db key => by simp [start, members, tally] }
  ordered := ⟨fun db key => by simp [start, members], fun db key w hw => by
    simp [start, members] at hw⟩
  well cid c h := by simp [start] at h
  counters t := by cases t <;> rfl
  handles cid h := by simp [start] at h
  queued cid c h := by simp [start] at h

lemma ne_of_blocked {clients : Dict ClientId Client} {cid' : ClientId} {x : Client}
    (hc : clients.lookup cid = some c) (hfree : c.blocked = false)
    (hx : clients.lookup cid' = some x) (hb : x.blocked) : cid' ≠ cid := by
  rintro rfl
  rw [hc, some.injEq] at hx
  simp [← hx, hfree] at hb

lemma Consistent.handle_ne (h : Consistent srv)
    (hc : srv.clients.lookup cid = some c) (hfree : c.blocked = false) :
    ∀ cid' ∈ srv.moduleUnblockedClients, cid' ≠ cid := by
  rintro cid' hcid' rfl
  simpa [hc, countedAs, hfree] using h.handles cid' hcid'

/-- The record under `cid` appears, changes or goes: the tables know what it
holds, and the counters have moved by the difference. -/
lemma Consistent.change {srv' : Server σ} (h : Consistent srv) (new : Option Client)
    (hnew : ∀ id, srv'.clients.lookup id = if id = cid then new else srv.clients.lookup id)
    (hreg : Registered srv'.blockingKeys srv'.unblockOnNokey (held srv'.clients)
    (wish srv'.clients)) (hordered : Ordered srv'.blockingKeys srv'.nextNode)
    (hwell : ∀ c, new = some c → Well c)
    (hcounters : ∀ t, counter srv' t + ((srv.clients.lookup cid).any (countedAs t)).toNat =
    counter srv t + (new.any (countedAs t)).toNat)
    (hhandles : ∀ id ∈ srv'.moduleUnblockedClients, id ≠ cid ∧ id ∈ srv.moduleUnblockedClients ∨
      id = cid ∧ new.any (countedAs (some .module)))
    (hqueue : ∀ id ∈ srv.unblockedClients, id ≠ cid → id ∈ srv'.unblockedClients)
    (hqueued : ∀ c, new = some c → c.unblocked → cid ∈ srv'.unblockedClients) :
    Consistent srv' where
  registered := hreg
  ordered := hordered
  well id c hc := by grind [h.well id c]
  counters t := by
    have hcount := countValues_change (countedAs t) srv.clients hnew
    have hmoved := hcounters t
    rw [h.counters] at hmoved
    omega
  handles id hid := by
    rw [hnew]
    obtain ⟨hne, hold⟩ | ⟨rfl, hmodule⟩ := hhandles id hid
    · rw [if_neg hne]
      exact h.handles id hold
    · rwa [if_pos rfl]
  queued id c hc hflag := by grind [h.queued id c]

/-- The two records hold and count the same. -/
structure Alike (old new : Option Client) : Prop where
  held : ∀ db key, (new.bind fun c => if c.db = db then c.keys.lookup key else none) =
    old.bind fun c => if c.db = db then c.keys.lookup key else none
  wish : new.any Client.unblockOnNokey = old.any Client.unblockOnNokey
  counts : ∀ t, new.any (countedAs t) = old.any (countedAs t)

/-- A client that is not blocked is as good as none. -/
lemma alike_idle {old new : Option Client} (hold : ∀ c, old = some c → c.blocked = false ∧ Well c)
    (hnew : ∀ c, new = some c → c.blocked = false ∧ Well c) : Alike old new := by
  have hidle : ∀ o : Option Client, (∀ c, o = some c → c.blocked = false ∧ Well c) →
    (∀ db key, (o.bind fun c => if c.db = db then c.keys.lookup key else none) = none) ∧
    o.any Client.unblockOnNokey = false ∧ ∀ t, o.any (countedAs t) = false := by
    rintro (_ | c) ho
    · exact ⟨fun _ _ => rfl, rfl, fun _ => rfl⟩
    · obtain ⟨hfree, hwell⟩ := ho c rfl
      obtain ⟨hkeys, hwish⟩ := hwell.1 hfree
      simp [hkeys, hwish, countedAs, hfree]
  obtain ⟨hheld, hwish, hcounts⟩ := hidle old hold
  obtain ⟨hheld', hwish', hcounts'⟩ := hidle new hnew
  exact ⟨by simp [hheld, hheld'], hwish'.trans hwish.symm, by simp [hcounts, hcounts']⟩

lemma Consistent.alike {clients : Dict ClientId Client} {queue : List ClientId}
    (h : Consistent srv) (new : Option Client)
    (hnew : ∀ id, clients.lookup id = if id = cid then new else srv.clients.lookup id)
    (halike : Alike (srv.clients.lookup cid) new) (hwell : ∀ c, new = some c → Well c)
    (hqueue : ∀ id ∈ srv.unblockedClients, id ≠ cid → id ∈ queue)
    (hqueued : ∀ c, new = some c → c.unblocked → cid ∈ queue) :
    Consistent { srv with clients := clients, unblockedClients := queue } := by
  refine h.change new hnew (h.registered.congr ?_ ?_) h.ordered hwell ?_ ?_ hqueue hqueued
  · intro id db key
    have hheld := halike.held db key
    grind [held]
  · intro id db key _
    have hwish := halike.wish
    grind [wish]
  · intro t
    rw [halike.counts]
    rfl
  · intro id hid
    by_cases hcid : id = cid
    · exact .inr ⟨hcid, halike.counts _ ▸ hcid ▸ h.handles id hid⟩
    · exact .inl ⟨hcid, hid⟩

/-- What the registry depends on. -/
def role (c : Client) : DbId × Bool × Bool × Bool × BlockType × Bool × Dict Bytes NodeId :=
  (c.db, c.isModule, c.blocked, c.unblocked, c.btype, c.unblockOnNokey, c.keys)

/-- Another record with the same role is stored. -/
lemma Consistent.put (h : Consistent srv) (hc : srv.clients.lookup cid = some c) (c' : Client)
    (hrole : role c' = role c) : Consistent (srv.put cid c') := by
  simp only [role, Prod.mk.injEq] at hrole
  obtain ⟨hdb, hmodule, hblocked, hflag, hbtype, hwish, hkeys⟩ := hrole
  have hwell := h.well cid c hc
  refine h.alike (some c') (lookup_insert_eq _ _ · _) ?_ ?_ (fun id hid _ => hid) ?_
  · rw [hc]
    constructor <;> simp [*, countedAs]
  · rintro _ ⟨⟩
    simpa [Well, hblocked, hkeys, hwish, hbtype] using hwell
  · rintro _ ⟨⟩ hset
    exact h.queued cid c hc (hflag ▸ hset)

lemma queue_spec (h : Consistent (srv.put cid c)) : ∃ flag queue,
    queueClientForReprocessing srv cid c =
      { srv.put cid { c with unblocked := flag } with unblockedClients := queue } ∧
    Consistent (queueClientForReprocessing srv cid c) := by
  have hself : (srv.clients.insert cid c).lookup cid = some c := AList.lookup_insert _
  unfold queueClientForReprocessing
  split
  · exact ⟨c.unblocked, srv.unblockedClients, rfl, h⟩
  · refine ⟨true, _, rfl, h.alike _ (lookup_reinsert srv.clients cid c _) ?_ ?_ ?_ ?_⟩
    · rw [Server.put, hself]
      exact ⟨fun _ _ => rfl, rfl, fun _ => rfl⟩
    · rintro _ ⟨⟩
      exact h.well cid c hself
    · exact fun id hid _ => mem_append_left _ hid
    · exact fun _ _ _ => mem_append_right _ (mem_singleton_self cid)

/-- `unblockClientWaitingData` frees the client from all its keys. -/
lemma unblockClientWaitingData_spec
    (h : Registered srv.blockingKeys srv.unblockOnNokey (held (srv.clients.insert cid c))
    (wish (srv.clients.insert cid c))) (hdb : c'.db = c.db) (hkeys : c'.keys = ∅) :
    ∃ blocking counts, unblockClientWaitingData srv cid c =
      some { srv with blockingKeys := blocking, unblockOnNokey := counts } ∧
    Registered blocking counts (held (srv.clients.insert cid c'))
      (wish (srv.clients.insert cid c')) ∧ Shorter srv.blockingKeys blocking := by
  have hfst : (c.keys.entries.map fun e => (e.1, e.2)).map Prod.fst = c.keys.keys := by
    rw [List.map_map]
    rfl
  obtain ⟨blocking, counts, hrun, h', hshort⟩ := releaseEntries_spec
    (show wish (srv.clients.insert cid c) cid = c.unblockOnNokey by simp [wish_insert]) srv
    (held (srv.clients.insert cid c)) (held (srv.clients.insert cid c')) h
    (show ((c.keys.entries.map fun e => (e.1, e.2)).map Prod.fst).Nodup by
      rw [hfst]
      exact c.keys.nodupKeys)
    (by
      intro e he
      obtain ⟨⟨key, pos⟩, hmem, rfl⟩ := mem_map.mp he
      rw [held_insert, if_pos rfl, if_pos rfl]
      exact AList.mem_lookup_iff.mpr hmem)
    (by
      intro cid' db key
      have hnone : c.keys.lookup key = none ↔ key ∉ c.keys.keys := AList.lookup_eq_none
      simp only [held_insert, hkeys, AList.lookup_empty]
      grind)
  refine ⟨blocking, counts, hrun, h'.congr (fun _ _ _ => rfl) ?_, hshort⟩
  intro cid' db key hsome
  have hne : cid' ≠ cid := by
    rintro rfl
    rw [held_insert, hkeys] at hsome
    simp at hsome
  rw [wish_insert, if_neg hne, wish_insert, if_neg hne]

/-- The client as `unblockClient` leaves it. -/
def freed (c : Client) : Client :=
  { c with
    blocked := false, btype := .none, unblockOnNokey := false, keys := ∅
    handleUnblocked := false }

/-- The lists the client is in, and the list of handles, are left. -/
lemma leaveLists_spec (h : Consistent (srv.put cid c)) (hblocked : c.blocked) :
    ∃ blocking counts handles, leaveLists srv cid c =
      some { srv with
        blockingKeys := blocking, unblockOnNokey := counts,
        moduleUnblockedClients := handles } ∧
    Registered blocking counts (held (srv.clients.insert cid (freed c)))
      (wish (srv.clients.insert cid (freed c))) ∧ Shorter srv.blockingKeys blocking ∧
    ∀ cid' ∈ handles, cid' ≠ cid ∧ cid' ∈ srv.moduleUnblockedClients := by
  have hself : (srv.put cid c).clients.lookup cid = some c := AList.lookup_insert _
  have hkeys : c.btype.onKeys := (h.well cid c hself).2 hblocked
  obtain ⟨blocking, counts, hrun, hreg, hshort⟩ :=
    @unblockClientWaitingData_spec σ srv cid c (freed c) h.registered rfl rfl
  have hdata : c.btype ≠ .module → ∀ cid' ∈ srv.moduleUnblockedClients,
    cid' ≠ cid ∧ cid' ∈ srv.moduleUnblockedClients := by
    refine fun hne cid' hcid' => ⟨?_, hcid'⟩
    rintro rfl
    have hmodule := h.handles cid' hcid'
    simp [hself, countedAs, hne] at hmodule
  unfold leaveLists
  cases hb : c.btype with
  | none =>
    rw [hb] at hkeys
    exact absurd hkeys (by decide)
  | list => exact ⟨_, _, srv.moduleUnblockedClients, hrun, hreg, hshort, hdata (by simp [hb])⟩
  | zset => exact ⟨_, _, srv.moduleUnblockedClients, hrun, hreg, hshort, hdata (by simp [hb])⟩
  | stream => exact ⟨_, _, srv.moduleUnblockedClients, hrun, hreg, hshort, hdata (by simp [hb])⟩
  | module =>
    refine ⟨blocking, counts, srv.moduleUnblockedClients.filter (· ≠ cid), ?_, hreg, hshort, ?_⟩
    · simp [hrun]
    · intro cid' hcid'
      rw [mem_filter] at hcid'
      exact ⟨by simpa using hcid'.2, hcid'.1⟩

/-- What unblocking a client leaves alone. -/
structure Unblocked (srv : Server σ) (cid : ClientId) (c' : Client) (srv' : Server σ) : Prop where
  clients : srv'.clients = srv.clients.insert cid c'
  data : srv'.data = srv.data
  ready : srv'.ready = srv.ready
  readyKeys : srv'.readyKeys = srv.readyKeys
  shorter : Shorter srv.blockingKeys srv'.blockingKeys

lemma unblockClient_spec (h : Consistent (srv.put cid c)) (hblocked : c.blocked) (queue : Bool) :
    ∃ srv' flag, unblockClient srv cid c queue = some srv' ∧ Consistent srv' ∧
    Unblocked srv cid { freed c with unblocked := flag } srv' := by
  obtain ⟨blocking, counts, handles, hrun, hreg, hshort, hhandles⟩ := leaveLists_spec h hblocked
  have hself : (srv.clients.insert cid c).lookup cid = some c := AList.lookup_insert _
  have hput : Consistent (Server.put { srv with
    blockingKeys := blocking, unblockOnNokey := counts, moduleUnblockedClients := handles
    blockedClients := if c.isModule then srv.blockedClients else srv.blockedClients - 1
    blockedClientsByType := update srv.blockedClientsByType c.btype
      (srv.blockedClientsByType c.btype - 1) } cid (freed c)) := by
    refine h.change _ (lookup_reinsert srv.clients cid c _) hreg (h.ordered.shorter hshort) ?_ ?_
      (fun id hid => .inl (hhandles id hid)) (fun id hid _ => hid) ?_
    · rintro _ ⟨⟩
      exact ⟨fun _ => ⟨rfl, rfl⟩, nofun⟩
    · intro t
      rw [show (srv.put cid c).clients.lookup cid = some c from hself]
      cases t with
      | none => cases hm : c.isModule <;> simp [counter, Server.put, countedAs, freed, hblocked, hm]
      | some t =>
        by_cases ht : t = c.btype
        · simp [counter, Server.put, countedAs, freed, hblocked, ht]
        · simp [counter, Server.put, countedAs, freed, ht, Ne.symm ht]
    · rintro _ ⟨⟩
      exact h.queued cid c hself
  rw [unblockClient, hrun]
  cases queue with
  | false => exact ⟨_, c.unblocked, rfl, hput, rfl, rfl, rfl, rfl, hshort⟩
  | true =>
    obtain ⟨flag, waiting, heq, hcons⟩ := queue_spec hput
    exact ⟨_, flag, congrArg some heq, heq ▸ hcons, rfl, rfl, rfl, rfl, hshort⟩

/-- The loop of `blockForKeys`, for a client `c` that is not stored yet. -/
lemma blockForKey_loop (clients : Dict ClientId Client) (keys : List Bytes) :
    ∀ (srv : Server σ) (c : Client),
    Registered srv.blockingKeys srv.unblockOnNokey (held (clients.insert cid c)) nokey →
    Ordered srv.blockingKeys srv.nextNode →
    ∃ blocking counts next held', keys.foldl (blockForKey cid (nokey cid)) (srv, c) =
        ({ srv with blockingKeys := blocking, unblockOnNokey := counts, nextNode := next },
          { c with keys := held' }) ∧
      Registered blocking counts (held (clients.insert cid { c with keys := held' })) nokey ∧
      Ordered blocking next ∧
      ∀ key, (held'.lookup key).isSome ↔ (c.keys.lookup key).isSome ∨ key ∈ keys := by
  induction keys with
  | nil =>
    intro srv c h hord
    exact ⟨_, _, _, c.keys, rfl, h, hord, by simp⟩
  | cons key keys ih =>
    intro srv c h hord
    by_cases hold : (c.keys.lookup key).isSome
    · obtain ⟨blocking, counts, next, held', hrun, h', hord', hkeys⟩ := ih srv c h hord
      refine ⟨blocking, counts, next, held', ?_, h', hord', by grind⟩
      rw [foldl_cons, blockForKey, if_pos hold]
      exact hrun
    have hnone : c.keys.lookup key = none := by simpa using hold
    have hfree : held (clients.insert cid c) cid c.db key = none := by
      rw [held_insert, if_pos rfl, if_pos rfl, hnone]
    have hholds : ∀ cid' db' key', held (clients.insert cid
      { c with keys := c.keys.insert key srv.nextNode }) cid' db' key' =
      if cid' = cid ∧ db' = c.db ∧ key' = key then some srv.nextNode
      else held (clients.insert cid c) cid' db' key' := by
      grind
    obtain ⟨blocking, counts, next, held', hrun, h', hord', hkeys⟩ := ih { srv with
      nextNode := srv.nextNode + 1
      blockingKeys := update srv.blockingKeys c.db
        (link (srv.blockingKeys c.db) key ⟨srv.nextNode, cid⟩)
      unblockOnNokey := update srv.unblockOnNokey c.db
        (if nokey cid then countNokey (srv.unblockOnNokey c.db) key
          else srv.unblockOnNokey c.db) } _ (h.link srv.nextNode hfree hholds)
      (hord.link c.db key cid)
    refine ⟨blocking, counts, next, held', ?_, h', hord', by grind⟩
    rw [foldl_cons, blockForKey, if_neg hold]
    exact hrun

/-- Client `cid` has blocked, and has the record `c'`. -/
structure Blocks (srv : Server σ) (cid : ClientId) (c : Client) (b : Block) (c' : Client)
    (srv' : Server σ) : Prop where
  clients : srv'.clients = srv.clients.insert cid c'
  data : srv'.data = srv.data
  ready : srv'.ready = srv.ready
  readyKeys : srv'.readyKeys = srv.readyKeys
  db : c'.db = c.db
  btype : c'.btype = b.btype
  nokey : c'.unblockOnNokey = b.nokey
  pending : b.btype ≠ .module → c'.pendingCommand = true
  keys : ∀ key, (c'.keys.lookup key).isSome ↔ key ∈ b.keys

lemma blockForKeys_spec (h : Consistent (srv.put cid c)) (hfree : c.blocked = false) {b : Block}
    (hb : b.fits c) : ∃ srv' c', blockForKeys srv cid c b = some srv' ∧ Consistent srv' ∧
    Blocks srv cid c b c' srv' := by
  have hself : (srv.clients.insert cid c).lookup cid = some c := AList.lookup_insert _
  obtain ⟨hnil, hwish⟩ := (h.well cid c hself).1 hfree
  rw [Block.fits, Bool.and_eq_true] at hb
  obtain ⟨c1, heq1, hkeys1, hdb1, hmodule1, hflag1, hprimary1⟩ : ∃ c1 : Client,
    (if c.reexecutingCommand then c else { c with timeout := b.timeout }) = c1 ∧ c1.keys = ∅ ∧
    c1.db = c.db ∧ c1.isModule = c.isModule ∧ c1.unblocked = c.unblocked ∧
    c1.primary = c.primary := by
    split
    · exact ⟨c, rfl, hnil, rfl, rfl, rfl, rfl⟩
    · exact ⟨_, rfl, hnil, rfl, rfl, rfl, rfl⟩
  -- the client holds nothing, so its wish may change
  have hstart : Registered srv.blockingKeys srv.unblockOnNokey (held (srv.clients.insert cid c1))
      (update (wish srv.clients) cid b.nokey) := by
    refine h.registered.congr ?_ ?_
    · intro cid' db key
      rw [Server.put, held_insert, held_insert, hkeys1, hdb1, hnil]
    · intro cid' db key hsome
      have hne : cid' ≠ cid := by
        rintro rfl
        rw [Server.put, held_insert, hnil] at hsome
        simp at hsome
      rw [update_of_ne hne, Server.put, wish_insert, if_neg hne]
  obtain ⟨blocking, counts, next, held', hrun, hreg, hord, hheld⟩ :=
    blockForKey_loop srv.clients b.keys srv c1 hstart h.ordered
  rw [update_self] at hrun
  have hcalm : ∀ c2 : Client, c2.primary = c1.primary → ¬(c2.primary ∧ b.btype ≠ .module) := by
    intro c2 hc2
    rw [hc2, hprimary1]
    simpa [← Bool.not_eq_true, imp_iff_not_or] using hb.2
  rw [blockForKeys, heq1, hrun, blockClient, if_neg (hcalm _ rfl)]
  refine ⟨_, _, rfl, ?_, rfl, rfl, rfl, rfl, hdb1, rfl, rfl, fun hm => if_neg hm, fun key => ?_⟩
  · refine h.change _ (lookup_reinsert srv.clients cid c _) ?_ hord ?_ ?_
      (fun id hid => .inl ⟨h.handle_ne hself hfree id hid, hid⟩) (fun id hid _ => hid) ?_
    · refine hreg.congr ?_ ?_
      · intro cid' db key
        rw [held_insert]
        exact held_insert _ _ _ _ _ _
      · intro cid' db key _
        refine (wish_insert _ _ _ _).trans ?_
        by_cases hc : cid' = cid
        · rw [if_pos hc, hc, update_self]
        · rw [if_neg hc, update_of_ne hc]
    · rintro _ ⟨⟩
      exact ⟨nofun, fun _ => hb.1⟩
    · intro t
      rw [show (srv.put cid c).clients.lookup cid = some c from hself]
      cases t with
      | none => cases hm : c.isModule <;> simp [counter, Server.put, countedAs, hfree, hmodule1, hm]
      | some t =>
        by_cases ht : t = b.btype
        · simp [counter, Server.put, countedAs, hfree, ht]
        · simp [counter, Server.put, countedAs, hfree, ht, Ne.symm ht]
    · rintro _ ⟨⟩ hset
      exact h.queued cid c hself (hflag1 ▸ hset)
  · exact (hheld key).trans (by simp [hkeys1])

end Dice.Ports.BlockedRegistry
