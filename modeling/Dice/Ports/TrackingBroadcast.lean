import Dice.Ports.Resp
import Dice.Ports.Tracking
import Dice.Verified.Run
import Mathlib.Data.List.Induction

/-!
# Broadcasting once

The modified keys are kept once for each prefix, with the client that was the
last to modify them, and all clients of the prefix are served from there.  A
client whose prefixes do not overlap is told each key once.  With NOLOOP it is
not told the keys it was the last to modify, whoever modified them before.
-/

namespace Dice.Ports.TrackingBroadcast

open List Verified CString Table Run Resp Tracking AList Option

/-- `trackingBuildBroadcastReply`: `c` is the client in NOLOOP mode. -/
def trackingBuildBroadcastReply (c : Option ClientId) (keys : Dict Bytes (Option ClientId)) :
    Option Bytes :=
  let count := match c with
    | none => keys.entries.length
    | some _ => keys.entries.countP fun e => e.2 != c
  if c.isSome ∧ count = 0 then none
  else some (keys.entries.foldl
    (fun proto e => if c.isSome ∧ e.2 = c then proto else proto ++ bulk e.1) (header 42 count))

/-- The keys of a reply. -/
def reported (c : Option ClientId) (keys : Dict Bytes (Option ClientId)) : List Bytes :=
  (keys.entries.filter fun e => c.isNone || e.2 != c).map Sigma.fst

section

variable (c : Option ClientId) (keys : Dict Bytes (Option ClientId))

lemma reply_eq : trackingBuildBroadcastReply c keys =
    if c.isSome ∧ reported c keys = [] then none
    else some (encodeCommand (reported c keys)) := by
  have hpass : ∀ (es : List (Sigma fun _ : Bytes => Option ClientId)) (proto : Bytes),
    es.foldl (fun proto e => if c.isSome ∧ e.2 = c then proto else proto ++ bulk e.1) proto =
      proto ++ encodeArgs ((es.filter fun e => c.isNone || e.2 != c).map Sigma.fst) := by
    intro es
    induction es with
    | nil => simp
    | cons e es ih => cases c <;> grind [encodeArgs_cons]
  have hlen : (reported c keys).length = keys.entries.countP fun e => c.isNone || e.2 != c := by
    rw [reported, length_map, countP_eq_length_filter]
  unfold trackingBuildBroadcastReply
  simp only [hpass, encodeCommand, hlen]
  cases c <;> simp [reported]

lemma nodup_reported : (reported c keys).Nodup := keys.nodupKeys.sublist filter_sublist

end

lemma mem_reported {c : Option ClientId} {keys : Dict Bytes (Option ClientId)} {key : Bytes} :
    key ∈ reported c keys ↔ ∃ author, keys.lookup key = some author ∧ (c = none ∨ author ≠ c) := by
  simp [reported, ← mem_lookup_iff]

/-! ## The calls -/

variable (s : Server)

/-- The clients of a prefix. -/
def clientsOf (p : Bytes) : List ClientId :=
  ((s.prefixTable.lookup p).map BcastState.clients).getD []

/-- The keys modified under a prefix. -/
def keysOf (p : Bytes) : Dict Bytes (Option ClientId) :=
  ((s.prefixTable.lookup p).map BcastState.keys).getD ∅

/-- The argument `c` of `trackingBuildBroadcastReply` for a connected client. -/
def excluded (cid : ClientId) : Option (Option ClientId) :=
  (s.clients.lookup cid).map fun c => if c.noloop then some cid else none

/-- The call of `sendTrackingMessage` for a client of a prefix. -/
def callsTo (keys : Dict Bytes (Option ClientId)) (cid : ClientId) : List (ClientId × List Bytes) :=
  match excluded s cid with
  | none => []
  | some c => if reported c keys = [] then [] else [(cid, reported c keys)]

/-- The calls of `trackingBroadcastInvalidationMessages` for some prefixes. -/
def calls (ps : List Bytes) : List (ClientId × List Bytes) :=
  ps.flatMap fun p => (clientsOf s p).flatMap (callsTo s (keysOf s p))

def sendAll (msgs : List (ClientId × List Bytes)) (s : Server) : Server :=
  msgs.foldl (fun s m => sendTrackingMessage s m.1 (.invalidate m.2)) s

/-- The keys sent for a client, over all its prefixes. -/
def told (cid : ClientId) : List Bytes :=
  (calls s s.prefixTable.keys).flatMap fun m => if m.1 = cid then m.2 else []

/-- What the broadcast reads. -/
def view : Nat × Dict Bytes BcastState × (ClientId → Option (Option ClientId)) :=
  (s.trackingClients, s.prefixTable, excluded s)

lemma view_send (s : Server) (cid : ClientId) (msg : Message) :
    view (sendTrackingMessage s cid msg) = view s := by
  have hexcluded : ∀ id, excluded (sendTrackingMessage s cid msg) id = excluded s id := by
    unfold sendTrackingMessage
    grind [Server.push, Server.put, excluded]
  rw [view, funext hexcluded, view, sendTrackingMessage]
  grind [Server.push, Server.put]

lemma view_foldl {α : Type} {f : Server → α → Server} (hf : ∀ s x, view (f s x) = view s)
    (xs : List α) (s : Server) : view (xs.foldl f s) = view s :=
  foldlRecOn (motive := fun t => view t = view s) xs f rfl fun t ht x _ => (hf t x).trans ht

section

variable (msgs : List (ClientId × List Bytes)) (s : Server)

lemma excluded_sendAll : excluded (sendAll msgs s) = excluded s :=
  congrArg (fun v => v.2.2) (view_foldl (fun s m => view_send s m.1 (.invalidate m.2)) msgs s)

lemma sendAll_append (xs ys : List (ClientId × List Bytes)) (s : Server) :
    sendAll (xs ++ ys) s = sendAll ys (sendAll xs s) := foldl_append

lemma sendAll_setTable (t : Dict Bytes BcastState) :
    sendAll msgs { s with prefixTable := t } = { sendAll msgs s with prefixTable := t } := by
  have hsend : ∀ s cid msg, sendTrackingMessage { s with prefixTable := t } cid msg =
    { sendTrackingMessage s cid msg with prefixTable := t } := by
    intro s cid msg
    unfold sendTrackingMessage
    cases s.clients.lookup cid with
    | none => rfl
    | some c =>
      by_cases hr : c.redirection = 0
      · simp only [if_pos hr]
        split_ifs <;> rfl
      · simp only [if_neg hr]
        cases s.clients.lookup c.redirection <;> (dsimp only; split_ifs <;> rfl)
  induction msgs generalizing s with
  | nil => rfl
  | cons m msgs ih =>
    unfold sendAll at ih ⊢
    rw [foldl_cons, hsend, ih, foldl_cons]

end

lemma broadcastTo_eq {s s' : Server} (h : excluded s' = excluded s) (id : ClientId)
    {keys : Dict Bytes (Option ClientId)} (hkeys : keys.keys ≠ []) :
    broadcastTo keys s' id = sendAll (callsTo s keys id) s' := by
  unfold broadcastTo callsTo
  rw [← h, excluded]
  cases s'.clients.lookup id with
  | none => rfl
  | some c =>
    simp only [map_some]
    cases c.noloop with
    | false =>
      have hall : reported none keys = keys.keys := by simp [reported, AList.keys, List.keys]
      simp [hall, hkeys, sendAll]
    | true =>
      have hother : reported (some id) keys =
        (keys.entries.filter fun e => e.2 != some id).map Sigma.fst := by simp [reported]
      simp only [if_true, ← hother]
      split <;> rfl

lemma broadcastClients_eq {s : Server} (s' : Server) (h : excluded s' = excluded s)
    (keys : Dict Bytes (Option ClientId)) (ids : List ClientId) :
    (if keys.keys = [] then s' else ids.foldl (broadcastTo keys) s') =
    sendAll (ids.flatMap (callsTo s keys)) s' := by
  split
  · next hnil =>
    have hcalls : ids.flatMap (callsTo s keys) = [] := flatMap_eq_nil_iff.mpr fun id _ => by
      unfold callsTo
      split
      · rfl
      · simp_all [reported, AList.keys, List.keys]
    rw [hcalls, sendAll, foldl_nil]
  next hkeys =>
  induction ids generalizing s' with
  | nil => rfl
  | cons id ids ih =>
    rw [foldl_cons, broadcastTo_eq h id hkeys, ih, flatMap_cons, sendAll_append]
    exact (excluded_sendAll _ s').trans h

/-- The broadcast makes its calls and empties the key sets. -/
lemma broadcast_spec (s : Server) (hs : s.trackingClients ≠ 0) :
    ∃ t, trackingBroadcastInvalidationMessages s =
      { sendAll (calls s s.prefixTable.keys) s with prefixTable := t } ∧
    ∀ p bs, t.lookup p = some bs → bs.keys = ∅ := by
  have hloop : ∀ ps : List Bytes, ps.Nodup → ∀ (s' : Server) t, excluded s' = excluded s →
    (∀ p, p ∈ ps → t.lookup p = s.prefixTable.lookup p) →
    (∀ p bs, t.lookup p = some bs → p ∈ ps ∨ bs.keys = ∅) →
    ∃ t', ps.foldl broadcastPrefix { s' with prefixTable := t } =
      { sendAll (calls s ps) s' with prefixTable := t' } ∧
      ∀ p bs, t'.lookup p = some bs → bs.keys = ∅ := by
    intro ps
    induction ps with
    | nil => exact fun _ s' t _ _ hdone => ⟨t, rfl, fun p bs hp => by simpa using hdone p bs hp⟩
    | cons p ps ih =>
      intro hnd s' t h ht hdone
      obtain ⟨hnot, hnd⟩ := nodup_cons.mp hnd
      have hp := ht p mem_cons_self
      rw [foldl_cons, broadcastPrefix, calls, flatMap_cons, sendAll_append, clientsOf, keysOf]
      cases hs : s.prefixTable.lookup p with
      | none =>
        simp only [hp, hs]
        exact ih hnd s' t h (by grind) (by grind)
      | some bs =>
        simp only [hp, hs, sendAll_setTable,
          broadcastClients_eq { s' with prefixTable := t } h bs.keys bs.clients]
        exact ih hnd _ _ ((excluded_sendAll _ s').trans h) (by grind) (by grind)
  rw [trackingBroadcastInvalidationMessages, if_neg hs]
  exact hloop _ s.prefixTable.keys_nodup s s.prefixTable rfl (fun _ _ => rfl)
    fun p bs hp => .inl (lookup_isSome.mp (by simp [hp]))

/-- Who made the last modification of a key. -/
def lastAuthor (mods : List (Option ClientId × Bytes)) (key : Bytes) : Option (Option ClientId) :=
  (mods.filter fun m => m.2 = key).getLast?.map Prod.fst

lemma lastAuthor_concat (mods : List (Option ClientId × Bytes)) (m : Option ClientId × Bytes)
    (key : Bytes) :
    lastAuthor (mods ++ [m]) key = if m.2 = key then some m.1 else lastAuthor mods key := by
  unfold lastAuthor
  by_cases h : m.2 = key <;> simp [h]

def modify (m : Option ClientId × Bytes) : Server := trackingInvalidateKey s m.1 m.2 true

section

variable (s : Server) (m : Option ClientId × Bytes)

lemma view_modify : view (modify s m) = view (trackingRememberKeyToBroadcast s m.1 m.2) := by
  have hone : ∀ s id, view (invalidateFor m.2 s id) = view s := by
    intro s id
    unfold invalidateFor
    split
    · rfl
    split_ifs
    · rfl
    · rfl
    · rfl
    · exact view_send s id _
  simp only [modify, trackingInvalidateKey]
  split
  · rfl
  · exact view_foldl hone _ _

/-- A modification is recorded under every prefix of the key. -/
lemma lookup_modify (p : Bytes) :
    (modify s m).prefixTable.lookup p = (s.prefixTable.lookup p).map fun bs =>
    if p.isPrefixOf m.2 then { bs with keys := bs.keys.insert m.2 m.1 } else bs := by
  rw [show (modify s m).prefixTable = _ from congrArg (fun v => v.2.1) (view_modify s m)]
  refine lookup_foldl_keys (g := fun p (bs : BcastState) =>
    if p.isPrefixOf m.2 then { bs with keys := bs.keys.insert m.2 m.1 } else bs) ?_ _ p
  grind

end

/-- Where the modifications have led. -/
structure Modified (s : Server) (mods : List (Option ClientId × Bytes)) (s₁ : Server) : Prop where
  tracking : s₁.trackingClients = s.trackingClients
  excluded : excluded s₁ = excluded s
  clients : ∀ p, clientsOf s₁ p = clientsOf s p
  keys : ∀ p key, (keysOf s₁ p).lookup key =
    if (s.prefixTable.lookup p).isSome ∧ p.isPrefixOf key then lastAuthor mods key else none
  present : ∀ p, (s₁.prefixTable.lookup p).isSome = (s.prefixTable.lookup p).isSome

lemma modified {s : Server} (h : ∀ p, keysOf s p = ∅)
    (mods : List (Option ClientId × Bytes)) : Modified s mods (mods.foldl modify s) := by
  induction mods using reverseRecOn with
  | nil => exact ⟨rfl, rfl, fun _ => rfl, fun p key => by simp [h p, lastAuthor], fun _ => rfl⟩
  | append_singleton mods m ih =>
    rw [foldl_append, foldl_cons, foldl_nil]
    generalize mods.foldl modify s = s₁ at ih
    have hview := view_modify s₁ m
    have htable := lookup_modify s₁ m
    refine ⟨(congrArg Prod.fst hview).trans ih.tracking,
      (congrArg (fun v => v.2.2) hview).trans ih.excluded, fun p => ?_, fun p key => ?_,
      fun p => ?_⟩
    · rw [← ih.clients, clientsOf, clientsOf, htable]
      cases s₁.prefixTable.lookup p <;> grind
    · have hkeys := ih.keys p key
      have hpresent := ih.present p
      rw [lastAuthor_concat, keysOf]
      rw [keysOf] at hkeys
      cases hp : s₁.prefixTable.lookup p <;> grind
    · rw [htable, isSome_map, ih.present]

section Told

variable {s : Server} {cid : ClientId} {c : Option ClientId}

section

variable (hc : excluded s cid = some c) (hnodup : ∀ p, (clientsOf s p).Nodup)

include hc hnodup

lemma told_eq :
    told s cid = s.prefixTable.keys.flatMap fun p =>
    if cid ∈ clientsOf s p then reported c (keysOf s p) else [] := by
  unfold told calls
  rw [flatMap_assoc]
  congr 1
  funext p
  have hids := hnodup p
  generalize clientsOf s p = ids at hids
  induction ids with
  | nil => rfl
  | cons id ids ih =>
    rw [flatMap_cons, flatMap_append, ih (nodup_cons.mp hids).2, callsTo]
    by_cases hid : id = cid
    · subst hid
      by_cases hnil : reported c (keysOf s p) = [] <;> simp [hc, hnil, (nodup_cons.mp hids).1]
    · cases excluded s id with
      | none => simp [Ne.symm hid]
      | some c' => by_cases hnil : reported c' (keysOf s p) = [] <;> simp [hid, Ne.symm hid]
omit hc hnodup in
lemma isSome_of_mem_clientsOf {p : Bytes} (h : cid ∈ clientsOf s p) :
    (s.prefixTable.lookup p).isSome := by
  unfold clientsOf at h
  cases hp : s.prefixTable.lookup p with
  | none => simp [hp] at h
  | some bs => rfl

lemma mem_told {key : Bytes} : key ∈ told s cid ↔
    ∃ p, cid ∈ clientsOf s p ∧ key ∈ reported c (keysOf s p) := by
  rw [told_eq hc hnodup]
  simp only [mem_flatMap, mem_ite_nil_right]
  exact ⟨fun ⟨p, _, h⟩ => ⟨p, h⟩,
    fun ⟨p, h⟩ => ⟨p, lookup_isSome.mp (isSome_of_mem_clientsOf h.1), h⟩⟩

/-- Only a key under two prefixes of the client would be told twice. -/
lemma nodup_told (hsep : ∀ p q key, cid ∈ clientsOf s p → cid ∈ clientsOf s q →
    key ∈ reported c (keysOf s p) → key ∈ reported c (keysOf s q) → p = q) :
    (told s cid).Nodup := by
  rw [told_eq hc hnodup, nodup_flatMap]
  refine ⟨fun p _ => ?_, s.prefixTable.keys_nodup.imp fun {p q} hne key hp hq => hne ?_⟩
  · split
    · exact nodup_reported c _
    · exact nodup_nil
  · rw [mem_ite_nil_right] at hp hq
    exact hsep p q key hp.1 hq.1 hp.2 hq.2

end

end Told

/-- The prefix table is that of the BCAST clients, whose prefixes do not
overlap, and nothing has been modified since the last broadcast. -/
structure Registered (s : Server) : Prop where
  counted : s.trackingClients = 0 → ∀ p, s.prefixTable.lookup p = none
  nodup : ∀ p, (clientsOf s p).Nodup
  clients : ∀ p cid, cid ∈ clientsOf s p ↔
    ∃ c, s.clients.lookup cid = some c ∧ c.bcast = true ∧ p ∈ c.prefixes
  separate : ∀ cid c, s.clients.lookup cid = some c → c.bcast = true →
    ∀ p ∈ c.prefixes, ∀ q ∈ c.prefixes, stringCheckPrefix p q = true → p = q
  fresh : ∀ p, keysOf s p = ∅

/-- The broadcast after any modifications: its calls of `sendTrackingMessage`
carry replies with the right number of keys and tell each BCAST client every
modified key under one of its prefixes once, unless the client is in NOLOOP
mode and was the last to modify it. -/
theorem broadcast_tells_once {s : Server} (h : Registered s)
    (mods : List (Option ClientId × Bytes)) :
    let s₁ := mods.foldl modify s
    let s₂ := trackingBroadcastInvalidationMessages s₁
    (∃ t, s₂ = { sendAll (calls s₁ s₁.prefixTable.keys) s₁ with prefixTable := t }) ∧
    (∀ p, keysOf s₂ p = ∅) ∧
    (∀ m ∈ calls s₁ s₁.prefixTable.keys, ∃ p c, m.1 ∈ clientsOf s₁ p ∧ excluded s₁ m.1 = some c ∧
      trackingBuildBroadcastReply c (keysOf s₁ p) = some (encodeCommand m.2)) ∧
    ∀ cid c, s.clients.lookup cid = some c → c.bcast = true → ∀ key,
      (told s₁ cid).count key =
        if (∃ p ∈ c.prefixes, p.isPrefixOf key) ∧ ∃ author, lastAuthor mods key = some author ∧
          ¬(c.noloop = true ∧ author = some cid) then 1 else 0 := by
  intro s₁ s₂
  have hm : Modified s mods s₁ := modified h.fresh mods
  have hsent : ∃ t, s₂ = { sendAll (calls s₁ s₁.prefixTable.keys) s₁ with prefixTable := t } ∧
      ∀ p bs, t.lookup p = some bs → bs.keys = ∅ := by
    by_cases hs : s₁.trackingClients = 0
    · have hnone : ∀ p, s₁.prefixTable.lookup p = none := fun p => by
        rw [← not_isSome_iff_eq_none, hm.present, h.counted (hm.tracking ▸ hs) p]
        exact Bool.false_ne_true
      have hkeys : s₁.prefixTable.keys = [] := eq_nil_iff_forall_not_mem.mpr fun p hp =>
        lookup_eq_none.mp (hnone p) hp
      refine ⟨s₁.prefixTable, ?_, fun p bs hp => by simp [hnone] at hp⟩
      rw [hkeys, calls]
      exact if_pos hs
    · exact broadcast_spec s₁ hs
  obtain ⟨t, ht, hclear⟩ := hsent
  refine ⟨⟨t, ht⟩, fun p => ?_, fun m hmem => ?_, fun cid c hc hb key => ?_⟩
  · rw [ht, keysOf]
    cases hp : t.lookup p with
    | none => rfl
    | some bs => exact hclear p bs hp
  · obtain ⟨p, -, hmem⟩ := mem_flatMap.mp hmem
    obtain ⟨id, hid, hmem⟩ := mem_flatMap.mp hmem
    unfold callsTo at hmem
    split at hmem
    · cases hmem
    next c hc =>
    rw [mem_ite_nil_left, mem_singleton] at hmem
    obtain ⟨hne, rfl⟩ := hmem
    exact ⟨p, c, hid, hc, by rw [reply_eq, if_neg fun hnil => hne hnil.2]⟩
  have hx : excluded s₁ cid = some (if c.noloop then some cid else none) := by
    rw [hm.excluded, excluded, hc, map_some]
  have hnodup : ∀ p, (clientsOf s₁ p).Nodup := fun p => hm.clients p ▸ h.nodup p
  have hmine : ∀ p, cid ∈ clientsOf s₁ p ↔ p ∈ c.prefixes := fun p => by
    rw [hm.clients, h.clients]
    grind
  have hkeys : ∀ p, cid ∈ clientsOf s₁ p → ∀ key,
      key ∈ reported (if c.noloop then some cid else none) (keysOf s₁ p) ↔
        p.isPrefixOf key ∧ ∃ author, lastAuthor mods key = some author ∧
          ¬(c.noloop ∧ author = some cid) := by
    intro p hp key
    have hpresent := isSome_of_mem_clientsOf hp
    rw [hm.present] at hpresent
    rw [mem_reported, hm.keys]
    grind
  rw [(nodup_told hx hnodup fun p q key hp hq hkp hkq => ?_).count]
  · congr 1
    rw [mem_told hx hnodup]
    grind
  have hp' := isPrefixOf_iff_prefix.mp ((hkeys p hp key).mp hkp).1
  have hq' := isPrefixOf_iff_prefix.mp ((hkeys q hq key).mp hkq).1
  refine h.separate cid c hc hb p ((hmine p).mp hp) q ((hmine q).mp hq) ?_
  rw [stringCheckPrefix, Bool.or_eq_true, isPrefixOf_iff_prefix, isPrefixOf_iff_prefix]
  exact prefix_or_prefix_of_prefix hp' hq'

/-- Client 1 with RESP3 in NOLOOP mode, under the prefix `k`. -/
private def listener : Server where
  clients := insert 1 { resp := 3, tracking := true, bcast := true, noloop := true
                        prefixes := [[107]] } ∅
  trackingClients := 1
  prefixTable := insert [107] { clients := [1] } ∅

theorem broadcast_tells_once_listener :
    run step {} [.connect 1, .hello 1 3,
      .tracking 1 { bcast := true, noloop := true, prefixes := [[107]] }] = some listener ∧
    let s₁ := [(some 1, [107]), (some 2, [107, 1])].foldl modify listener
    (told s₁ 1).count [107, 1] = 1 ∧
      (trackingBroadcastInvalidationMessages s₁).sent = [(1, .invalidate [[107, 1]])] := by
  have hreg : Registered listener := by
    constructor
    all_goals simp only [listener, clientsOf, keysOf, lookup_insert_eq, lookup_empty]
    · simp
    · intro p
      split <;> simp
    · intro p cid
      by_cases hp : p = [107] <;> by_cases hid : cid = 1 <;> simp [hp]
    · grind
    · intro p
      split <;> rfl
  refine ⟨rfl, ?_, by decide +kernel⟩
  rw [(broadcast_tells_once hreg _).2.2.2 1 _ rfl rfl]
  decide

/-- Client 2 and then client 1, in NOLOOP mode, modify the same key. -/
theorem foreign_change_untold : (run step {} [.connect 1, .connect 2, .hello 1 3,
      .tracking 1 { bcast := true, noloop := true }, .modify (some 2) [107],
      .modify (some 1) [107], .broadcast]).map (fun t => (t.clients.lookup 1, t.sent)) =
      some (some { resp := 3, tracking := true, bcast := true, noloop := true, prefixes := [[]] },
        []) := by
  decide +kernel

end Dice.Ports.TrackingBroadcast
