import Dice.Verified.Run
import Dice.Ports.Tracking

/-!
# No missed invalidation

A client that tracks in the default mode stands in the table under every key
it has read, until a message that covers the key is on its way to it.  The one
exception is a client in NOLOOP mode: an invalidation in the context of its own
commands, be it of a key it has written, of an evicted key or of a key that
leaves the table, removes its entry without a message.
-/

namespace Dice.Ports.TrackingDelivery

open List Verified CString Table Index Run Tracking Option Nat

/-- The default mode, in RESP3 and without redirection. -/
structure Default (c : Client) : Prop where
  tracking : c.tracking = true
  bcast : c.bcast = false
  optin : c.optin = false
  optout : c.optout = false
  resp : 2 < c.resp
  redirection : c.redirection = 0

/-- Does a message tell that `key` is not valid any more? -/
def covers (key : Bytes) : Message → Bool
  | .invalidate keys => key ∈ keys
  | .invalidateAll => true
  | .redirBroken _ => false

/-- How many messages that cover `key` were sent to a client. -/
def received (s : Server) (cid : ClientId) (key : Bytes) : Nat :=
  s.sent.countP fun m => m.1 = cid ∧ covers key m.2 = true

/-- And how many of the pending ones do. -/
def queued (s : Server) (key : Bytes) : Nat :=
  s.pendingKeys.countP fun p => covers key (pendingMessage p)

/-- How many messages that cover `key` were sent to or are queued for a client. -/
def covered (s : Server) (cid : ClientId) (key : Bytes) : Nat :=
  received s cid key + if s.currentClient = some cid then queued s key else 0

/-- The prefixes of a client are different ones and lead to it. -/
def Placed (cid : ClientId) (t : Dict Bytes BcastState) (ps : List Bytes) : Prop :=
  ps.Nodup ∧ ∀ p ∈ ps, ∃ bs, t.lookup p = some bs ∧ cid ∈ bs.clients

/-- The clients other than `cid` stay with their prefixes. -/
def Stay (cid : ClientId) (t t' : Dict Bytes BcastState) : Prop :=
  ∀ id, id ≠ cid → ∀ ps, Placed id t ps → Placed id t' ps

/-- The counters are exact, and the prefixes of a client lead to it. -/
structure Sound (s : Server) : Prop where
  items : s.totalItems = sumValues length s.trackingTable
  clients : s.trackingClients = countValues Client.tracking s.clients
  placed : ∀ cid c, s.clients.lookup cid = some c → Placed cid s.prefixTable c.prefixes

lemma sound_start : Sound {} where
  items := rfl
  clients := rfl
  placed cid c hc := by simp at hc

section

variable {s : Server} (h : Sound s) {cid : ClientId} {c c' : Client}

include h

/-- One client comes, changes or goes, and the prefixes get a new table. -/
lemma Sound.change {clients : Dict ClientId Client} {new : Option Client}
    {t : Dict Bytes BcastState} {n : Nat}
    (hclients : ∀ id, clients.lookup id = if id = cid then new else s.clients.lookup id)
    (hcount : n + ((s.clients.lookup cid).any Client.tracking).toNat =
      s.trackingClients + (new.any Client.tracking).toNat)
    (hself : ∀ c', new = some c' → Placed cid t c'.prefixes) (hothers : Stay cid s.prefixTable t)
    (current : Option ClientId) : Sound { s with
      trackingClients := n, prefixTable := t, clients := clients, currentClient := current } where
  items := h.items
  clients := by
    have hchange := countValues_change Client.tracking s.clients hclients
    rw [← h.clients] at hchange
    exact add_right_cancel (hcount.trans hchange.symm)
  placed id c' hid := by
    rw [hclients] at hid
    split at hid
    next hat => exact hat ▸ hself c' hid
    next hne => exact hothers id hne _ (h.placed id c' hid)

variable (hc : s.clients.lookup cid = some c)

include hc

lemma Sound.update {t : Dict Bytes BcastState} {n : Nat}
    (hcount : n + c.tracking.toNat = s.trackingClients + c'.tracking.toNat)
    (hself : Placed cid t c'.prefixes) (hothers : Stay cid s.prefixTable t) :
    Sound ({ s with trackingClients := n, prefixTable := t }.put cid c') :=
  h.change (fun id => lookup_insert_eq s.clients cid id c') (by rw [hc]; exact hcount)
    (by rintro _ ⟨⟩; exact hself) hothers s.currentClient

lemma Sound.put (htracking : c'.tracking = c.tracking) (hprefixes : c'.prefixes = c.prefixes) :
    Sound (s.put cid c') :=
  h.update hc (by rw [htracking]) (hprefixes ▸ h.placed cid c hc) fun _ _ _ hps => hps

end

/-! ## What sending does -/

/-- Sending messages leaves the table and every client without a redirection as
they are, and no message to such a client is lost. -/
structure Sends (cid : ClientId) (key : Bytes) (s s' : Server) : Prop where
  record : ∀ c, s.clients.lookup cid = some c → c.redirection = 0 → s'.clients.lookup cid = some c
  current : s'.currentClient = s.currentClient
  table : s'.trackingTable = s.trackingTable
  covered : covered s cid key ≤ covered s' cid key
  sound : Sound s → Sound s'

section Sends

variable {cid : ClientId} {key : Bytes} {s s₁ s2 : Server}

lemma Sends.refl (cid : ClientId) (key : Bytes) (s : Server) : Sends cid key s s :=
  ⟨fun _ hc _ => hc, rfl, rfl, le_refl _, id⟩

lemma Sends.trans (h1 : Sends cid key s s₁) (h2 : Sends cid key s₁ s2) : Sends cid key s s2 where
  record c hc hr := h2.record c (h1.record c hc hr) hr
  current := h2.current.trans h1.current
  table := h2.table.trans h1.table
  covered := h1.covered.trans h2.covered
  sound hs := h2.sound (h1.sound hs)

lemma sends_foldl {α : Type} {f : Server → α → Server}
    (h : ∀ s a, Sends cid key s (f s a)) (l : List α) (s : Server) :
    Sends cid key s (l.foldl f s) :=
  foldlRecOn l f (Sends.refl cid key s) fun t ht a _ => ht.trans (h t a)

variable {c : Client}

/-- A loop that reaches `a` sends what `a` calls for. -/
lemma covered_foldl {α : Type} {f : Server → α → Server}
    (h : ∀ s a, Sends cid key s (f s a)) (hr : c.redirection = 0) {a : α}
    {current : Option ClientId}
    (ha : ∀ s, s.clients.lookup cid = some c → s.currentClient = current →
    covered s cid key < covered (f s a) cid key) {l : List α} (hmem : a ∈ l)
    (hc : s.clients.lookup cid = some c) (hcur : s.currentClient = current) :
    covered s cid key < covered (l.foldl f s) cid key := by
  obtain ⟨l1, l2, rfl⟩ := append_of_mem hmem
  rw [foldl_append]
  have hfirst := sends_foldl h l1 s
  have hat := ha _ (hfirst.record c hc hr) (hfirst.current.trans hcur)
  exact (hfirst.covered.trans_lt hat).trans_le (sends_foldl h l2 _).covered

section

variable (s : Server) (id cid : ClientId) (msg : Message) (key : Bytes)

lemma received_push : received (s.push id msg) cid key =
    received s cid key + if id = cid ∧ covers key msg then 1 else 0 := by
  simp [received, Server.push]

lemma covered_push : covered (s.push id msg) cid key =
    covered s cid key + if id = cid ∧ covers key msg then 1 else 0 := by
  rw [covered, received_push, Nat.add_right_comm]
  rfl

end

section

variable (s : Server) (id : ClientId) (msg : Message)

lemma sends_push : Sends cid key s (s.push id msg) where
  record c hc _ := hc
  current := rfl
  table := rfl
  covered := by
    rw [covered_push]
    exact le_add_right _ _
  sound h := { h with }

lemma sends_sendTrackingMessage : Sends cid key s (sendTrackingMessage s id msg) := by
  unfold sendTrackingMessage
  cases hid : s.clients.lookup id with
  | none => exact Sends.refl cid key s
  | some target =>
    by_cases hr : target.redirection = 0
    · simp only [if_pos hr]
      split
      · exact sends_push s id msg
      · exact Sends.refl cid key s
    simp only [if_neg hr]
    split
    · have hput : Sends cid key s (s.put id { target with brokenRedir := true }) := {
        record := fun c hc hrc => by
          rw [Server.put]
          grind
        current := rfl
        table := rfl
        covered := le_refl _
        sound := fun hs => hs.put hid rfl rfl }
      split
      · exact hput.trans (sends_push _ id _)
      · exact hput
    · split
      · exact sends_push s _ msg
      · exact Sends.refl cid key s

end

lemma sendTrackingMessage_default (hd : Default c)
    (hc : s.clients.lookup cid = some c) (msg : Message) :
    sendTrackingMessage s cid msg = s.push cid msg := by
  simp [sendTrackingMessage, hc, hd.redirection, hd.resp]

/-- A new pending key is one more message for the current client. -/
lemma sends_pending (s : Server) (p : Option Bytes) :
    Sends cid key s { s with pendingKeys := s.pendingKeys ++ [p] } where
  record c hc _ := hc
  current := rfl
  table := rfl
  covered := by
    simp only [TrackingDelivery.covered, received, queued, countP_append]
    split <;> omega
  sound h := { h with }

lemma covered_pending {p : Option Bytes} (hcur : s.currentClient = some cid)
    (hp : covers key (pendingMessage p)) :
    covered s cid key < covered { s with pendingKeys := s.pendingKeys ++ [p] } cid key := by
  simp only [TrackingDelivery.covered, received, queued, countP_append, if_pos hcur,
    countP_singleton, if_pos hp]
  omega

lemma sends_invalidateFor (k : Bytes) (s : Server) (id : ClientId) :
    Sends cid key s (invalidateFor k s id) := by
  unfold invalidateFor
  split
  · exact Sends.refl cid key s
  split_ifs
  · exact Sends.refl cid key s
  · exact Sends.refl cid key s
  · exact sends_pending s _
  · exact sends_sendTrackingMessage s id _

/-- Only NOLOOP and its own command exempt a client in the default mode. -/
lemma covered_invalidateFor (hd : Default c) (hc : s.clients.lookup cid = some c)
    (hloud : s.currentClient = some cid → c.noloop = false) :
    covered s cid key < covered (invalidateFor key s cid) cid key := by
  have hloop : ¬(c.noloop ∧ s.currentClient = some cid) := fun ⟨hn, hcur⟩ => by
    simp [hloud hcur] at hn
  simp only [invalidateFor, hc, hd.tracking, hd.bcast, Bool.not_true, Bool.or_false,
    if_neg hloop, Bool.false_eq_true, if_false]
  split
  · next hcur => exact covered_pending hcur.1 (by simp [covers, pendingMessage])
  · rw [sendTrackingMessage_default hd hc, covered_push, if_pos ⟨rfl, by simp [covers]⟩]
    exact lt_succ_self _

lemma sends_flushFor (s : Server) (id : ClientId) : Sends cid key s (flushFor s id) := by
  unfold flushFor
  split
  · exact Sends.refl cid key s
  split_ifs
  · exact sends_pending s none
  · exact sends_sendTrackingMessage s id _
  · exact Sends.refl cid key s

lemma covered_flushFor (hd : Default c) (hc : s.clients.lookup cid = some c) :
    covered s cid key < covered (flushFor s cid) cid key := by
  simp only [flushFor, hc, if_pos hd.tracking]
  split
  · next hcur => exact covered_pending hcur rfl
  · rw [sendTrackingMessage_default hd hc, covered_push, if_pos ⟨rfl, rfl⟩]
    exact lt_succ_self _

lemma sends_prefixTable {t : Dict Bytes BcastState} (h : ∀ p bs, s.prefixTable.lookup p = some bs →
      ∃ bs', t.lookup p = some bs' ∧ bs'.clients = bs.clients) :
    Sends cid key s { s with prefixTable := t } where
  record c hc _ := hc
  current := rfl
  table := rfl
  covered := le_refl _
  sound hs := { hs with
    placed := fun cid c hc => (hs.placed cid c hc).imp_right fun hps p hp => by
      obtain ⟨bs, hbs, hmem⟩ := hps p hp
      obtain ⟨bs', hbs', heq⟩ := h p bs hbs
      exact ⟨bs', hbs', heq ▸ hmem⟩ }

lemma sends_setKeys {p : Bytes} {bs : BcastState} (hp : s.prefixTable.lookup p = some bs)
    (keys : Dict Bytes (Option ClientId)) :
    Sends cid key s { s with prefixTable := s.prefixTable.insert p { bs with keys } } :=
  sends_prefixTable fun p' bs' hbs => by
    grind

lemma sends_rememberToBroadcast (s : Server) (modifier : Option ClientId) (k : Bytes) :
    Sends cid key s (trackingRememberKeyToBroadcast s modifier k) := by
  refine foldlRecOn (motive := fun t => Sends cid key s { s with prefixTable := t })
    s.prefixTable.keys _ (Sends.refl cid key s) ?_
  intro t ht p _
  split
  · exact ht
  next bs hbs =>
  split
  · exact ht.trans (sends_setKeys hbs _)
  · exact ht

section

variable (keys : Dict Bytes (Option ClientId)) (s : Server) (id : ClientId)

lemma sends_broadcastTo : Sends cid key s (broadcastTo keys s id) := by
  unfold broadcastTo
  split
  · exact Sends.refl cid key s
  dsimp only
  split_ifs
  · exact Sends.refl cid key s
  · exact sends_sendTrackingMessage s id _
  · exact sends_sendTrackingMessage s id _

lemma prefixTable_send (s : Server) (id : ClientId) (msg : Message) :
    (sendTrackingMessage s id msg).prefixTable = s.prefixTable := by
  unfold sendTrackingMessage
  grind [Server.push, Server.put]

lemma prefixTable_broadcastTo : (broadcastTo keys s id).prefixTable = s.prefixTable := by
  unfold broadcastTo
  grind [prefixTable_send]

end

lemma sends_broadcastPrefix (s : Server) (p : Bytes) : Sends cid key s (broadcastPrefix s p) := by
  unfold broadcastPrefix
  split
  · exact Sends.refl cid key s
  next bs hbs =>
  split_ifs
  · exact sends_setKeys hbs _
  have htable : (bs.clients.foldl (broadcastTo bs.keys) s).prefixTable = s.prefixTable :=
    foldlRecOn (motive := fun t => t.prefixTable = s.prefixTable) bs.clients _ rfl
      fun t ht id _ => (prefixTable_broadcastTo bs.keys t id).trans ht
  exact (sends_foldl (sends_broadcastTo bs.keys) bs.clients s).trans
    (sends_setKeys (by rw [htable]; exact hbs) _)

end Sends

/-! ## What an event keeps -/

/-- A client with record `c` afterwards has not lost its place under `key`
unless a message is on its way. -/
structure Keeps (cid : ClientId) (key : Bytes) (c : Client) (s s' : Server) : Prop where
  record : s'.clients.lookup cid = some c
  covered : covered s cid key ≤ covered s' cid key
  tracked : cid ∈ members s.trackingTable key →
    cid ∈ members s'.trackingTable key ∨ TrackingDelivery.covered s cid key <
      TrackingDelivery.covered s' cid key

section Keeps

variable {cid : ClientId} {key : Bytes} {c : Client} {s s₁ s2 : Server}

lemma Keeps.trans (h1 : Keeps cid key c s s₁) {c' : Client} (h2 : Keeps cid key c' s₁ s2) :
    Keeps cid key c' s s2 where
  record := h2.record
  covered := h1.covered.trans h2.covered
  tracked hmem := by
    rcases h1.tracked hmem with hmem | hlt
    · exact (h2.tracked hmem).imp_right h1.covered.trans_lt
    · exact .inr (hlt.trans_le h2.covered)

lemma Sends.keeps (h : Sends cid key s s₁) (hd : Default c)
    (hc : s.clients.lookup cid = some c) : Keeps cid key c s s₁ where
  record := h.record c hc hd.redirection
  covered := h.covered
  tracked hmem := .inl (h.table ▸ hmem)

lemma keeps_same (hc : s₁.clients.lookup cid = some c)
    (htable : ∀ id, id ∈ members s.trackingTable key → id ∈ members s₁.trackingTable key)
    (hsent : s₁.sent = s.sent) (hpending : s₁.pendingKeys = s.pendingKeys)
    (hcur : s₁.currentClient = some cid ↔ s.currentClient = some cid) : Keeps cid key c s s₁ where
  record := hc
  covered := by simp [TrackingDelivery.covered, received, queued, hsent, hpending, hcur]
  tracked hmem := .inl (htable cid hmem)

/-- `trackingInvalidateKey`: messages first, then the entry goes. -/
lemma invalidate_cases (cid : ClientId) (key : Bytes) (s : Server)
    (modifier : Option ClientId) (k : Bytes) (bcast : Bool) :
    ∃ s₁, Sends cid key s s₁ ∧
    ((s.trackingTable.lookup k = none ∧ trackingInvalidateKey s modifier k bcast = s₁) ∨
      ∃ ids, s.trackingTable.lookup k = some ids ∧
        trackingInvalidateKey s modifier k bcast = { s₁ with
          totalItems := s₁.totalItems - ids.length
          trackingTable := s₁.trackingTable.erase k } ∧
        ∀ c, Default c → s.clients.lookup cid = some c → key = k → cid ∈ ids →
          (s.currentClient = some cid → c.noloop = false) →
          covered s cid key < covered s₁ cid key) := by
  have hfirst : Sends cid key s
    (if bcast then trackingRememberKeyToBroadcast s modifier k else s) := by
    split
    · exact sends_rememberToBroadcast s modifier k
    · exact Sends.refl cid key s
  unfold trackingInvalidateKey
  generalize (if bcast then trackingRememberKeyToBroadcast s modifier k else s) = s0 at hfirst ⊢
  cases hids : s.trackingTable.lookup k with
  | none =>
    refine ⟨s0, hfirst, .inl ⟨rfl, ?_⟩⟩
    simp [hfirst.table, hids]
  | some ids =>
    refine ⟨ids.foldl (invalidateFor k) s0,
      hfirst.trans (sends_foldl (sends_invalidateFor k) ids s0), .inr ⟨ids, rfl, ?_, ?_⟩⟩
    · simp [hfirst.table, hids]
    rintro c hd hc rfl hmem hloud
    refine hfirst.covered.trans_lt (covered_foldl (sends_invalidateFor key) hd.redirection ?_
      hmem (hfirst.record c hc hd.redirection) hfirst.current)
    exact fun t ht hcur => covered_invalidateFor hd ht (hcur ▸ hloud)

/-- Entries are removed, that of `key` if `P`. -/
structure Evicts (cid : ClientId) (key : Bytes) (P : Prop) (s s' : Server) : Prop where
  sound : Sound s → Sound s'
  current : s'.currentClient = s.currentClient
  keeps : ∀ c, Default c → s.clients.lookup cid = some c →
    (P → s.currentClient = some cid → c.noloop = false) → Keeps cid key c s s'

lemma Sends.evicts (h : Sends cid key s s₁) (P : Prop) : Evicts cid key P s s₁ :=
  ⟨h.sound, h.current, fun _ hd hc _ => h.keeps hd hc⟩

lemma Evicts.trans {P Q : Prop} (h1 : Evicts cid key P s s₁) (h2 : Evicts cid key Q s₁ s2) :
    Evicts cid key (P ∨ Q) s s2 where
  sound h := h2.sound (h1.sound h)
  current := h2.current.trans h1.current
  keeps c hd hc hloud := by
    have hkeeps := h1.keeps c hd hc fun hp => hloud (.inl hp)
    exact hkeeps.trans (h2.keeps c hd hkeeps.record fun hq => h1.current ▸ hloud (.inr hq))

lemma evicts_invalidate (s : Server) (modifier : Option ClientId) (k : Bytes) (bcast : Bool) :
    Evicts cid key (key = k) s (trackingInvalidateKey s modifier k bcast) := by
  obtain ⟨s₁, hsends, ⟨-, heq⟩ | ⟨ids, hids, heq, hstrict⟩⟩ :=
    invalidate_cases cid key s modifier k bcast
  · exact heq ▸ hsends.evicts _
  rw [heq]
  refine ⟨fun h => { hsends.sound h with items := ?_ }, hsends.current, fun c hd hc hloud =>
    { hsends.keeps hd hc with tracked := fun hmem => ?_ }⟩
  · have herase := sumValues_erase length s₁.trackingTable k
    rw [hsends.table, hids] at herase
    rw [(hsends.sound h).items, hsends.table, herase]
    exact Nat.add_sub_cancel _ _
  by_cases hk : key = k
  · right
    exact hstrict c hd hc hk (by rwa [← members_of_lookup hids, ← hk]) (hloud hk)
  · left
    rw [members, lookup_erase_eq, if_neg hk, hsends.table]
    exact hmem

lemma covered_invalidate (hd : Default c) (hc : s.clients.lookup cid = some c)
    (modifier : Option ClientId) (bcast : Bool)
    (hloud : s.currentClient = some cid → c.noloop = false)
    (hmem : cid ∈ members s.trackingTable key) :
    covered s cid key < covered (trackingInvalidateKey s modifier key bcast) cid key := by
  obtain ⟨s₁, hsends, ⟨hnone, -⟩ | ⟨ids, hids, heq, hstrict⟩⟩ :=
    invalidate_cases cid key s modifier key bcast
  · simp [members, hnone] at hmem
  · rw [heq]
    exact hstrict c hd hc rfl (by rwa [← members_of_lookup hids]) hloud

/-- The limits of the table concern no client. -/
lemma sends_limits (s : Server) (timeoutCounter maxKeys : Nat) :
    Sends cid key s { s with timeoutCounter, maxKeys } :=
  ⟨fun _ hc _ => hc, rfl, rfl, le_refl _, fun h => { h with }⟩

lemma evicts_walk (s : Server) (walk : List Bytes) :
    Evicts cid key (key ∈ walk) s (evictKeys walk s) := by
  induction walk generalizing s with
  | nil => exact (sends_limits s _ s.maxKeys).evicts _
  | cons k walk ih =>
    rw [mem_cons, evictKeys]
    refine (evicts_invalidate s none k false).trans ?_
    split
    · exact (sends_limits _ 0 _).evicts _
    · exact ih _

lemma evicts_limit (s : Server) (walk : List Bytes) :
    Evicts cid key (key ∈ walk) s (trackingLimitUsedSlots s walk) := by
  unfold trackingLimitUsedSlots
  split_ifs
  · exact (Sends.refl cid key s).evicts _
  · exact (sends_limits s 0 s.maxKeys).evicts _
  · have hwalk : Evicts cid key _ s _ := evicts_walk s (walk.take (100 * (s.timeoutCounter + 1)))
    refine { hwalk with keeps := fun c hd hc hloud => hwalk.keeps c hd hc fun hmem => ?_ }
    exact hloud (mem_of_mem_take hmem)

lemma sends_flush (cid : ClientId) (key : Bytes) (s : Server) :
    Sends cid key s (if s.trackingClients = 0 then s else s.clients.keys.foldl flushFor s) := by
  split
  · exact Sends.refl cid key s
  · exact sends_foldl sends_flushFor _ s

lemma sound_flush (h : Sound s) : Sound (trackingInvalidateKeysOnFlush s) := by
  have h1 := (sends_flush 0 [] s).sound h
  exact { h1 with items := rfl }

section

variable (h : Sound s) (hd : Default c) (hc : s.clients.lookup cid = some c)

include h hd hc

lemma covered_flush : covered s cid key < covered (trackingInvalidateKeysOnFlush s) cid key := by
  have hsome : s.trackingClients ≠ 0 := by
    rw [h.clients, countValues_erase _ _ hc, if_pos hd.tracking]
    exact succ_ne_zero _
  have hmem : cid ∈ s.clients.keys := by
    have hin : (s.clients.lookup cid).isSome := by rw [hc]; rfl
    exact AList.lookup_isSome.mp hin
  rw [trackingInvalidateKeysOnFlush, if_neg hsome]
  exact covered_foldl (s := s) sends_flushFor hd.redirection
    (fun t ht _ => covered_flushFor hd ht) hmem hc rfl

lemma keeps_flush : Keeps cid key c s (trackingInvalidateKeysOnFlush s) where
  record := (sends_flush cid key s).record c hc hd.redirection
  covered := (covered_flush h hd hc).le
  tracked _ := .inr (covered_flush h hd hc)

end

lemma rememberKey_spec (h : Sound s) (id : ClientId) (k : Bytes) :
    ∃ table items, rememberKey id s k = { s with trackingTable := table, totalItems := items } ∧
    Sound { s with trackingTable := table, totalItems := items } ∧
    ∀ id' k', id' ∈ members table k' ↔ id' ∈ members s.trackingTable k' ∨ (k' = k ∧ id' = id) := by
  unfold rememberKey
  split
  · next hmem =>
    refine ⟨_, _, rfl, h, fun id' k' => ?_⟩
    grind
  refine ⟨_, _, rfl, { h with items := ?_ }, fun id' k' => mem_members_link⟩
  have hlen : ((s.trackingTable.lookup k).map length).getD 0 =
    (members s.trackingTable k).length := by
    rw [members]
    cases s.trackingTable.lookup k <;> rfl
  rw [link, sumValues_insert, h.items, sumValues_erase _ s.trackingTable k, hlen, length_append]
  rfl

lemma rememberKeys_spec (h : Sound s) (id : ClientId) (keys : List Bytes) :
    ∃ table items, keys.foldl (rememberKey id) s =
      { s with trackingTable := table, totalItems := items } ∧
    Sound { s with trackingTable := table, totalItems := items } ∧
    ∀ id' k', id' ∈ members table k' ↔
      id' ∈ members s.trackingTable k' ∨ (k' ∈ keys ∧ id' = id) := by
  induction keys generalizing s with
  | nil => exact ⟨_, _, rfl, h, by simp⟩
  | cons k keys ih =>
    obtain ⟨table1, items1, heq1, h1, hmem1⟩ := rememberKey_spec h id k
    obtain ⟨table, items, heq, hsound, hmem⟩ := ih h1
    refine ⟨table, items, by rw [foldl_cons, heq1, heq], hsound, fun id' k' => ?_⟩
    rw [hmem, hmem1, mem_cons]
    tauto

lemma received_pending (hd : Default c) (hc : s.clients.lookup cid = some c)
    (pending : List (Option Bytes)) :
    received (pending.foldl (fun s p => sendTrackingMessage s cid (pendingMessage p)) s) cid key
    = received s cid key + pending.countP fun p => covers key (pendingMessage p) := by
  induction pending generalizing s with
  | nil => rfl
  | cons p pending ih =>
    have hsend := sendTrackingMessage_default hd hc (pendingMessage p)
    rw [foldl_cons, hsend, ih (s := s.push cid _) hc, received_push, countP_cons]
    simp only [true_and]
    omega

/-- `trackingHandlePendingKeyInvalidations`: what was queued is sent. -/
lemma handlePending_spec (s : Server) (cid : ClientId) (key : Bytes) :
    ∃ t, trackingHandlePendingKeyInvalidations s = { t with pendingKeys := [] } ∧
    Sends cid key s t ∧ ∀ c, Default c → s.clients.lookup cid = some c →
      covered s cid key ≤ received t cid key := by
  unfold trackingHandlePendingKeyInvalidations
  split
  · next hcur =>
    refine ⟨s, rfl, Sends.refl cid key s, fun c _ _ => ?_⟩
    simp [covered, hcur]
  next id hcur =>
  have hsends : Sends cid key s _ := sends_foldl
    (fun s p => sends_sendTrackingMessage s id (pendingMessage p)) s.pendingKeys s
  refine ⟨_, rfl, hsends, fun c hd hc => ?_⟩
  by_cases hid : id = cid
  · subst hid
    rw [received_pending hd hc, covered, if_pos hcur]
    rfl
  · have hle := hsends.covered
    simp only [covered, hsends.current, hcur, some.injEq, if_neg hid] at hle ⊢
    exact hle

end Keeps

section Switching

variable {cid : ClientId} {c : Client} {s : Server} {t : Dict Bytes BcastState}

lemma leavePrefix_spec {p : Bytes} {bs : BcastState} (hbs : t.lookup p = some bs) :
    ∃ t', leavePrefix cid t p = some t' ∧ Stay cid t t' ∧
    ∀ p', p' ≠ p → t'.lookup p' = t.lookup p' := by
  refine ⟨_, by rw [leavePrefix, hbs]; rfl, ?_, ?_⟩
  · refine fun id hid ps => And.imp_right fun hps p' hp' => ?_
    obtain ⟨bs', hbs', hmem⟩ := hps p' hp'
    have hother : id ∈ bs'.clients.erase cid := (mem_erase_of_ne hid).mpr hmem
    grind
  intro p' hp'
  dsimp only
  split
  · rw [lookup_erase_eq, if_neg hp']
  · rw [lookup_insert_eq, if_neg hp']

/-- The loop of `disableTracking` finds every prefix. -/
lemma leavePrefixes_spec {ps : List Bytes} (hps : Placed cid t ps) :
    ∃ t', ps.foldlM (leavePrefix cid) t = some t' ∧ Stay cid t t' := by
  induction ps generalizing t with
  | nil => exact ⟨t, rfl, fun _ _ _ h => h⟩
  | cons p ps ih =>
    obtain ⟨hnodup, hfound⟩ := hps
    obtain ⟨bs, hbs, -⟩ := hfound p (by simp)
    obtain ⟨t1, ht1, hstay1, hrest⟩ := leavePrefix_spec hbs
    rw [nodup_cons] at hnodup
    obtain ⟨t', ht', hstay⟩ := ih ⟨hnodup.2, fun p' hp' => by
      rw [hrest p' fun heq => hnodup.1 (heq ▸ hp')]
      exact hfound p' (mem_cons_of_mem p hp')⟩
    exact ⟨t', by rw [foldlM_cons, ht1]; exact ht', fun id hid qs h =>
      hstay id hid qs (hstay1 id hid qs h)⟩

section

variable (h : Sound s) (hc : s.clients.lookup cid = some c)

include h hc

lemma disableTracking_spec : ∃ t n c', disableTracking s cid c =
      some ({ s with trackingClients := n, prefixTable := t }.put cid c') ∧
    c'.tracking = false ∧
    Sound ({ s with trackingClients := n, prefixTable := t }.put cid c') := by
  have hleave : ∃ t c1, (if c.bcast then c.prefixes.foldlM (leavePrefix cid) s.prefixTable
    else some s.prefixTable) = some t ∧
    (if c.bcast then { c with prefixes := [] } else c) = c1 ∧ c1.tracking = c.tracking ∧
    Placed cid t c1.prefixes ∧ Stay cid s.prefixTable t := by
    by_cases hb : c.bcast
    · obtain ⟨t, ht, hstay⟩ := leavePrefixes_spec (h.placed cid c hc)
      rw [if_pos hb, if_pos hb]
      exact ⟨t, _, ht, rfl, rfl, ⟨nodup_nil, by simp⟩, hstay⟩
    · rw [if_neg hb, if_neg hb]
      exact ⟨_, c, rfl, rfl, rfl, h.placed cid c hc, fun _ _ _ hps => hps⟩
  obtain ⟨t, c1, ht, hc1, hflag, hself, hstay⟩ := hleave
  simp only [disableTracking, ht, hc1, map_some]
  by_cases htr : c1.tracking
  · rw [if_pos htr]
    refine ⟨t, s.trackingClients - 1, _, rfl, rfl, h.update hc ?_ hself hstay⟩
    have hcount := countValues_erase Client.tracking s.clients hc
    rw [← h.clients, ← hflag, if_pos htr] at hcount
    rw [← hflag, htr, hcount]
    rfl
  · rw [if_neg htr]
    exact ⟨t, s.trackingClients, c1, rfl, by simpa using htr,
      h.update hc (by rw [hflag]) hself hstay⟩

lemma sound_enable (o : Options) : Sound (enableTracking s cid c o) := by
  unfold enableTracking
  generalize hst : (if o.bcast then _ else _ : Dict Bytes BcastState × List Bytes) = st
  have hinv : Placed cid st.1 st.2 ∧ Stay cid s.prefixTable st.1 := by
    have hbase : Placed cid s.prefixTable c.prefixes ∧ Stay cid s.prefixTable s.prefixTable :=
      ⟨h.placed cid c hc, fun _ _ _ hps => hps⟩
    subst hst
    split
    · refine foldlRecOn (motive := fun st : Dict Bytes BcastState × List Bytes =>
        Placed cid st.1 st.2 ∧ Stay cid s.prefixTable st.1) _ _ hbase ?_
      rintro st ⟨⟨hnodup, hself⟩, hstay⟩ p -
      unfold enableBcastTrackingForPrefix
      dsimp only
      split
      · exact ⟨⟨hnodup, hself⟩, hstay⟩
      · refine ⟨⟨hnodup.insert, fun p' hp' => ?_⟩, fun id hid ps hps =>
          (hstay id hid ps hps).imp_right fun hfound p' hp' => ?_⟩
        · grind
        · have hother := hfound p' hp'
          grind
    · exact hbase
  refine h.update hc ?_ hinv.1 hinv.2
  cases c.tracking <;> rfl

/-- CLIENT TRACKING touches one record, the prefixes and the counter. -/
lemma clientTracking_spec (o : Options) :
    ∃ s', clientTracking s cid c o = some s' ∧ Sound s' ∧ (s' = s ∨
    ∃ t n c', s' = { s with trackingClients := n, prefixTable := t }.put cid c') := by
  unfold clientTracking
  split_ifs
  · exact ⟨s, rfl, h, .inl rfl⟩
  · obtain ⟨t, n, c', heq, -, hsound⟩ := disableTracking_spec h hc
    exact ⟨_, heq, hsound, .inr ⟨t, n, c', rfl⟩⟩
  · exact ⟨s, rfl, h, .inl rfl⟩
  · exact ⟨s, rfl, h, .inl rfl⟩
  · exact ⟨_, rfl, sound_enable h hc o, .inr ⟨_, _, _, rfl⟩⟩

end

end Switching

/-! ## Events -/

/-- The client itself changes its mode or goes away. -/
def Reconfigures (cid : ClientId) : Event → Prop
  | .free id => id = cid
  | .hello id _ => id = cid
  | .tracking id _ => id = cid
  | _ => False

/-- The entry of a key is removed, other than by a flush. -/
def Invalidates (key : Bytes) : Event → Prop
  | .modify _ k => key = k
  | .limit walk => key ∈ walk
  | _ => False

/-- A key is modified. -/
def Modifies (key : Bytes) : Event → Prop
  | .modify _ k => key = k
  | .flush => True
  | _ => False

/-- No invalidation of the key in the context of the client. -/
def Spares (cid : ClientId) (key : Bytes) (s : Server) (e : Event) : Prop :=
  s.currentClient = some cid → ¬Invalidates key e

/-- What an event does for every client in the default mode. -/
structure Respects (s : Server) (e : Event) (s' : Server) : Prop where
  sound : Sound s'
  keeps : ∀ cid key c, Default c → s.clients.lookup cid = some c → ¬Reconfigures cid e →
    (Invalidates key e → s.currentClient = some cid → c.noloop = false) →
    ∃ c', Default c' ∧ c'.noloop = c.noloop ∧ Keeps cid key c' s s'

section Events

variable {s : Server} {e : Event} {id : ClientId} {r r' : Client}

lemma respects_evicts {s' : Server} (h : Sound s)
    (hs : ∀ cid key, Evicts cid key (Invalidates key e) s s') : Respects s e s' where
  sound := (hs 0 []).sound h
  keeps cid key c hd hc _ hloud := ⟨c, hd, rfl, (hs cid key).keeps c hd hc hloud⟩

lemma respects_sends {s' : Server} (h : Sound s) (hs : ∀ cid key, Sends cid key s s') :
    Respects s e s' :=
  respects_evicts h fun cid key => (hs cid key).evicts _

lemma respects_same (h : Sound s) : Respects s e s :=
  respects_sends h fun cid key => Sends.refl cid key s

section

variable (h : Sound s) (hr : s.clients.lookup id = some r)

include h hr

lemma respects_put (htracking : r'.tracking = r.tracking) (hprefixes : r'.prefixes = r.prefixes)
    (hdefault : ¬Reconfigures id e → Default r → Default r') (hnoloop : r'.noloop = r.noloop) :
    Respects s e (s.put id r') where
  sound := h.put hr htracking hprefixes
  keeps cid key c hd hc hrec _ := by
    by_cases hid : cid = id
    · subst hid
      obtain rfl : r = c := some.inj (hr.symm.trans hc)
      refine ⟨r', hdefault hrec hd, hnoloop, keeps_same ?_ (fun _ h => h) rfl rfl Iff.rfl⟩
      rw [Server.put, lookup_insert_eq, if_pos rfl]
    · refine ⟨c, hd, rfl, keeps_same ?_ (fun _ h => h) rfl rfl Iff.rfl⟩
      rw [Server.put, lookup_insert_eq, if_neg hid]
      exact hc

lemma respects_tracking (o : Options) :
    ∃ s', clientTracking s id r o = some s' ∧ Respects s (.tracking id o) s' := by
  obtain ⟨s', heq, hsound, rfl | ⟨t, n, r', rfl⟩⟩ := clientTracking_spec h hr o
  · exact ⟨_, heq, respects_same h⟩
  refine ⟨_, heq, hsound, fun cid key c hd hc hrec _ => ⟨c, hd, rfl, ?_⟩⟩
  refine keeps_same ?_ (fun _ h => h) rfl rfl Iff.rfl
  rw [Server.put, lookup_insert_eq, if_neg (Ne.symm hrec)]
  exact hc

lemma respects_free : ∃ s', (if r.tracking then disableTracking s id r else some s).map (fun s =>
      { s with
        clients := s.clients.erase id
        currentClient := if s.currentClient = some id then none else s.currentClient }) =
    some s' ∧ Respects s (.free id) s' := by
  have hoff : ∃ t n c, (if r.tracking then disableTracking s id r else some s) =
    some { s with trackingClients := n, prefixTable := t, clients := c } ∧
    Sound { s with trackingClients := n, prefixTable := t, clients := c } ∧
    (∀ cid, cid ≠ id → c.lookup cid = s.clients.lookup cid) ∧
    ∃ r', c.lookup id = some r' ∧ r'.tracking = false := by
    split
    · obtain ⟨t, n, r', heq, hr', hsound⟩ := disableTracking_spec h hr
      refine ⟨t, n, s.clients.insert id r', heq, hsound, fun cid hne => ?_, r', ?_, hr'⟩
      · rw [lookup_insert_eq, if_neg hne]
      · rw [lookup_insert_eq, if_pos rfl]
    · next htr => exact ⟨_, _, _, rfl, h, fun _ _ => rfl, r, hr, by simpa using htr⟩
  obtain ⟨t, n, clients, heq, hsound, hothers, r', hr', htr⟩ := hoff
  rw [heq]
  refine ⟨_, rfl, hsound.change (lookup_erase_eq clients id) (by simp [hr', htr]) nofun
    (fun _ _ _ hps => hps) _, fun cid key c hd hc hrec _ => ⟨c, hd, rfl, ?_⟩⟩
  have hne : cid ≠ id := Ne.symm hrec
  refine keeps_same ?_ (fun _ h => h) rfl rfl ?_
  · rw [lookup_erase_eq, if_neg hne, hothers cid hne]
    exact hc
  · grind

end

lemma respects_read (h : Sound s) (id : ClientId) (r : Client) (isPubsub : Bool)
    (keys : List Bytes) : Respects s e (trackingRememberKeys s id r isPubsub keys) := by
  unfold trackingRememberKeys
  split_ifs
  · exact respects_same h
  · exact respects_same h
  obtain ⟨table, items, heq, hsound, hmem⟩ := rememberKeys_spec h id keys
  rw [heq]
  refine ⟨hsound, fun cid key c hd hc _ _ => ⟨c, hd, rfl, ?_⟩⟩
  exact keeps_same hc (fun id' hid' => (hmem id' key).mpr (.inl hid')) rfl rfl Iff.rfl

/-- The pending messages are sent; `current` is the client afterwards. -/
lemma respects_handlePending (h : Sound s) (current : Server → Option ClientId) :
    Respects s e { trackingHandlePendingKeyInvalidations s with
    currentClient := current (trackingHandlePendingKeyInvalidations s) } where
  sound := by
    obtain ⟨t, heq, hsends, -⟩ := handlePending_spec s 0 []
    have ht := hsends.sound h
    rw [heq]
    exact { ht with }
  keeps cid key c hd hc _ _ := by
    obtain ⟨t, heq, hsends, hle⟩ := handlePending_spec s cid key
    rw [heq]
    refine ⟨c, hd, rfl, hsends.record c hc hd.redirection, ?_, fun hmem => .inl ?_⟩
    · exact (hle c hd hc).trans (le_add_right _ _)
    · exact hsends.table ▸ hmem

lemma withClient_spec {f : Client → Option Server} (h : Sound s)
    (hf : ∀ r, s.clients.lookup id = some r → ∃ s', f r = some s' ∧ Respects s e s') :
    ∃ s', s.withClient id f = some s' ∧ Respects s e s' := by
  unfold Server.withClient
  cases hr : s.clients.lookup id with
  | none => exact ⟨s, rfl, respects_same h⟩
  | some r => exact hf r hr

lemma step_respects (h : Sound s) (e : Event) : ∃ s', step s e = some s' ∧ Respects s e s' := by
  cases e with
  | connect id =>
    rw [step]
    cases hid : s.clients.lookup id with
    | some r => exact ⟨s, rfl, respects_same h⟩
    | none =>
      refine ⟨_, rfl, h.change (fun id' => lookup_insert_eq s.clients id id' {}) (by simp [hid])
        (by rintro _ ⟨⟩; exact ⟨nodup_nil, by simp⟩) (fun _ _ _ hps => hps) s.currentClient,
        fun cid key c hd hc _ _ => ⟨c, hd, rfl, ?_⟩⟩
      refine keeps_same ?_ (fun _ h => h) rfl rfl Iff.rfl
      rw [Server.put]
      grind
  | free id => exact withClient_spec h fun r hr => respects_free h hr
  | begin id =>
    refine withClient_spec h fun _ _ => ?_
    split_ifs with hidle
    · refine ⟨_, rfl, { h with }, fun cid key c hd hc _ _ => ⟨c, hd, rfl, hc, ?_, .inl⟩⟩
      simp [covered, received, hidle]
    · exact ⟨s, rfl, respects_same h⟩
  | executing on =>
    rw [step]
    split
    · exact ⟨s, rfl, respects_same h⟩
    · exact withClient_spec h fun r hr => ⟨_, rfl, respects_put h hr rfl rfl
        (fun _ hd => { hd with }) rfl⟩
  | handlePending => exact ⟨_, rfl, respects_handlePending h Server.currentClient⟩
  | finish => exact ⟨_, rfl, respects_handlePending h fun _ => none⟩
  | hello id resp =>
    exact withClient_spec h fun r hr => ⟨_, rfl, respects_put h hr rfl rfl
      (fun hrec _ => absurd rfl hrec) rfl⟩
  | pubsub id on =>
    exact withClient_spec h fun r hr => ⟨_, rfl, respects_put h hr rfl rfl
      (fun _ hd => { hd with }) rfl⟩
  | tracking id o => exact withClient_spec h fun r hr => respects_tracking h hr o
  | caching id arg =>
    refine withClient_spec h fun r hr => ?_
    have hput : ∀ caching, Respects s (.caching id arg) (s.put id { r with caching }) :=
      fun _ => respects_put h hr rfl rfl (fun _ hd => { hd with }) rfl
    cases arg with
    | none => exact ⟨_, rfl, hput false⟩
    | some yes =>
      dsimp only
      split_ifs
      · exact ⟨_, rfl, hput true⟩
      · exact ⟨s, rfl, respects_same h⟩
      · exact ⟨_, rfl, hput true⟩
      · exact ⟨s, rfl, respects_same h⟩
  | read isPubsub keys =>
    rw [step]
    split
    · exact ⟨s, rfl, respects_same h⟩
    refine withClient_spec h fun r _ => ?_
    split
    · exact ⟨_, rfl, respects_read h _ r isPubsub keys⟩
    · exact ⟨s, rfl, respects_same h⟩
  | modify modifier k =>
    exact ⟨_, rfl, respects_evicts h fun _ _ => evicts_invalidate s modifier k true⟩
  | flush =>
    exact ⟨_, rfl, sound_flush h, fun cid key c hd hc _ _ => ⟨c, hd, rfl, keeps_flush h hd hc⟩⟩
  | limit walk =>
    rw [step]
    split
    · exact ⟨s, rfl, respects_same h⟩
    · exact ⟨_, rfl, respects_evicts h fun _ _ => evicts_limit s walk⟩
  | broadcast =>
    rw [step, trackingBroadcastInvalidationMessages]
    split
    · exact ⟨s, rfl, respects_same h⟩
    · exact ⟨_, rfl, respects_sends h fun _ _ => sends_foldl sends_broadcastPrefix _ s⟩
  | config maxKeys =>
    exact ⟨_, rfl, respects_sends h fun _ _ => sends_limits s s.timeoutCounter maxKeys⟩

/-- A whole run keeps a key of a client whose commands spare it. -/
lemma run_keeps {t : Server} {between : List Event} {cid : ClientId} {key : Bytes}
    {c : Client} (h : Sound s) (hd : Default c) (hc : s.clients.lookup cid = some c)
    (hrec : ∀ e ∈ between, ¬Reconfigures cid e)
    (hspares : c.noloop → Within step (Spares cid key) s between)
    (hrun : run step s between = some t) :
    Sound t ∧ ∃ c', Default c' ∧ c'.noloop = c.noloop ∧ Keeps cid key c' s t := by
  induction between generalizing s c with
  | nil =>
    cases hrun
    exact ⟨h, c, hd, rfl, (Sends.refl cid key _).keeps hd hc⟩
  | cons e between ih =>
    obtain ⟨s₁, hstep, hrest⟩ := run_cons_some hrun
    obtain ⟨s', hs', hrespects⟩ := step_respects h e
    obtain rfl : s' = s₁ := some.inj (hs'.symm.trans hstep)
    obtain ⟨c1, hd1, hnoloop1, hkeeps1⟩ := hrespects.keeps cid key c hd hc
      (hrec e (by simp)) fun hinv hcur => by
        by_contra hloop
        exact (hspares (by simpa using hloop)).1 hcur hinv
    obtain ⟨ht, c2, hd2, hnoloop2, hkeeps2⟩ := ih hrespects.sound hd1 hkeeps1.record
      (fun e he => hrec e (by simp [he])) (fun hloop => by
        have hwithin := (hspares (hnoloop1 ▸ hloop)).2
        rwa [hstep] at hwithin) hrest
    exact ⟨ht, c2, hd2, hnoloop2.trans hnoloop1, hkeeps1.trans hkeeps2⟩

end Events

/-- In every run the item counter is exact.  A client in the default mode reads
`keys` in any state reached; after any further run in which it keeps its mode
and, with NOLOOP, no invalidation of `key` happens in its own commands: if no
message that covers `key` was sent or queued since, then every modification of
`key` sends or queues one, unless it is made in the client's own context with
NOLOOP. -/
theorem tracking_invalidates_read_keys (events : List Event) : ∃ s, run step {} events = some s ∧
      s.totalItems = sumValues List.length s.trackingTable ∧
      ∀ cid c keys key between, s.currentClient = some cid →
        s.clients.lookup cid = some c → Default c → key ∈ keys →
        (∀ e ∈ between, ¬Reconfigures cid e) →
        ∃ s₁ t, step s (.read false keys) = some s₁ ∧ run step s₁ between = some t ∧
          ((c.noloop = true → Within step (Spares cid key) s₁ between) →
            covered t cid key = covered s₁ cid key →
            ∀ e, Modifies key e → (t.currentClient = some cid → c.noloop = false) →
              ∃ t', step t e = some t' ∧ covered t cid key < covered t' cid key) := by
  obtain ⟨s, hrun, h⟩ := run_total' (I := Sound)
    (fun s e hs => (step_respects hs e).imp fun _ hs' => ⟨hs'.1, hs'.2.sound⟩) sound_start events
  refine ⟨s, hrun, h.items, fun cid c keys key between hcur hc hd hkey hrec => ?_⟩
  obtain ⟨table, items, heq, h₁, hmem⟩ := rememberKeys_spec h cid keys
  have hread : step s (.read false keys) =
      some { s with trackingTable := table, totalItems := items } := by
    simp only [step, hcur, Server.withClient, hc, hd.tracking, hd.bcast, trackingRememberKeys,
      hd.optin, hd.optout, heq]
    rfl
  obtain ⟨t, hrun₁, ht⟩ := run_total' (I := Sound)
    (fun s e hs => (step_respects hs e).imp fun _ hs' => ⟨hs'.1, hs'.2.sound⟩) h₁ between
  refine ⟨_, t, hread, hrun₁, fun hspares hquiet e he hloud => ?_⟩
  obtain ⟨-, c', hd', hnoloop, hkeeps⟩ := run_keeps h₁ hd hc hrec hspares hrun₁
  have hin : cid ∈ members t.trackingTable key :=
    (hkeeps.tracked ((hmem cid key).mpr (.inr ⟨hkey, rfl⟩))).resolve_right hquiet.not_gt
  rw [← hnoloop] at hloud
  cases e with
  | modify modifier k =>
    obtain rfl : key = k := he
    exact ⟨_, rfl, covered_invalidate hd' hkeeps.record modifier true hloud hin⟩
  | flush => exact ⟨_, rfl, covered_flush ht hd' hkeeps.record⟩
  | _ => exact absurd he id

/-- Client 1 reads a key, and client 2 modifies it. -/
theorem tracking_invalidates_read_keys_writer : ∃ s₁ t t', run step {} [.connect 2, .connect 1,
      .hello 1 3, .tracking 1 {}, .begin 1, .read false [[107]]] = some s₁ ∧
    run step s₁ [.finish, .begin 2] = some t ∧ step t (.modify (some 2) [107]) = some t' ∧
    covered t 1 [107] < covered t' 1 [107] := by
  obtain ⟨s, hrun, -, hread⟩ := tracking_invalidates_read_keys [.connect 2, .connect 1,
    .hello 1 3, .tracking 1 {}, .begin 1]
  cases hrun.symm.trans rfl
  obtain ⟨s₁, t, hs₁, ht, htold⟩ := hread 1 _ [[107]] [107] [.finish, .begin 2] rfl rfl
    ⟨rfl, rfl, rfl, rfl, by decide, rfl⟩ (by simp) (by simp [Reconfigures])
  cases hs₁
  cases ht
  obtain ⟨t', ht', hlt⟩ := htold nofun rfl (.modify (some 2) [107]) rfl nofun
  exact ⟨_, _, t', rfl, rfl, ht', hlt⟩

/-- Client 1 tracks with NOLOOP and has read `k`.  In the first run it modifies
`k` itself, in the second `k` leaves the table at the beginning of its next
command.  Client 2 then modifies `k`, and no message is sent in either. -/
theorem noloop_missed_invalidations :
    (run step {} [.connect 1, .connect 2, .hello 1 3, .tracking 1 { noloop := true },
      .begin 1, .read false [ofString "k"], .finish,
      .begin 1, .modify (some 1) (ofString "k"), .finish,
      .begin 2, .modify (some 2) (ofString "k"), .finish]).map
        (fun t => (t.clients.lookup 1, t.sent)) =
      some (some { resp := 3, tracking := true, noloop := true }, []) ∧
    (run step {} [.config 1, .connect 1, .connect 2, .hello 1 3, .tracking 1 { noloop := true },
      .begin 1, .read false [ofString "j", ofString "k"], .finish,
      .begin 1, .limit [ofString "k"], .finish,
      .begin 2, .modify (some 2) (ofString "k"), .finish]).map
        (fun t => (t.clients.lookup 1, t.sent)) =
      some (some { resp := 3, tracking := true, noloop := true }, []) := by
  decide +kernel

end Dice.Ports.TrackingDelivery
