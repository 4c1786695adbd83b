import Dice.Verified.Index
import Dice.Ports.ObserveConsistency
import Mathlib.Data.Finset.Card

/-!
# RESET and the subscriptions of a client

`clearClientConnectionState`, the body of `RESET`, is to leave a client as one
that has just connected.  The tables of pub/sub stand beside the observe
registry here: a client is in the list of a channel exactly if the channel is
in its own dictionary, so that the assertions of `pubsub.c` hold, and the flag
and the counter follow.  `RESET` empties all of them, but of the registry it
touches nothing.
-/

namespace Dice.Ports.ConnectionReset

open List Function Verified CString Run Table Index Option
open ObserveRegistry ObserveConsistency

/-- The two values of `pubsubtype`, and the patterns. -/
inductive Kind
  | channel
  | shardChannel
  | pattern
  deriving DecidableEq, Repr

/-- The tables of the server, and the dictionaries and the `pubsub` flags of
all clients. -/
structure Pubsub where
  subscribers : Kind → Dict Bytes (List ClientId) := fun _ => ∅
  subscriptions : Kind → Dict ClientId (List Bytes) := fun _ => ∅
  flagged : Finset ClientId := ∅
  pubsubClients : Int := 0

variable (p : Pubsub) (kind : Kind) (cid : ClientId)

def Pubsub.subscribed (channel : Bytes) : Prop :=
  channel ∈ members (p.subscriptions kind) cid
  deriving Decidable

/-- `pubsubSubscribeChannel` and `pubsubSubscribePattern`. -/
def subscribeChannel (p : Pubsub) (channel : Bytes) : Pubsub :=
  if p.subscribed kind cid channel then p
  else
    { p with
      subscribers := update p.subscribers kind (link (p.subscribers kind) channel cid)
      subscriptions := update p.subscriptions kind (link (p.subscriptions kind) cid channel) }

/-- `pubsubUnsubscribeChannel` and `pubsubUnsubscribePattern`. -/
def unsubscribeChannel (p : Pubsub) (channel : Bytes) : Pubsub :=
  if p.subscribed kind cid channel then
    { p with
      subscribers := update p.subscribers kind (unlink (p.subscribers kind) channel cid)
      subscriptions := update p.subscriptions kind (unlink (p.subscriptions kind) cid channel) }
  else p

/-- `pubsubUnsubscribeAllChannelsInternal` and `pubsubUnsubscribeAllPatterns`. -/
def unsubscribeAll (p : Pubsub) (kind : Kind) : Pubsub :=
  (members (p.subscriptions kind) cid).foldl (unsubscribeChannel kind cid) p

def markClientAsPubSub : Pubsub :=
  if cid ∈ p.flagged then p
  else { p with flagged := insert cid p.flagged, pubsubClients := p.pubsubClients + 1 }

def unmarkClientAsPubSub : Pubsub :=
  if cid ∈ p.flagged then
    { p with flagged := p.flagged.erase cid, pubsubClients := p.pubsubClients - 1 }
  else p

def clientTotalPubSubSubscriptionCount : Nat :=
  (members (p.subscriptions .channel) cid).length +
    (members (p.subscriptions .pattern) cid).length +
    (members (p.subscriptions .shardChannel) cid).length

/-- `SUBSCRIBE`, `SSUBSCRIBE` and `PSUBSCRIBE`. -/
def subscribeCommand (channels : List Bytes) (p : Pubsub) : Pubsub :=
  markClientAsPubSub (channels.foldl (subscribeChannel kind cid) p) cid

/-- `UNSUBSCRIBE`, `SUNSUBSCRIBE` and `PUNSUBSCRIBE`. -/
def unsubscribeCommand (channels : List Bytes) (p : Pubsub) : Pubsub :=
  -- without a channel: all of them
  let channels := if channels = [] then members (p.subscriptions kind) cid else channels
  let p := channels.foldl (unsubscribeChannel kind cid) p
  if clientTotalPubSubSubscriptionCount p cid = 0 then unmarkClientAsPubSub p cid else p

/-- The part of `clearClientConnectionState` and `freeClient` about pub/sub. -/
def unsubscribeClient : Pubsub :=
  unmarkClientAsPubSub ([.channel, .shardChannel, .pattern].foldl (unsubscribeAll cid) p) cid

structure State where
  pubsub : Pubsub := {}
  registry : Server := {}

/-- What can happen: the commands of pub/sub, which name a channel if they
subscribe, and the events of the registry.  A command that `processCommand`
refuses is no event, and a slot that moves away is a `SUNSUBSCRIBE` of each
client. -/
inductive Event
  | subscribe (kind : Kind) (cid : ClientId) (channel : Bytes) (channels : List Bytes)
  | unsubscribe (kind : Kind) (cid : ClientId) (channels : List Bytes)
  | registry (e : ObserveRegistry.Event)

def step (s : State) : Event → Option State
  | .subscribe kind cid channel channels =>
    (s.registry.clients.lookup cid).map fun c =>
      -- `SSUBSCRIBE` is refused in a transaction, too
      if c.denyBlocking && (kind = .shardChannel || !c.multi) then s
      else { s with pubsub := subscribeCommand kind cid (channel :: channels) s.pubsub }
  | .unsubscribe kind cid channels =>
    (s.registry.clients.lookup cid).map fun _ =>
      { s with pubsub := unsubscribeCommand kind cid channels s.pubsub }
  | .registry e =>
    (ObserveRegistry.step s.registry e).map fun registry =>
      match e with
      | .reset cid => { registry := registry, pubsub := unsubscribeClient s.pubsub cid }
      | .free cid => { registry := registry, pubsub := unsubscribeClient s.pubsub cid }
      | _ => { s with registry := registry }

/-! ## The invariant -/

/-- The two sides agree. -/
structure Paired (p : Pubsub) : Prop where
  mem_iff : ∀ kind channel cid,
    cid ∈ members (p.subscribers kind) channel ↔ p.subscribed kind cid channel
  nodup : ∀ kind channel, (members (p.subscribers kind) channel).Nodup
  own_nodup : ∀ kind cid, (members (p.subscriptions kind) cid).Nodup

/-- The flag, too, is set while there is a subscription, and counted. -/
structure Sound (p : Pubsub) : Prop extends Paired p where
  flag_iff : ∀ cid, cid ∈ p.flagged ↔ ∃ kind channel, p.subscribed kind cid channel
  count_eq : p.pubsubClients = p.flagged.card

variable {p : Pubsub} {kind : Kind} {cid : ClientId} {s : State} {c : Client}

/-- `p'` differs from `p` only in what `cid` is subscribed to. -/
structure Frame (cid : ClientId) (p p' : Pubsub) : Prop where
  paired : Paired p'
  others : ∀ kind cid' channel, cid' ≠ cid →
    (p'.subscribed kind cid' channel ↔ p.subscribed kind cid' channel)
  flagged_eq : p'.flagged = p.flagged
  count_eq : p'.pubsubClients = p.pubsubClients

lemma Frame.trans {p1 p2 : Pubsub} (h : Frame cid p p1) (h' : Frame cid p1 p2) :
    Frame cid p p2 where
  paired := h'.paired
  others kind cid' channel hne :=
    (h'.others kind cid' channel hne).trans (h.others kind cid' channel hne)
  flagged_eq := h'.flagged_eq.trans h.flagged_eq
  count_eq := h'.count_eq.trans h.count_eq

lemma channel_spec (joins : Bool) (h : Paired p) (channel : Bytes) :
    let p' := cond joins (subscribeChannel kind cid) (unsubscribeChannel kind cid) p channel
    Frame cid p p' ∧ ∀ k ch, p'.subscribed k cid ch ↔
    if k = kind ∧ ch = channel then joins = true else p.subscribed k cid ch := by
  have hsame : (p.subscribed kind cid channel ↔ joins = true) → Frame cid p p ∧
      ∀ k ch, p.subscribed k cid ch ↔
        if k = kind ∧ ch = channel then joins = true else p.subscribed k cid ch := by
    refine fun hin => ⟨⟨h, by simp, rfl, rfl⟩, fun k ch => ?_⟩
    split
    next heq => rw [heq.1, heq.2, hin]
    next => rfl
  obtain ⟨h1, h2, h3⟩ := h
  cases joins with
  | true =>
    rw [cond_true]
    unfold subscribeChannel
    split
    next hin => exact hsame (by simp [hin])
    next hout =>
    refine ⟨⟨⟨fun k ch cid' => ?_, fun k ch => ?_, fun k cid' => ?_⟩, fun k cid' ch hne => ?_,
      rfl, rfl⟩, fun k ch => ?_⟩
    · rw [Pubsub.subscribed, mem_update_link, mem_update_link, h1, Pubsub.subscribed]
      tauto
    · exact nodup_update_link _ _ h2 (by rwa [h1])
    · exact nodup_update_link _ _ h3 hout
    · simp [Pubsub.subscribed, mem_update_link, hne]
    · rw [Pubsub.subscribed, mem_update_link, Pubsub.subscribed]
      split <;> tauto
  | false =>
    rw [cond_false]
    unfold unsubscribeChannel
    split
    next hin =>
      refine ⟨⟨⟨fun k ch cid' => ?_, fun k ch => ?_, fun k cid' => ?_⟩, fun k cid' ch hne => ?_,
        rfl, rfl⟩, fun k ch => ?_⟩
      · rw [Pubsub.subscribed, mem_update_unlink _ _ _ _ _ _ h2,
          mem_update_unlink _ _ _ _ _ _ h3, h1, Pubsub.subscribed]
        tauto
      · exact nodup_update_unlink _ _ _ _ _ h2
      · exact nodup_update_unlink _ _ _ _ _ h3
      · simp [Pubsub.subscribed, mem_update_unlink _ _ _ _ _ _ h3, hne]
      · rw [Pubsub.subscribed, mem_update_unlink _ _ _ _ _ _ h3, Pubsub.subscribed]
        split <;> tauto
    next hout => exact hsame (by simp [hout])

lemma channels_spec (joins : Bool) (channels : List Bytes) (h : Paired p) :
    let p' := channels.foldl
      (cond joins (subscribeChannel kind cid) (unsubscribeChannel kind cid)) p
    Frame cid p p' ∧ ∀ k ch, p'.subscribed k cid ch ↔
      if k = kind ∧ ch ∈ channels then joins = true else p.subscribed k cid ch := by
  induction channels generalizing p with
  | nil => exact ⟨⟨h, by simp, rfl, rfl⟩, by simp⟩
  | cons channel channels ih =>
    obtain ⟨hf, hset⟩ := channel_spec joins h channel
    obtain ⟨hf', hset'⟩ := ih hf.paired
    refine ⟨hf.trans hf', fun k ch => (hset' k ch).trans ?_⟩
    rw [hset]
    by_cases hrest : k = kind ∧ ch ∈ channels
    · rw [if_pos hrest, if_pos ⟨hrest.1, mem_cons_of_mem _ hrest.2⟩]
    · simp only [mem_cons, and_or_left, hrest, or_false, if_false]

lemma unsubscribeAll_spec (h : Paired p) (cid : ClientId) (kind : Kind) :
    Frame cid p (unsubscribeAll cid p kind) ∧ ∀ k ch,
      (unsubscribeAll cid p kind).subscribed k cid ch ↔ k ≠ kind ∧ p.subscribed k cid ch := by
  obtain ⟨hf, hset⟩ := channels_spec false (members (p.subscriptions kind) cid) h
  refine ⟨hf, fun k ch => (hset k ch).trans ?_⟩
  by_cases hk : k = kind
  · subst hk
    simp [Pubsub.subscribed]
  · simp [hk]

/-- The flag is set or cleared as the subscriptions ask for. -/
lemma flag_spec (joins : Bool) {p' : Pubsub} (hp : Sound p) (hf : Frame cid p p')
    (hjoins : joins = true ↔ ∃ kind channel, p'.subscribed kind cid channel) :
    let q := cond joins markClientAsPubSub unmarkClientAsPubSub p' cid
    Sound q ∧ q.subscribed = p'.subscribed := by
  obtain ⟨h1, h2, h3⟩ := hf.paired
  have hcount : p'.pubsubClients = p'.flagged.card := by
    rw [hf.count_eq, hp.count_eq, hf.flagged_eq]
  have hflag : ∀ flagged : Finset ClientId,
      (∀ id, id ∈ flagged ↔ if id = cid then joins = true else id ∈ p'.flagged) →
      ∀ id, id ∈ flagged ↔ ∃ kind channel, p'.subscribed kind id channel := by
    intro flagged hmem id
    rw [hmem]
    split
    next heq => rw [heq, hjoins]
    next hne => simp [hf.flagged_eq, hp.flag_iff, hf.others _ _ _ hne]
  cases joins with
  | true =>
    rw [cond_true]
    unfold markClientAsPubSub
    split
    next hin => exact ⟨⟨hf.paired, hflag _ fun id => by split <;> simp_all, hcount⟩, rfl⟩
    next hout =>
      refine ⟨⟨⟨h1, h2, h3⟩, hflag _ fun id => ?_, ?_⟩, rfl⟩
      · rw [Finset.mem_insert]
        split <;> simp_all
      · simp [hcount, hout]
  | false =>
    rw [cond_false]
    unfold unmarkClientAsPubSub
    split
    next hin =>
      refine ⟨⟨⟨h1, h2, h3⟩, hflag _ fun id => ?_, ?_⟩, rfl⟩
      · rw [Finset.mem_erase]
        split <;> simp_all
      · show p'.pubsubClients - 1 = (p'.flagged.erase cid).card
        have := Finset.card_erase_add_one hin
        omega
    next hout => exact ⟨⟨hf.paired, hflag _ fun id => by split <;> simp_all, hcount⟩, rfl⟩

lemma unsubscribeClient_spec (hp : Sound p) (cid : ClientId) : Sound (unsubscribeClient p cid) ∧
    ∀ kind channel, ¬ (unsubscribeClient p cid).subscribed kind cid channel := by
  obtain ⟨hf1, hs1⟩ := unsubscribeAll_spec hp.toPaired cid .channel
  obtain ⟨hf2, hs2⟩ := unsubscribeAll_spec hf1.paired cid .shardChannel
  obtain ⟨hf3, hs3⟩ := unsubscribeAll_spec hf2.paired cid .pattern
  have hnone := fun kind channel => (hs3 kind channel).not.mpr (by
    rw [hs2, hs1]
    cases kind <;> simp)
  obtain ⟨hok, hsub⟩ := flag_spec false hp ((hf1.trans hf2).trans hf3) (by simp [hnone])
  exact ⟨hok, fun kind channel hin => hnone kind channel (hsub ▸ hin)⟩

lemma total_eq_zero_iff (p : Pubsub) (cid : ClientId) :
    clientTotalPubSubSubscriptionCount p cid = 0 ↔
    ∀ kind channel, ¬ p.subscribed kind cid channel := by
  simp only [clientTotalPubSubSubscriptionCount, Nat.add_eq_zero_iff, length_eq_zero_iff,
    eq_nil_iff_forall_not_mem, Pubsub.subscribed]
  constructor
  · rintro ⟨⟨h1, h2⟩, h3⟩ (_ | _ | _)
    exacts [h1, h3, h2]
  · intro h
    exact ⟨⟨h _, h _⟩, h _⟩

lemma sound_unsubscribeCommand (hp : Sound p) (kind : Kind) (cid : ClientId)
    (channels : List Bytes) : Sound (unsubscribeCommand kind cid channels p) := by
  unfold unsubscribeCommand
  generalize (if channels = [] then members (p.subscriptions kind) cid else channels) = chosen
  obtain ⟨hf, hset⟩ : Frame cid p (chosen.foldl (unsubscribeChannel kind cid) p) ∧ _ :=
    channels_spec false chosen hp.toPaired
  dsimp only
  split_ifs with hzero
  · exact (flag_spec false hp hf (by simp [(total_eq_zero_iff _ cid).mp hzero])).1
  rw [total_eq_zero_iff] at hzero
  push Not at hzero
  obtain ⟨k, ch, hin⟩ := hzero
  have hwas : p.subscribed k cid ch := by
    have hset := (hset k ch).mp hin
    split at hset
    · cases hset
    · exact hset
  have hmarked := (hp.flag_iff cid).mpr ⟨k, ch, hwas⟩
  have hok := (flag_spec true hp hf (iff_of_true rfl ⟨k, ch, hin⟩)).1
  rwa [cond_true, markClientAsPubSub, if_pos (hf.flagged_eq ▸ hmarked)] at hok

lemma step_sound (s : State) (e : Event) (s' : State)
    (hs : Sound s.pubsub ∧ Consistent s.registry) (h : step s e = some s') :
    Sound s'.pubsub ∧ Consistent s'.registry := by
  obtain ⟨hp, hreg⟩ := hs
  cases e with
  | subscribe kind cid channel channels =>
    obtain ⟨c, -, rfl⟩ := map_eq_some_iff.mp h
    split
    · exact ⟨hp, hreg⟩
    obtain ⟨hf, hset⟩ := channels_spec true (channel :: channels) hp.toPaired
    refine ⟨(flag_spec true hp hf (iff_of_true rfl ⟨kind, channel, ?_⟩)).1, hreg⟩
    rw [hset]
    simp
  | unsubscribe kind cid channels =>
    obtain ⟨c, -, rfl⟩ := map_eq_some_iff.mp h
    exact ⟨sound_unsubscribeCommand hp kind cid channels, hreg⟩
  | registry e =>
    obtain ⟨registry, hreg', rfl⟩ := map_eq_some_iff.mp h
    have hcons := step_consistent s.registry e registry hreg hreg'
    cases e with
    | reset cid => exact ⟨(unsubscribeClient_spec hp cid).1, hcons⟩
    | free cid => exact ⟨(unsubscribeClient_spec hp cid).1, hcons⟩
    | _ => exact ⟨hp, hcons⟩

lemma run_sound {events : List Event} (h : run step {} events = some s) :
    Sound s.pubsub ∧ Consistent s.registry := by
  have hempty : Sound {} :=
    ⟨⟨by simp [members, Pubsub.subscribed], by simp [members], by simp [members]⟩,
      by simp [members, Pubsub.subscribed], rfl⟩
  have hinv := run_invariant' step_sound ⟨hempty, consistent_empty⟩ h
  exact hinv

/-- The functions `processCommand` names when it limits a subscriber. -/
inductive Proc
  | ping
  | quit
  | reset
  | subscribe
  | unsubscribe
  | observe
  | unobserve
  | other
  deriving DecidableEq, Repr

/-- The two checks of `processCommand` on subscribers that speak RESP2;
`subscribe` and `unsubscribe` stand for the three functions each. -/
def accepts (pubsub observing : Bool) (resp : Nat) (proc : Proc) : Bool :=
  !(pubsub && resp == 2 && proc ∉ [.ping, .quit, .reset, .subscribe, .unsubscribe]) &&
    !(observing && resp == 2 && proc ∉ [.ping, .quit, .reset, .observe, .unobserve])

/-- `cid` is like a new client: in no table, without flags, not counted and not
limited. -/
structure Cleared (s : State) (cid : ClientId) (c : Client) : Prop where
  pubsub : ∀ kind channel, ¬ s.pubsub.subscribed kind cid channel ∧
    cid ∉ members (s.pubsub.subscribers kind) channel
  observe : ∀ f, c.subscribed f = false ∧ cid ∉ s.registry.holders f
  flags : cid ∉ s.pubsub.flagged ∧ c.observing = false
  counters : Sound s.pubsub ∧ Counted s.registry
  accepted : ∀ proc, accepts (decide (cid ∈ s.pubsub.flagged)) c.observing c.resp proc =
    accepts false ({} : Client).observing ({} : Client).resp proc

/-- After any run, `RESET` clears exactly the clients that observe nothing. -/
theorem reset_clears_iff {events : List Event} (hrun : run step {} events = some s)
    (hc : s.registry.clients.lookup cid = some c) :
    (∃ s' c', step s (.registry (.reset cid)) = some s' ∧
      s'.registry.clients.lookup cid = some c' ∧ Cleared s' cid c') ↔
    ∀ f, c.subscribed f = false := by
  obtain ⟨hp, hcons⟩ := run_sound hrun
  have hreset : ObserveRegistry.step s.registry (.reset cid) =
      some (s.registry.put cid c.reset) := by
    simp [ObserveRegistry.step, hc]
  have hstep : step s (.registry (.reset cid)) =
      some ⟨unsubscribeClient s.pubsub cid, s.registry.put cid c.reset⟩ := by
    simp [step, hreset]
  have hc' : (s.registry.put cid c.reset).clients.lookup cid = some c.reset := by simp [Server.put]
  rw [hstep]
  constructor
  · rintro ⟨s', c', h, hlook, hcl⟩ f
    cases h
    rw [hc'] at hlook
    cases hlook
    exact (hcl.observe f).1
  intro hnone
  have hreg := step_consistent _ _ _ hcons hreset
  obtain ⟨hp', hgone⟩ := unsubscribeClient_spec hp cid
  have hobs : c.observing = false := by simpa [hnone] using hcons.counted.flag_iff cid c hc
  have hmark : cid ∉ (unsubscribeClient s.pubsub cid).flagged := by simp [hp'.flag_iff, hgone]
  refine ⟨_, c.reset, rfl, hc', ?_, ?_, ⟨hmark, hobs⟩, ⟨hp', hreg.counted⟩, ?_⟩
  · exact fun kind channel => ⟨hgone kind channel,
      (hp'.mem_iff kind channel cid).not.mpr (hgone kind channel)⟩
  · refine fun f => ⟨hnone f, ?_⟩
    rw [hreg.linked.holders_iff]
    rintro ⟨c', hlook, hin⟩
    rw [hc'] at hlook
    cases hlook
    rw [show c.reset.subscribed f = c.subscribed f from rfl, hnone f] at hin
    cases hin
  · intro proc
    simp [hmark, Client.reset, hobs]

private def news : List Event :=
  [.registry (.connect 1), .subscribe .channel 1 (ofString "news") []]

/-- A subscriber of a channel. -/
theorem reset_clears_iff_news : ∃ s c, run step {} news = some s ∧
    s.registry.clients.lookup 1 = some c ∧
    ∃ s' c', step s (.registry (.reset 1)) = some s' ∧
      s'.registry.clients.lookup 1 = some c' ∧ Cleared s' 1 c' :=
  ⟨_, {}, rfl, rfl,
    (reset_clears_iff (show run step {} news = some _ from rfl) rfl).mpr fun _ => rfl⟩

/-- A client that observes a key goes on observing it, and is still limited. -/
theorem reset_keeps_observing : (((run step {} [.registry (.connect 1),
        .registry (.observe 1 (["OBSERVE", "GET", "k"].map ofString)),
        .registry (.reset 1)]).bind fun s => s.registry.clients.lookup 1).map fun c =>
      (c.observing, accepts false c.observing c.resp .other)) = some (true, false) := by
  decide +kernel

end Dice.Ports.ConnectionReset
