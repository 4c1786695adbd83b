import Dice.Ports.ConnectionReset
import Dice.Ports.Glob

/-!
# Publishing a message

A message goes to the subscribers of its channel, and once more for each pattern
that matches it to the subscribers of the pattern.
-/

namespace Dice.Ports.PubsubDelivery

open List Verified CString Run Index Glob ConnectionReset

/-- The entries a message is sent by, in order. -/
def matching (p : Pubsub) (shard : Bool) (channel : Bytes) : List (Kind × Bytes) :=
  if shard then [(.shardChannel, channel)]
  else
    (.channel, channel) ::
      ((p.subscribers .pattern).keys.filter (stringmatchlen · channel)).map (.pattern, ·)

/-- `pubsubPublishMessageInternal`: who is sent the message by which entry.  Their
number is returned. -/
def publishMessage (p : Pubsub) (shard : Bool) (channel : Bytes) :
    List (ObserveRegistry.ClientId × Kind × Bytes) :=
  (matching p shard channel).flatMap fun e => (members (p.subscribers e.1) e.2).map (·, e)

lemma nodup_matching (p : Pubsub) (shard : Bool) (channel : Bytes) :
    (matching p shard channel).Nodup := by
  have hkeys := (AList.keys_nodup (p.subscribers .pattern)).filter (stringmatchlen · channel)
  cases shard with
  | true => exact nodup_singleton _
  | false => exact nodup_cons.mpr ⟨by simp, hkeys.map (Prod.mk_right_injective _)⟩

/-- After any commands the tables agree.  A message reaches each client once for its
channel and once for each matching pattern it is subscribed to, and no one else. -/
theorem publish_exact {events : List Event} {s : State} (hrun : run step {} events = some s)
    (shard : Bool) (channel : Bytes) : Sound s.pubsub ∧
      (publishMessage s.pubsub shard channel).Nodup ∧
      ∀ cid kind name, (cid, kind, name) ∈ publishMessage s.pubsub shard channel ↔
        s.pubsub.subscribed kind cid name ∧
          if shard then kind = .shardChannel ∧ name = channel
          else kind = .channel ∧ name = channel ∨
            kind = .pattern ∧ stringmatchlen name channel := by
  have hp := (run_sound hrun).1
  refine ⟨hp, nodup_flatMap.mpr ⟨fun e _ => (hp.nodup _ _).map (Prod.mk_left_injective e),
    (nodup_matching _ _ _).imp fun hne m ha hb => ?_⟩, fun cid kind name => ?_⟩
  · obtain ⟨_, -, rfl⟩ := mem_map.mp ha
    simp [Ne.symm hne] at hb
  have hkey : cid ∈ members (s.pubsub.subscribers .pattern) name →
      name ∈ (s.pubsub.subscribers .pattern).keys := by
    intro hmem
    rw [← AList.mem_keys, ← AList.lookup_isSome, lookup_of_mem hmem]
    rfl
  have hmem : (cid, kind, name) ∈ publishMessage s.pubsub shard channel ↔
      s.pubsub.subscribed kind cid name ∧ (kind, name) ∈ matching s.pubsub shard channel := by
    rw [← hp.mem_iff, publishMessage, mem_flatMap]
    constructor
    · rintro ⟨e, he, hcid⟩
      obtain ⟨id, hid, heq⟩ := mem_map.mp hcid
      cases heq
      exact ⟨hid, he⟩
    · exact fun h => ⟨_, h.2, mem_map.mpr ⟨cid, h.1, rfl⟩⟩
  rw [hmem, matching]
  refine and_congr_right fun hin => ?_
  cases shard with
  | true => simp
  | false =>
    rw [if_neg Bool.false_ne_true, if_neg Bool.false_ne_true, mem_cons, Prod.mk.injEq, mem_map]
    refine or_congr_right ⟨?_, ?_⟩
    · rintro ⟨q, hq, heq⟩
      cases heq
      exact ⟨rfl, (mem_filter.mp hq).2⟩
    · rintro ⟨rfl, hmatch⟩
      exact ⟨name, mem_filter.mpr ⟨hkey ((hp.mem_iff ..).mpr hin), hmatch⟩, rfl⟩

/-- A client with a channel and two patterns is sent the message for the channel and the
pattern that matches, and not for the other one. -/
theorem publish_exact_news : ∃ s, run step {} [.registry (.connect 1),
      .subscribe .channel 1 (ofString "news") [],
      .subscribe .pattern 1 (ofString "n*") [ofString "a*"]] = some s ∧
    (publishMessage s.pubsub false (ofString "news")).Nodup ∧
    (1, .channel, ofString "news") ∈ publishMessage s.pubsub false (ofString "news") ∧
    (1, .pattern, ofString "n*") ∈ publishMessage s.pubsub false (ofString "news") ∧
    (1, .pattern, ofString "a*") ∉ publishMessage s.pubsub false (ofString "news") := by
  have hrun : run step {} [.registry (.connect 1), .subscribe .channel 1 (ofString "news") [],
      .subscribe .pattern 1 (ofString "n*") [ofString "a*"]] = some _ := rfl
  obtain ⟨-, hnodup, hmem⟩ := publish_exact hrun false (ofString "news")
  refine ⟨_, hrun, hnodup, (hmem ..).mpr ⟨by decide, .inl ⟨rfl, rfl⟩⟩,
    (hmem ..).mpr ⟨by decide, .inr ⟨rfl, by decide⟩⟩, fun h => ?_⟩
  exact absurd ((hmem ..).mp h).2 (by decide)

end Dice.Ports.PubsubDelivery
