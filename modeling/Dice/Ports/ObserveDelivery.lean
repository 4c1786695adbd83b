import Dice.Ports.ObserveSubscriptions

/-!
# Who is notified, and with what

Two questions about every run: is the command stored for a subscription the
one the client asked for, and which key changes reach which client.

The fingerprint hashes the words of a command, not its arguments, so two commands
that differ only in how blanks group words into arguments share an entry, and the
later subscriber is served the command of the earlier one.

Neither the entry nor the subscription records a database: the filter of
`executeObserveCommand` compares the one the client has selected when the change
happens.
-/

namespace Dice.Ports.ObserveDelivery

open Option List

open Verified CString Table Run ObserveHandlers ObserveFingerprint ObserveRegistry
open ObserveConsistency ObserveNotify ObserveSubscriptions

variable {v : List Bytes}

/-- A run in which the fingerprint separates the observed commands: the entry
of a fingerprint a client is subscribed to holds the client's own command. -/
lemma stored_command {events : List Event} {s : Server} (hrun : run step {} events = some s)
    (hinj : Set.InjOn generateCommandFingerprint (observedIn events))
    {cid : ClientId} {u : Subscriber} (hu : specRun events cid = some u) (hv : v ∈ u.observed) :
    ∃ info, s.observeFingerprints.lookup (generateCommandFingerprint v) = some info ∧
    info.argv = v ∧ info.key = keyOf v ∧
    info.command = cstr (v.headD []) ∧ cid ∈ info.clients := by
  have hr := refines_of_run hrun
  obtain ⟨c, hc, hrep⟩ := exists_client hr.clients hu
  have hmem : cid ∈ s.holders (generateCommandFingerprint v) :=
    (hr.consistent.linked.holders_iff _ cid).mpr ⟨c, hc, (hrep.subscribed _).mpr ⟨v, hv, rfl⟩⟩
  cases hlook : s.observeFingerprints.lookup (generateCommandFingerprint v) with
  | none => simp [holders_eq_nil s hlook] at hmem
  | some info =>
    rw [holders_eq s hlook] at hmem
    have hd := hr.entries _ info hlook
    have hargv : info.argv = v :=
      hinj hd.mem ⟨cid, specRun_observed hrun hu hv⟩ hd.fingerprint
    exact ⟨info, rfl, hargv, hargv ▸ hd.key, hargv ▸ hd.command, hmem⟩

lemma observedIn_ne_nil {events : List Event} (h : v ∈ observedIn events) : v ≠ [] := by
  obtain ⟨cid, argv, _, hsup, rfl⟩ := h
  have hlen := hsup.1
  rw [ne_eq, drop_eq_nil_iff]
  omega

/-- The fingerprint separates commands whose words differ. -/
lemma injOn_of_words {events : List Event} (hsep : ∀ v ∈ observedIn events,
      ∀ w ∈ observedIn events, NoCollision v w ∧ (v = w ∨ words v ≠ words w)) :
    Set.InjOn generateCommandFingerprint (observedIn events) := by
  intro v hv w hw hfp
  obtain ⟨hcrc, heq | hdiff⟩ := hsep v hv w hw
  · exact heq
  · have hiff :=
      generateCommandFingerprint_eq_iff (observedIn_ne_nil hv) (observedIn_ne_nil hw) hcrc
    exact absurd (hiff.mp hfp) hdiff

section

variable {Value Reply : Type} (evaluate : Evaluate Value Reply) {s : Server} {events : List Event}

variable (hrun : run step {} events = some s)
  (hinj : Set.InjOn generateCommandFingerprint (observedIn events)) {key : Bytes} {dbid : Nat}

include hrun

include hinj

/-- Under the specification: what an observer of `key` may get. -/
lemma tells_spec {d : Dict Bytes Value} {p : Push Reply} (h : Tells evaluate s key dbid d p) :
    ∃ u v handler d', specRun events p.client = some u ∧ v ∈ u.observed ∧
      keyOf v = key ∧ u.dbid = dbid ∧ findHandlerForCommand (v.headD []) = some handler ∧
      p.fingerprint = generateCommandFingerprint v ∧
      Reached evaluate d d' ∧ p.reply = (evaluate handler v d').1 := by
  have hr := refines_of_run hrun
  obtain ⟨hf, info, handler, d', hlook, hfound, hmem, ⟨c, hc, hdb⟩, hreached, hreply⟩ := h
  obtain ⟨u, hu, hrep⟩ := exists_subscriber hr.clients hc
  have hsub : c.subscribed p.fingerprint := by
    rw [← holders_eq s hlook] at hmem
    obtain ⟨c', hc', hsub⟩ := (hr.consistent.linked.holders_iff _ _).mp hmem
    rwa [some.inj (hc.symm.trans hc')]
  obtain ⟨v, hv, hfp⟩ := (hrep.subscribed _).mp hsub
  obtain ⟨info', hlook', hargv, hkey, hcommand, _⟩ := stored_command hrun hinj hu hv
  rw [hfp, hlook, some.injEq] at hlook'
  subst hlook'
  obtain ⟨info', hlook', hkeyinfo⟩ := (hr.consistent.linked.key_iff key _).mp hf
  rw [hlook, some.injEq] at hlook'
  subst hlook'
  rw [hcommand, findHandlerForCommand_cstr] at hfound
  exact ⟨u, v, handler, d', hu, hv, hkey.symm.trans hkeyinfo, hrep.dbid.symm.trans hdb, hfound,
    hfp.symm, hreached, hargv ▸ hreply⟩

end

/-! ## Fingerprints identify word sequences -/

/-- Without checksum collisions, two commands are separated by their
fingerprint exactly when they are equal or differ in their words.  In every
run whose observed commands are pairwise of that kind, what is stored for a
subscription is the client's own command and key, and every notification is
the result of a command the notified client passed to `OBSERVE`. -/
theorem fingerprints_identify_words (argv₁ argv₂ : List Bytes)
    (h₁ : 2 ≤ argv₁.length) (h₂ : 2 ≤ argv₂.length) (hcrc : NoCollision argv₁ argv₂)
    (events : List Event) (s : Server) (hrun : run step {} events = some s) :
    ((generateCommandFingerprint argv₁ = generateCommandFingerprint argv₂ → argv₁ = argv₂) ↔
      (argv₁ = argv₂ ∨ words argv₁ ≠ words argv₂)) ∧
    ((∀ v ∈ observedIn events, ∀ w ∈ observedIn events,
        NoCollision v w ∧ (v = w ∨ words v ≠ words w)) →
      (∀ cid c f, s.clients.lookup cid = some c → c.subscribed f = true →
        ∃ info, s.observeFingerprints.lookup f = some info ∧ info.argv ∈ passedBy events cid ∧
          generateCommandFingerprint info.argv = f ∧
          info.key = keyOf info.argv) ∧
      (∀ (Value Reply : Type) (evaluate : Evaluate Value Reply) (db : Nat → Dict Bytes Value)
          (key : Bytes) (dbid depth : Nat),
        ∀ p ∈ (observeNotifyKeyChange evaluate s key dbid depth db).1,
          ∃ v ∈ passedBy events p.client, ∃ handler d,
            findHandlerForCommand (v.headD []) = some handler ∧
            p.fingerprint = generateCommandFingerprint v ∧
            Reached evaluate (db dbid) d ∧ p.reply = (evaluate handler v d).1)) := by
  constructor
  · have hne : ∀ argv : List Bytes, 2 ≤ argv.length → argv ≠ [] := by
      rintro argv hlen rfl
      exact absurd hlen (by simp)
    have hiff := generateCommandFingerprint_eq_iff (hne argv₁ h₁) (hne argv₂ h₂) hcrc
    constructor
    · intro hsep
      by_cases hw : words argv₁ = words argv₂
      · exact .inl (hsep (hiff.mpr hw))
      · exact .inr hw
    · rintro (heq | hdiff) hfp
      · exact heq
      · exact absurd (hiff.mp hfp) hdiff
  intro hsep
  have hinj := injOn_of_words hsep
  constructor
  · intro cid c f hc hsub
    obtain ⟨u, hu, hrep⟩ := exists_subscriber (refines_of_run hrun).clients hc
    obtain ⟨v, hv, rfl⟩ := (hrep.subscribed f).mp hsub
    obtain ⟨info, hlook, hargv, hkey, _, _⟩ := stored_command hrun hinj hu hv
    refine ⟨info, hlook, ?_, ?_, ?_⟩
    · rw [hargv]
      exact specRun_observed hrun hu hv
    · rw [hargv]
    · rw [hkey, hargv]
  · intro Value Reply evaluate db key dbid depth p hp
    obtain ⟨u, v, handler, d, hu, hv, _, _, hfound, hfp, hd, hreply⟩ :=
      tells_spec evaluate hrun hinj ((notify_tells evaluate s key dbid _ depth db .refl).2 p hp)
    exact ⟨v, specRun_observed hrun hu hv, handler, d, hfound, hfp, hd, hreply⟩

/-- Two commands that differ only in where the blank is quoted. -/
private def hgetLeft : List Bytes := [ofString "HGET", ofString "a b", ofString "c"]

private def hgetRight : List Bytes := [ofString "HGET", ofString "a", ofString "b c"]

/-- Client 1 observes field `c` of `a b`, client 2 field `b c` of `a`. -/
private def sharedRun : List Event :=
  [.connect 1, .connect 2, .observe 1 (ofString "OBSERVE" :: hgetLeft),
   .observe 2 (ofString "OBSERVE" :: hgetRight)]

/-- The two commands share a fingerprint, and the second client is
subscribed to the command and the key of the first. -/
theorem fingerprints_shared_across_arguments :
    hgetLeft ≠ hgetRight ∧ NoCollision hgetLeft hgetRight ∧
      generateCommandFingerprint hgetLeft = generateCommandFingerprint hgetRight ∧
      ∃ s info, run step {} sharedRun = some s ∧
        s.observeFingerprints.lookup (generateCommandFingerprint hgetRight) = some info ∧
        info.argv = hgetLeft ∧ info.key = ofString "a b" ∧ 2 ∈ info.clients := by
  refine ⟨by decide, by decide +kernel, by decide +kernel, ?_⟩
  have hval : ((run step {} sharedRun).bind fun s =>
      s.observeFingerprints.lookup (generateCommandFingerprint hgetRight)) =
      some { command := ofString "HGET", argv := hgetLeft, key := ofString "a b",
             clients := [1, 2] } := by
    decide +kernel
  obtain ⟨s, hs, hinfo⟩ := bind_eq_some_iff.mp hval
  exact ⟨s, _, hs, hinfo, rfl, rfl, by decide⟩

/-- Two clients with commands of different words. -/
private def separateRun : List Event :=
  [.connect 1, .connect 2, .observe 1 (ofString "OBSERVE" :: hgetLeft),
   .observe 2 [ofString "OBSERVE", ofString "GET", ofString "a"]]

private lemma mem_observedIn_separateRun (h : v ∈ observedIn separateRun) :
    v = hgetLeft ∨ v = [ofString "GET", ofString "a"] := by
  obtain ⟨cid, argv, hmem, _, rfl⟩ := h
  simp only [separateRun, mem_cons, not_mem_nil, or_false, reduceCtorEq, false_or] at hmem
  rcases hmem with ⟨_, rfl⟩ | ⟨_, rfl⟩
  · exact .inl rfl
  · exact .inr rfl

theorem fingerprints_identify_words_sample : (generateCommandFingerprint hgetLeft ≠
      generateCommandFingerprint [ofString "GET", ofString "a"]) ∧
    ∃ s, run step {} separateRun = some s ∧
      ∀ cid c f, s.clients.lookup cid = some c → c.subscribed f = true →
        ∃ info, s.observeFingerprints.lookup f = some info ∧ info.argv ∈ passedBy separateRun cid ∧
          generateCommandFingerprint info.argv = f ∧
          info.key = keyOf info.argv := by
  have hsome : (run step {} separateRun).isSome := by decide +kernel
  obtain ⟨s, hs⟩ := isSome_iff_exists.mp hsome
  obtain ⟨hpair, hruns⟩ := fingerprints_identify_words hgetLeft
    [ofString "GET", ofString "a"] (by decide) (by decide) (by decide +kernel)
    separateRun s hs
  constructor
  · intro hfp
    exact absurd (hpair.mpr (.inr (by decide)) hfp) (by decide)
  refine ⟨s, hs, (hruns ?_).1⟩
  intro v hv w hw
  rcases mem_observedIn_separateRun hv with rfl | rfl <;>
    rcases mem_observedIn_separateRun hw with rfl | rfl <;> decide +kernel

end Dice.Ports.ObserveDelivery
