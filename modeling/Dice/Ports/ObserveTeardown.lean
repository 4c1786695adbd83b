import Mathlib.Data.Finset.Card
import Dice.Ports.ObserveConsistency

/-!
# Ending subscriptions

`UNOBSERVE` looks every argument up in the client's table, and the table is
released with its last fingerprint.  So the command is right exactly when the
arguments before the last one leave the client something to look up in.
-/

namespace Dice.Ports.ObserveTeardown

open Verified CString Table Run ObserveFingerprint ObserveRegistry Option
open ObserveConsistency

variable {s : Server} {cid : ClientId} {c : Client} {n : Nat}

/-- The loop reaches its end when the table is still there at the last argument. -/
lemma unobserveLoop_isSome_iff (args : List Bytes)
    (hdict : Trimmed c) :
    (unobserveLoop s cid c n args).isSome ↔
    args = [] ∨ ∃ f, c.subscribed f ∧ f ∉ args.dropLast := by
  induction args generalizing s c n with
  | nil => simp [unobserveLoop]
  | cons f rest ih =>
    cases hd : c.observeFingerprints with
    | none => simp [unobserveLoop, hd, Client.subscribed]
    | some d =>
      have hsub : c.subscribed f = (d.lookup f).isSome := by simp [Client.subscribed, hd]
      by_cases hin : c.subscribed f
      · obtain ⟨-, -, htrim, hset⟩ := unsubscribe_client s cid c f
        have hrest := ih (s := (observeUnsubscribeFingerprint s cid c f).1) (n := n + 1) htrim
        rw [unobserveLoop, hd]
        simp only [← hsub, hin, if_true]
        rw [hrest]
        cases rest with
        | nil => simpa using ⟨f, hin⟩
        | cons g rest => simp [hset]; grind
      rw [unobserveLoop, hd]
      simp only [← hsub, hin]
      rw [if_neg (by simp), ih hdict]
      cases rest with
      | nil =>
        obtain ⟨g, hg⟩ : ∃ g, c.subscribed g := by
          apply exists_subscribed
          simpa [Client.hasNoFingerprints, hd] using hdict d hd
        simpa using ⟨g, hg⟩
      | cons g rest => simp; grind

/-- The reply counts each argument that was in the set once. -/
lemma unobserveLoop_count (args : List Bytes) {r : Server × Client × Nat}
    (h : unobserveLoop s cid c n args = some r) :
    r.2.2 = n + (args.toFinset.filter fun f => c.subscribed f).card := by
  induction args generalizing s c n with
  | nil =>
    obtain rfl := some.inj h
    simp
  | cons f rest ih =>
    cases hd : c.observeFingerprints with
    | none => simp [unobserveLoop, hd] at h
    | some d =>
      have hsub : c.subscribed f = (d.lookup f).isSome := by simp [Client.subscribed, hd]
      rw [unobserveLoop, hd] at h
      by_cases hin : c.subscribed f
      · obtain ⟨-, -, htrim, hset⟩ := unsubscribe_client s cid c f
        have hsplit : ((f :: rest).toFinset.filter fun g => c.subscribed g) =
          insert f (rest.toFinset.filter fun g =>
            (observeUnsubscribeFingerprint s cid c f).2.subscribed g) := by
          ext g
          simp only [Finset.mem_filter, List.mem_toFinset, Finset.mem_insert]
          grind
        simp only [← hsub, hin] at h
        rw [ih h, hsplit, Finset.card_insert_of_notMem (by simp [hset])]
        omega
      · simp only [← hsub, if_neg hin] at h
        rw [ih h, List.toFinset_cons, Finset.filter_insert, if_neg hin]

/-- `UNOBSERVE` with at least one argument, in any reachable state: it returns
with the distinct arguments of the client's set removed and counted, and no
other client touched, exactly when the arguments before the last one do not
already name all the fingerprints of a client that has some. -/
theorem unobserve_exact_iff {events : List Event} (hrun : run step {} events = some s)
    (hc : s.clients.lookup cid = some c) (name : Bytes) {args : List Bytes} (hargs : args ≠ []) :
    (∃ s' c' n, unobserveCommand s cid c (name :: args) = some (s', c', n) ∧
      (∀ f, c'.subscribed f = true ↔ f ∉ args ∧ c.subscribed f = true) ∧
      n = (args.toFinset.filter fun f => c.subscribed f = true).card ∧
      ∀ cid' ≠ cid, s'.clients.lookup cid' = s.clients.lookup cid' ∧
        ∀ f, cid' ∈ s'.holders f ↔ cid' ∈ s.holders f) ↔
    ((∃ f, c.subscribed f = true) → ∃ f, c.subscribed f = true ∧ f ∉ args.dropLast) := by
  have hs := consistent_of_run hrun
  by_cases hempty : c.hasNoFingerprints
  · have hnone := (hasNoFingerprints_iff c).mp hempty
    refine iff_of_true ⟨s, c, 0, by rw [unobserveCommand, if_pos hempty], ?_, ?_, ?_⟩ ?_
    · simp [hnone]
    · simp [hnone]
    · exact fun _ _ => ⟨rfl, fun _ => Iff.rfl⟩
    · simp [hnone]
  have hloop : (unobserveLoop s cid c 0 args).isSome ↔ _ :=
    unobserveLoop_isSome_iff args (hs.linked.trimmed cid c hc)
  rw [or_iff_right hargs] at hloop
  constructor
  · rintro ⟨s', c', n, hres, -⟩ -
    rw [unobserveCommand, if_neg hempty] at hres
    obtain ⟨r, hr, -⟩ := map_eq_some_iff.mp hres
    exact hloop.mp (isSome_of_eq_some hr)
  intro hcond
  obtain ⟨⟨s1, c1, n⟩, hr⟩ := isSome_iff_exists.mp (hloop.mpr (hcond (exists_subscribed hempty)))
  have hun : Unsubscribes ∅ cid args s c s1 c1 := unobserveLoop_spec _ hr
  have hl := hun.linked (linked_put_self hs.linked hc)
  have hcount : n = _ := (unobserveLoop_count _ hr).trans (Nat.zero_add _)
  have hothers : ∀ cid' ≠ cid, s1.clients.lookup cid' = s.clients.lookup cid' ∧
      ∀ f, cid' ∈ s1.holders f ↔ cid' ∈ s.holders f := by
    intro cid' hne
    refine ⟨congrArg (AList.lookup cid') hun.clients, fun f => ?_⟩
    have h1 := hl.holders_iff f cid'
    have h2 := hs.linked.holders_iff f cid'
    rw [put_holders, memberOf_put, if_neg hne] at h1
    rw [h1, h2, MemberOf, MemberOf, hun.clients]
  obtain ⟨-, hmark, hsrv⟩ := unmark_spec (U := ∅) cid s1 c1
  have hmap : unobserveCommand s cid c (name :: args) = some
      (if c1.hasNoFingerprints then ((unmarkClientAsObserving s1 c1).1,
        (unmarkClientAsObserving s1 c1).2, n) else (s1, c1, n)) := by
    rw [unobserveCommand, if_neg hempty, show (name :: args).drop 1 = args from rfl, hr]
    rfl
  rw [hmap]
  split
  · exact ⟨_, _, n, rfl, by rw [hmark]; exact hun.subscribed, hcount, by rw [hsrv]; exact hothers⟩
  · exact ⟨s1, c1, n, rfl, hun.subscribed, hcount, hothers⟩

private def getFingerprint : Bytes := generateCommandFingerprint [ofString "GET", ofString "k"]

/-- A client with one subscription. -/
private def watching : List Event :=
  [.connect 1, .observe 1 [ofString "OBSERVE", ofString "GET", ofString "k"]]

theorem unobserve_exact_iff_unknown :
    ∃ s c, run step {} watching = some s ∧ s.clients.lookup 1 = some c ∧
      (unobserveCommand s 1 c [ofString "UNOBSERVE", [120], getFingerprint]).isSome = true := by
  have hsome : ((run step {} watching).bind fun s => (s.clients.lookup 1).map fun c =>
      c.subscribed getFingerprint) = some true := by decide +kernel
  obtain ⟨s, hs, hmap⟩ := bind_eq_some_iff.mp hsome
  obtain ⟨c, hc, hsub⟩ := map_eq_some_iff.mp hmap
  obtain ⟨s', c', n, hres, -⟩ := (unobserve_exact_iff hs hc (ofString "UNOBSERVE")
    (by simp : [[120], getFingerprint] ≠ [])).mpr fun _ => ⟨_, hsub, by decide +kernel⟩
  exact ⟨s, c, hs, hc, isSome_of_eq_some hres⟩

/-- The second argument is looked up in a table that the first one released. -/
theorem unobserve_repeated_faults :
    ((run step {} watching).bind fun s => (s.clients.lookup 1).map fun c =>
      (unobserveCommand s 1 c [ofString "UNOBSERVE", getFingerprint, getFingerprint]).isNone) =
    some true := by
  decide +kernel

end Dice.Ports.ObserveTeardown
