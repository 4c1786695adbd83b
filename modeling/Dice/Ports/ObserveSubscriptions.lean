import Dice.Ports.ObserveConsistency
import Dice.Ports.ObserveNotify
import Mathlib.Data.Set.Function

/-!
# What a client has subscribed to

Every client has a set of commands it observes, and a change of a key concerns
the commands that read it.  `Spec` is just that, with no fingerprint table and no
counter, and `refines_of_run` says that the registry simulates it.

The simulation knows the commands of an entry only through their fingerprint:
an entry is shared by all clients whose command has it.  When the fingerprint
separates the commands of a run (`Set.InjOn`), the stored command is the
client's own, and a notification can be read off the specification.
-/

namespace Dice.Ports.ObserveSubscriptions

open Option Function

open Verified CString Table Run ObserveHandlers ObserveFingerprint ObserveRegistry
open ObserveConsistency ObserveNotify

/-- A connection and the commands it observes. -/
structure Subscriber where
  dbid : Nat := 0
  resp : Nat := 2
  denyBlocking : Bool := false
  multi : Bool := false
  observed : Set (List Bytes) := ∅

/-- The connected clients. -/
abbrev Spec := ClientId → Option Subscriber

/-- `OBSERVE` is granted to this client. -/
def Subscriber.Accepts (u : Subscriber) (argv : List Bytes) : Prop :=
  Supported argv ∧ (u.denyBlocking && !u.multi) = false

/-- A RESP2 connection that observes something. -/
def Subscriber.Limited (u : Subscriber) : Prop := u.observed.Nonempty ∧ u.resp = 2

/-- Change one client. -/
noncomputable def Spec.modify (a : Spec) (cid : ClientId)
    (g : Subscriber → Subscriber) : Spec :=
  update a cid ((a cid).map g)

open Classical in
/-- What one event means for the subscribers. -/
noncomputable def specStep (a : Spec) : Event → Spec
  | .connect cid => update a cid (some {})
  | .context cid denyBlocking multi =>
    a.modify cid fun u => { u with denyBlocking := denyBlocking, multi := multi }
  | .select cid dbid => a.modify cid fun u => if u.Limited then u else { u with dbid := dbid }
  | .hello cid resp => a.modify cid fun u => if u.Limited then u else { u with resp := resp }
  | .reset cid => a.modify cid fun u => { u with dbid := 0, resp := 2, multi := false }
  | .observe cid argv =>
    a.modify cid fun u =>
      if u.Accepts argv then { u with observed := insert (argv.drop 1) u.observed }
      else u
  | .unobserve cid argv =>
    a.modify cid fun u =>
      let kept := { v ∈ u.observed | generateCommandFingerprint v ∉ argv.drop 1 }
      { u with observed := kept }
  | .free cid => update a cid none

/-- The subscribers after a sequence of events. -/
noncomputable def specRun (events : List Event) : Spec := events.foldl specStep fun _ => none

/-- The commands client `cid` passed to `OBSERVE`. -/
def passedBy (events : List Event) (cid : ClientId) : Set (List Bytes) :=
  { v | ∃ argv, Event.observe cid argv ∈ events ∧ Supported argv ∧ v = argv.drop 1 }

/-- The commands any client passed to `OBSERVE`. -/
def observedIn (events : List Event) : Set (List Bytes) := { v | ∃ cid, v ∈ passedBy events cid }

/-- A client structure stands for a subscriber, whose commands are among `P`. -/
structure Represents (P : Set (List Bytes)) (u : Subscriber) (c : Client) : Prop where
  dbid : c.dbid = u.dbid
  resp : c.resp = u.resp
  denyBlocking : c.denyBlocking = u.denyBlocking
  multi : c.multi = u.multi
  subscribed : ∀ f, c.subscribed f = true ↔ ∃ v ∈ u.observed, generateCommandFingerprint v = f
  passed : u.observed ⊆ P

/-- The registry refines the specification; `P` are the commands of each client. -/
structure Refines (P : ClientId → Set (List Bytes)) (a : Spec) (s : Server) : Prop where
  consistent : Consistent s
  clients : ∀ cid, Option.Rel (Represents (P cid)) (a cid) (s.clients.lookup cid)
  entries : AllDescribed { v | ∃ cid, v ∈ P cid } s

lemma refines_empty (P : ClientId → Set (List Bytes)) : Refines P (fun _ => none) {} := by
  refine ⟨consistent_empty, fun cid => ?_, fun f info h => by simp at h⟩
  exact Option.Rel.none

variable {a : Spec} {s : Server} {cid : ClientId} {u : Subscriber} {c : Client}
  {P : ClientId → Set (List Bytes)} {argv : List Bytes}

/-- The relation on clients after one of them was stored again. -/
lemma rel_put {s' : Server}
    (hrel : ∀ cid, Option.Rel (Represents (P cid)) (a cid) (s.clients.lookup cid))
    (hclients : s'.clients = s.clients) (hu : Represents (P cid) u c) :
    ∀ cid', Option.Rel (Represents (P cid')) (update a cid (some u) cid')
    ((s'.put cid c).clients.lookup cid') := by
  intro cid'
  rw [lookup_put, hclients, update_apply]
  split
  next h => exact Option.Rel.some (h ▸ hu)
  next => exact hrel cid'

section

variable (hrel : ∀ cid, Option.Rel (Represents (P cid)) (a cid) (s.clients.lookup cid))

include hrel

lemma exists_subscriber (hc : s.clients.lookup cid = some c) :
    ∃ u, a cid = some u ∧ Represents (P cid) u c := by
  have h := hrel cid
  rw [hc] at h
  generalize a cid = o at h ⊢
  cases h with
  | some hu => exact ⟨_, rfl, hu⟩

lemma exists_client (hau : a cid = some u) :
    ∃ c, s.clients.lookup cid = some c ∧ Represents (P cid) u c := by
  have h := hrel cid
  rw [hau] at h
  generalize s.clients.lookup cid = o at h ⊢
  cases h with
  | some hu => exact ⟨_, rfl, hu⟩

end

lemma modify_of_eq (h : a cid = some u) (g : Subscriber → Subscriber) :
    a.modify cid g = update a cid (some (g u)) := by
  simp [Spec.modify, h]

lemma limited_iff (hs : Consistent s) (hc : s.clients.lookup cid = some c)
    {Q : Set (List Bytes)} (hu : Represents Q u c) : c.limited ↔ u.Limited := by
  unfold Client.limited Subscriber.Limited
  rw [Bool.and_eq_true, beq_iff_eq, hu.resp, hs.counted.flag_iff cid c hc]
  constructor
  · rintro ⟨⟨f, hf⟩, hresp⟩
    obtain ⟨v, hv, _⟩ := (hu.subscribed f).mp hf
    exact ⟨⟨v, hv⟩, hresp⟩
  · rintro ⟨⟨v, hv⟩, hresp⟩
    exact ⟨⟨generateCommandFingerprint v, (hu.subscribed _).mpr ⟨v, hv, rfl⟩⟩, hresp⟩

/-- A client stored again by an operation stands for `u'` now. -/
lemma Refines.put {s' : Server} {c' : Client} {u' : Subscriber} (hr : Refines P a s)
    (hc : s.clients.lookup cid = some c) (hm : Moves { v | ∃ cid, v ∈ P cid } cid s c s' c')
    (hflag : Flagged c') (hu' : Represents (P cid) u' c') :
    Refines P (update a cid (some u')) (s'.put cid c') :=
  ⟨hm.consistent hr.consistent hc hflag, rel_put hr.clients hm.clients hu', hm.entries hr.entries⟩

lemma refines_context (hr : Refines P a s) {c' : Client} (hc : s.clients.lookup cid = some c)
    (hobs : c'.observing = c.observing) (hset : c'.observeFingerprints = c.observeFingerprints)
    {g : Subscriber → Subscriber} (hg : ∀ u, Represents (P cid) u c → Represents (P cid) (g u) c') :
    Refines P (a.modify cid g) (s.put cid c') := by
  obtain ⟨u, hau, hu⟩ := exists_subscriber hr.clients hc
  rw [modify_of_eq hau]
  exact ⟨consistent_context hr.consistent hc hobs hset, rel_put hr.clients rfl (hg u hu),
    hr.entries⟩

/-- A request that the RESP2 restriction refuses, SELECT or HELLO. -/
lemma represents_unless_limited (hs : Consistent s) (hc : s.clients.lookup cid = some c)
    {Q : Set (List Bytes)} (hu : Represents Q u c) {u' : Subscriber} {c' : Client}
    (hu' : Represents Q u' c') [Decidable u.Limited] :
    Represents Q (if u.Limited then u else u') (if c.limited then c else c') := by
  by_cases h : u.Limited
  · rw [if_pos h, if_pos ((limited_iff hs hc hu).mpr h)]
    exact hu
  · rw [if_neg h, if_neg (fun hl => h ((limited_iff hs hc hu).mp hl))]
    exact hu'

/-- A client with the connection state of `c` and the set of `u`. -/
lemma represents_of_connection {c' : Client} {Q : Set (List Bytes)}
    (hu : Represents Q u c) (hconn : connection c' = connection c) {observed : Set (List Bytes)}
    (hset : ∀ f, c'.subscribed f ↔ ∃ v ∈ observed, generateCommandFingerprint v = f)
    (hpassed : observed ⊆ Q) : Represents Q { u with observed := observed } c' where
  dbid := (congrArg Client.dbid hconn).trans hu.dbid
  resp := (congrArg Client.resp hconn).trans hu.resp
  denyBlocking := (congrArg Client.denyBlocking hconn).trans hu.denyBlocking
  multi := (congrArg Client.multi hconn).trans hu.multi
  subscribed := hset
  passed := hpassed

section

variable (hr : Refines P a s) (hc : s.clients.lookup cid = some c)

include hr hc

/-- The flag and the tables are right again after a command; what is left is
the set of the client. -/
lemma Refines.commit {s' : Server} {c' : Client}
    (hdone : Commits { v | ∃ cid, v ∈ P cid } cid s c s' c') {g : Subscriber → Set (List Bytes)}
    (hg : ∀ u, Represents (P cid) u c → (∀ f, c'.subscribed f = true ↔
      ∃ v ∈ g u, generateCommandFingerprint v = f) ∧ g u ⊆ P cid) :
    Refines P (a.modify cid fun u => { u with observed := g u }) (s'.put cid c') := by
  obtain ⟨u, hau, hu⟩ := exists_subscriber hr.clients hc
  rw [modify_of_eq hau]
  exact hr.put hc hdone.toMoves hdone.flagged
    (represents_of_connection hu hdone.connection (hg u hu).1 (hg u hu).2)

lemma refines_observe (hP : Supported argv → argv.drop 1 ∈ P cid) :
    Refines P (specStep a (.observe cid argv))
    ((observeCommand s cid c argv).1.put cid (observeCommand s cid c argv).2) := by
  classical
  have hpassed : Supported argv → argv.drop 1 ∈ { v | ∃ cid, v ∈ P cid } := fun h => ⟨cid, hP h⟩
  obtain ⟨hdone, hset⟩ := observe_spec s cid hpassed (hr.consistent.counted.flag_iff cid c hc)
  have hspec : specStep a (.observe cid argv) = a.modify cid fun u => { u with observed :=
      (if u.Accepts argv then insert (argv.drop 1) u.observed else u.observed) } := by
    refine congrArg (a.modify cid) (funext fun u => ?_)
    split <;> rfl
  rw [hspec]
  refine hr.commit hc hdone fun u hu => ?_
  have hacc : Granted c argv ↔ u.Accepts argv := by
    rw [Granted, Subscriber.Accepts, hu.denyBlocking, hu.multi]
  split
  next h =>
    refine ⟨fun f => ?_, Set.insert_subset (hP h.1) hu.passed⟩
    rw [hset, hacc, hu.subscribed]
    simp [h, eq_comm]
  next h =>
    refine ⟨fun f => ?_, hu.passed⟩
    rw [hset, hacc, hu.subscribed]
    simp [h]

lemma refines_unobserve {r : Server × Client × Nat}
    (hcmd : unobserveCommand s cid c argv = some r) :
    Refines P (specStep a (.unobserve cid argv)) (r.1.put cid r.2.1) := by
  obtain ⟨hdone, hset⟩ := unobserve_spec (hr.consistent.counted.flag_iff cid c hc) hcmd
  refine hr.commit hc hdone fun u hu => ⟨fun f => ?_, fun v hv => hu.passed hv.1⟩
  rw [hset, hu.subscribed]
  constructor
  · rintro ⟨hnot, v, hv, rfl⟩
    exact ⟨v, ⟨hv, hnot⟩, rfl⟩
  · rintro ⟨v, ⟨hv, hnot⟩, rfl⟩
    exact ⟨hnot, v, hv, rfl⟩

lemma refines_free : Refines P (specStep a (.free cid)) (freeClient s cid c) := by
  have hcons := consistent_free hr.consistent hc
  obtain ⟨s₁, c₁, hfree, hm, -⟩ := free_spec s cid c
  rw [hfree] at hcons ⊢
  refine ⟨hcons, fun cid' => ?_, hm.entries hr.entries⟩
  show Option.Rel _ (update a cid none cid') ((s₁.clients.erase cid).lookup cid')
  rw [lookup_erase_eq, hm.clients, update_apply]
  split
  next => exact Option.Rel.none
  next => exact hr.clients cid'

end

lemma step_refines (a : Spec) (s : Server) (e : Event) (s' : Server) (hr : Refines P a s)
    (hP : ∀ cid argv, e = .observe cid argv → Supported argv → argv.drop 1 ∈ P cid)
    (h : step s e = some s') : Refines P (specStep a e) s' := by
  cases e with
  | connect cid =>
    simp only [step, ite_none_left_eq_some, some.injEq] at h
    obtain ⟨hc, rfl⟩ := h
    exact ⟨consistent_connect hr.consistent (by simpa using hc),
      rel_put hr.clients rfl ⟨rfl, rfl, rfl, rfl, by simp [Client.subscribed],
        Set.empty_subset _⟩, hr.entries⟩
  | context cid denyBlocking multi =>
    obtain ⟨c, hc, rfl⟩ := map_eq_some_iff.mp h
    refine refines_context hr hc ?_ ?_ fun u hu => ?_
    · rfl
    · rfl
    exact { hu with denyBlocking := rfl, multi := rfl }
  | select cid dbid =>
    obtain ⟨c, hc, rfl⟩ := map_eq_some_iff.mp h
    refine refines_context hr hc (select_frame c dbid).1 (select_frame c dbid).2 fun u hu => ?_
    classical
    refine represents_unless_limited hr.consistent hc hu ?_
    exact { hu with dbid := rfl }
  | hello cid resp =>
    obtain ⟨c, hc, rfl⟩ := map_eq_some_iff.mp h
    refine refines_context hr hc (hello_frame c resp).1 (hello_frame c resp).2 fun u hu => ?_
    classical
    refine represents_unless_limited hr.consistent hc hu ?_
    exact { hu with resp := rfl }
  | reset cid =>
    obtain ⟨c, hc, rfl⟩ := map_eq_some_iff.mp h
    refine refines_context hr hc ?_ ?_ fun u hu => ?_
    · rfl
    · rfl
    exact { hu with dbid := rfl, resp := rfl, multi := rfl }
  | observe cid argv =>
    obtain ⟨c, hc, rfl⟩ := map_eq_some_iff.mp h
    exact refines_observe hr hc (hP cid argv rfl)
  | unobserve cid argv =>
    obtain ⟨c, hc, hrest⟩ := bind_eq_some_iff.mp h
    obtain ⟨r, hcmd, rfl⟩ := map_eq_some_iff.mp hrest
    exact refines_unobserve hr hc hcmd
  | free cid =>
    obtain ⟨c, hc, rfl⟩ := map_eq_some_iff.mp h
    exact refines_free hr hc

lemma refines_of_run {events : List Event} (h : run step {} events = some s) :
    Refines (passedBy events) (specRun events) s := by
  refine run_simulation (R := Refines (passedBy events))
    (G := fun e => ∀ cid argv, e = .observe cid argv → Supported argv →
      argv.drop 1 ∈ passedBy events cid)
    step_refines (refines_empty _) ?_ h
  rintro e he cid argv rfl hsup
  exact ⟨argv, he, hsup, rfl⟩

/-- Whatever a client observes, it passed to `OBSERVE` itself. -/
lemma specRun_observed {events : List Event} (h : run step {} events = some s)
    (hu : specRun events cid = some u) : u.observed ⊆ passedBy events cid := by
  obtain ⟨c, -, hrep⟩ := exists_client (refines_of_run h).clients hu
  exact hrep.passed

end Dice.Ports.ObserveSubscriptions
