import Dice.Ports.Tracking
import Dice.Verified.ByteOrder
import Dice.Verified.Run
import Mathlib.Data.List.Sort

/-!
# Overlapping prefixes

The prefixes of a client in broadcasting mode shall not overlap.  A request with
two that do is refused if one of them is its first prefix; otherwise it is
answered with an error and served all the same.  A request without prefixes
enables the empty one, unchecked.
-/

namespace Dice.Ports.TrackingPrefixes

open List Verified CString ByteOrder Table Run Tracking

def overlapError (new : Bytes) (kind : String) (old : Bytes) : Bytes :=
  ofString "Prefix '" ++ cstr new ++ ofString ("' overlaps with " ++ kind ++ " prefix '") ++
    cstr old ++ ofString "'. Prefixes for a single client must not overlap."

/-- The errors that `checkPrefixCollisionsOrReply` sends; `checkPrefixCollisions`
is its value.  The existing prefixes are visited in order. -/
def collisionErrors (existing : List Bytes) : List Bytes → List Bytes
  | [] => []
  | p :: rest =>
    match (existing.insertionSort (compareBytes · · ≤ 0)).find? (stringCheckPrefix · p) with
    | some e => [overlapError p "an existing" e]
    | none =>
      match rest.find? (stringCheckPrefix p) with
      | some q => [overlapError p "another provided" q]
      | none => collisionErrors existing rest

/-- The replies to CLIENT TRACKING ON BCAST. -/
def bcastReplies (s : Server) (c : Client) (o : Options) : List Bytes :=
  if o.redirect ≠ 0 ∧ (s.clients.lookup o.redirect).isNone then
    [ofString "The client ID you want redirect to does not exist"]
  else if c.tracking ∧ !c.bcast then
    [ofString ("You can't switch BCAST mode on/off before disabling tracking for this client, " ++
      "and then re-enabling it with a different mode.")]
  else if o.optin || o.optout then [ofString "OPTIN and OPTOUT are not compatible with BCAST"]
  else
    collisionErrors c.prefixes o.prefixes ++
      if checkPrefixCollisions c.prefixes 0 o.prefixes = 0 then [] else [ofString "OK"]

/-- The server with the replies to all requests. -/
abbrev State := Server × List (List Bytes)

/-- A client sends CLIENT TRACKING ON BCAST with further options. -/
def request (st : State) (e : ClientId × Options) : Option State :=
  (st.1.clients.lookup e.1).bind fun c =>
    (clientTracking st.1 e.1 c { e.2 with on := true, bcast := true }).map fun s =>
      (s, st.2 ++ [bcastReplies st.1 c e.2])

/-- One is a prefix of the other. -/
def Related (a b : Bytes) : Prop := a <+: b ∨ b <+: a

/-- No new prefix overlaps with an existing one or with another new one. -/
def Allowed (existing ps : List Bytes) : Prop :=
  (∀ p ∈ ps, ∀ e ∈ existing, ¬ Related e p) ∧ ps.Pairwise fun p q => ¬ Related p q

/-- The first collision is one between new prefixes, not at position 0. -/
def Late (existing : List Bytes) : Nat → List Bytes → Prop
  | _, [] => False
  | i, p :: rest => (∀ e ∈ existing, ¬ Related e p) ∧ (i ≠ 0 ∧ (∃ q ∈ rest, Related p q) ∨
      (∀ q ∈ rest, ¬ Related p q) ∧ Late existing (i + 1) rest)

/-- The check is non-zero if the new prefixes are allowed, and sends one error
if it is zero. -/
def Exact (existing ps : List Bytes) : Prop :=
  (checkPrefixCollisions existing 0 ps ≠ 0 ↔ Allowed existing ps) ∧
    (collisionErrors existing ps).length = if checkPrefixCollisions existing 0 ps = 0 then 1 else 0

/-- The check is exact, and the empty prefix overlaps with no other. -/
def Fine (existing ps : List Bytes) : Prop :=
  ¬ Late existing 0 ps ∧ (ps = [] → ∀ p ∈ existing, p = [])

/-- The prefixes of a client do not overlap. -/
def Separate (ps : List Bytes) : Prop := ∀ p ∈ ps, ∀ q ∈ ps, Related p q → p = q

variable {existing ps : List Bytes} {p : Bytes}

lemma stringCheckPrefix_iff (a b : Bytes) : stringCheckPrefix a b ↔ Related a b := by
  simp [stringCheckPrefix, Related]

lemma allowed_cons : Allowed existing (p :: ps) ↔
    (∀ e ∈ existing, ¬ Related e p) ∧ (∀ q ∈ ps, ¬ Related p q) ∧ Allowed existing ps := by
  simp only [Allowed, forall_mem_cons, pairwise_cons]
  tauto

lemma check_spec (i : Nat) (ps : List Bytes) :
    Allowed existing ps ∧ ¬ Late existing i ps ∧ checkPrefixCollisions existing i ps ≠ 0 ∧
      (collisionErrors existing ps).length = 0 ∨
    ¬ Allowed existing ps ∧ (checkPrefixCollisions existing i ps ≠ 0 ↔ Late existing i ps) ∧
      (collisionErrors existing ps).length = 1 := by
  induction ps generalizing i with
  | nil => simp [Allowed, Late, checkPrefixCollisions, collisionErrors]
  | cons p rest ih =>
    rw [allowed_cons, Late, checkPrefixCollisions, collisionErrors]
    cases he : (existing.insertionSort (compareBytes · · ≤ 0)).find? (stringCheckPrefix · p) with
    | some e =>
      have hmem := (mem_insertionSort _).mp (mem_of_find?_eq_some he)
      have hrel : stringCheckPrefix e p := by simpa using find?_some he
      rw [if_pos (any_eq_true.mpr ⟨e, hmem, hrel⟩)]
      rw [stringCheckPrefix_iff] at hrel
      grind
    | none =>
      have hold : ∀ e ∈ existing, ¬ Related e p := by simpa [stringCheckPrefix_iff] using he
      rw [if_neg (by simpa [stringCheckPrefix_iff] using hold)]
      cases hq : rest.find? (stringCheckPrefix p) with
      | some q =>
        have hmem := mem_of_find?_eq_some hq
        have hrel := find?_some hq
        rw [if_pos (any_eq_true.mpr ⟨q, hmem, hrel⟩)]
        rw [stringCheckPrefix_iff] at hrel
        grind
      | none =>
        have hnew : ∀ q ∈ rest, ¬ Related p q := by simpa [stringCheckPrefix_iff] using hq
        rw [if_neg (by simpa [stringCheckPrefix_iff] using hnew)]
        have := ih (i + 1)
        grind

lemma exact_iff (existing ps : List Bytes) : Exact existing ps ↔ ¬ Late existing 0 ps := by
  rw [Exact]
  obtain ⟨hall, hlate, hcheck, hlength⟩ | ⟨hall, hcheck, hlength⟩ := @check_spec existing 0 ps
  · simp [hall, hlate, hcheck, hlength]
  · rw [← hcheck]
    simp [hall, hlength]

lemma mem_enabled {cid : ClientId} {st : Dict Bytes BcastState × List Bytes}
    (h : p ∈ (ps.foldl (enableBcastTrackingForPrefix cid) st).2) : p ∈ st.2 ∨ p ∈ ps := by
  induction ps generalizing st with
  | nil => exact .inl h
  | cons q rest ih =>
    rcases ih h with hst | hrest
    · unfold enableBcastTrackingForPrefix at hst
      grind
    · exact .inr (mem_cons_of_mem q hrest)

lemma Separate.union (hsep : Separate existing) (hall : Allowed existing ps) {both : List Bytes}
    (hmem : ∀ p ∈ both, p ∈ existing ∨ p ∈ ps) : Separate both := by
  intro p hp q hq hrel
  have : Std.Symm fun p q => ¬ Related p q := ⟨fun _ _ h h' => h h'.symm⟩
  rcases hmem p hp with hp | hp <;> rcases hmem q hq with hq | hq
  · exact hsep p hp q hq hrel
  · exact absurd hrel (hall.1 q hq p hp)
  · exact absurd hrel.symm (hall.1 p hp q hq)
  · exact by_contra fun hne => hall.2.forall hp hq hne hrel

lemma separate_enableTracking {s : Server} {cid : ClientId} {c : Client} {o : Options}
    (hfine : Fine c.prefixes o.prefixes)
    (hcheck : checkPrefixCollisions c.prefixes 0 o.prefixes ≠ 0)
    (hsep : Separate c.prefixes) : ∃ c', Separate c'.prefixes ∧ ∀ id,
    (enableTracking s cid c { o with on := true, bcast := true }).clients.lookup id =
      if id = cid then some c' else s.clients.lookup id := by
  refine ⟨_, ?_, fun id => lookup_insert_eq _ _ _ _⟩
  by_cases hnone : o.prefixes = []
  · have hall := hfine.2 hnone
    intro p hp q hq _
    grind [mem_enabled hp, mem_enabled hq]
  · have hall := ((exact_iff _ _).mpr hfine.1).1.mp hcheck
    exact hsep.union hall fun p hp => mem_enabled (by simpa [hnone] using hp)

/-- The clients have separate prefixes, and every request had one reply. -/
def Good (st : State) : Prop :=
  (∀ cid c, st.1.clients.lookup cid = some c → Separate c.prefixes) ∧
    ∀ replies ∈ st.2, replies.length = 1

lemma request_good (st : State) (e : ClientId × Options) (hgood : Good st)
    (hfine : ∃ c, st.1.clients.lookup e.1 = some c ∧ Fine c.prefixes e.2.prefixes) :
    ∃ st', request st e = some st' ∧ Good st' := by
  obtain ⟨c, hc, hfine⟩ := hfine
  have hlength := ((exact_iff _ _).mpr hfine.1).2
  have hone : (bcastReplies st.1 c e.2).length = 1 := by
    unfold bcastReplies
    split_ifs <;> simp [*]
  have hreplies : ∀ replies ∈ st.2 ++ [bcastReplies st.1 c e.2], replies.length = 1 := by
    simpa [or_imp, forall_and] using ⟨hgood.2, hone⟩
  rw [request, hc, Option.bind_some, clientTracking]
  split_ifs with _ hon _ hcheck
  · exact ⟨_, rfl, hgood.1, hreplies⟩
  · exact absurd hon (by simp)
  · exact ⟨_, rfl, hgood.1, hreplies⟩
  · exact ⟨_, rfl, hgood.1, hreplies⟩
  · have hsep := hgood.1 _ _ hc
    obtain ⟨c', hc', hlookup⟩ := separate_enableTracking hfine (by simpa using hcheck) hsep
    refine ⟨_, rfl, fun id d hd => ?_, hreplies⟩
    rw [hlookup] at hd
    grind [hgood.1 id d]

/-- The check is exact unless the first collision is between new prefixes after
the first one.  If it is, and the empty prefix is not added to others, requests
keep the prefixes of a client separate and have one reply each. -/
theorem prefixes_separate_iff (existing ps : List Bytes) (s : Server)
    (events : List (ClientId × Options)) : (Exact existing ps ↔ ¬ Late existing 0 ps) ∧
    ((∀ cid c, s.clients.lookup cid = some c → Separate c.prefixes) →
      Within request (fun st e => ∃ c, st.1.clients.lookup e.1 = some c ∧
        Fine c.prefixes e.2.prefixes) (s, []) events →
      ∃ st, run request (s, []) events = some st ∧ Good st) :=
  ⟨exact_iff existing ps, fun hsep hok => run_total request_good ⟨hsep, nofun⟩ hok⟩

/-- Client 1, with nothing tracked. -/
def oneClient : Server := { clients := (∅ : Dict ClientId Client).insert 1 {} }

def wants (ps : List String) : ClientId × Options := (1, { prefixes := ps.map ofString })

/-- The second request is refused for a prefix that the client has. -/
theorem prefixes_separate_users :
    Exact (["user:", "news:"].map ofString) (["object:", "user:1"].map ofString) ∧
      ∃ st, run request (oneClient, []) [wants ["user:", "news:"], wants ["object:", "user:1"],
        wants ["object:"]] = some st ∧ Good st := by
  obtain ⟨hexact, hrun⟩ := prefixes_separate_iff (["user:", "news:"].map ofString)
    (["object:", "user:1"].map ofString) oneClient [wants ["user:", "news:"],
      wants ["object:", "user:1"], wants ["object:"]]
  refine ⟨hexact.mpr (by simp +decide [Late, Related]), hrun (fun cid c hc => ?_)
    ⟨⟨_, rfl, ?_⟩, ⟨_, rfl, ?_⟩, ⟨_, rfl, ?_⟩, trivial⟩⟩
  · grind [oneClient, Separate, AList.lookup_empty]
  all_goals refine ⟨?_, nofun⟩
  · simp +decide [Late, Related, wants]
  · simp +decide [Late, Related, wants]
  · simp +decide [Late, Related, wants]

/-- The third prefix overlaps with the second: the client is told so, and then
that the request is served.  The empty prefix is not checked at all. -/
theorem overlaps_served :
    (run request (oneClient, []) [(1, { prefixes := ["a", "b", "bc"].map ofString })]).map
        (fun st => ((st.1.clients.lookup 1).map (·.prefixes), st.2)) =
      some (some (["bc", "b", "a"].map ofString), [[overlapError (ofString "b") "another provided"
        (ofString "bc"), ofString "OK"]]) ∧
    (run request (oneClient, []) [(1, { prefixes := [ofString "a"] }), (1, {})]).map
        (fun st => ((st.1.clients.lookup 1).map (·.prefixes), st.2)) =
      some (some [[], ofString "a"], [[ofString "OK"], [ofString "OK"]]) := by
  decide +kernel

end Dice.Ports.TrackingPrefixes
