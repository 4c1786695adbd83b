import Dice.Verified.Run
import Dice.Ports.ObserveRegistry

/-!
# Consistency of the OBSERVE registry

The three tables, the flags and the counter agree in every reachable state.
`Linked` is the agreement of the tables and `Counted` that of the flags and
the counter.  Between the table update and the flag update of one command
only the first holds, so they are carried separately through the functions
and meet again at the end of each event.
-/

namespace Dice.Ports.ObserveConsistency

open Option List Bool

open Verified CString Table Run ObserveHandlers ObserveFingerprint ObserveRegistry

/-- Client `cid` is connected and has `fingerprint` in its own set. -/
def MemberOf (s : Server) (cid : ClientId) (fingerprint : Bytes) : Prop :=
  ∃ c, s.clients.lookup cid = some c ∧ c.subscribed fingerprint = true

/-- The client's dictionary is released with its last fingerprint. -/
def Trimmed (c : Client) : Prop := ∀ d, c.observeFingerprints = some d → d.entries ≠ []

/-- Agreement of the three tables. -/
structure Linked (s : Server) : Prop where
  holders_nodup : ∀ f, (s.holders f).Nodup
  holders_iff : ∀ f cid, cid ∈ s.holders f ↔ MemberOf s cid f
  entry_nonempty : ∀ f info, s.observeFingerprints.lookup f = some info → info.clients ≠ []
  key_nodup : ∀ k, (s.fingerprintsOf k).Nodup
  key_iff : ∀ k f, f ∈ s.fingerprintsOf k ↔
    ∃ info, s.observeFingerprints.lookup f = some info ∧ info.key = k
  key_nonempty : ∀ k fs, s.observeKeyToFingerprints.lookup k = some fs → fs ≠ []
  trimmed : ∀ cid c, s.clients.lookup cid = some c → Trimmed c

/-- The flag of a client says whether its set is non-empty. -/
def Flagged (c : Client) : Prop := c.observing = true ↔ ∃ f, c.subscribed f = true

/-- The flag of each client and the global counter. -/
structure Counted (s : Server) : Prop where
  flag_iff : ∀ cid c, s.clients.lookup cid = some c →
    (c.observing = true ↔ ∃ f, c.subscribed f = true)
  count_eq : s.observingClients = countValues Client.observing s.clients

/-- The key a command vector observes. -/
def keyOf (argv : List Bytes) : Bytes := (argv.drop 1).headD []

/-- The `OBSERVE` vector is one the server supports. -/
def Supported (argv : List Bytes) : Prop :=
  3 ≤ argv.length ∧ (findHandlerForCommand ((argv.drop 1).headD [])).isSome = true

/-- An entry describes one command of `U` that has its fingerprint. -/
structure Describes (U : Set (List Bytes)) (f : Bytes)
    (info : ObserveCommandInfo) : Prop where
  mem : info.argv ∈ U
  fingerprint : generateCommandFingerprint info.argv = f
  key : info.key = keyOf info.argv
  command : info.command = cstr (info.argv.headD [])

def AllDescribed (U : Set (List Bytes)) (s : Server) : Prop :=
  ∀ f info, s.observeFingerprints.lookup f = some info → Describes U f info

/-- The client without its set and its flag. -/
def connection (c : Client) : Client := { c with observing := false, observeFingerprints := none }

/-! ## Reading the views after an update -/

variable {c c' : Client} {f : Bytes} {info : ObserveCommandInfo} {s s' : Server} {cid : ClientId}
  {U : Set (List Bytes)}

section Views

variable (s : Server) (cid : ClientId) (c : Client)

@[grind =] lemma lookup_put (cid cid' : ClientId) (c : Client) :
    (s.put cid c).clients.lookup cid' =
    if cid' = cid then some c else s.clients.lookup cid' :=
  lookup_insert_eq s.clients cid cid' c

@[simp, grind =] lemma put_holders (f : Bytes) : (s.put cid c).holders f = s.holders f := rfl

@[simp, grind =] lemma put_fingerprintsOf (k : Bytes) :
    (s.put cid c).fingerprintsOf k = s.fingerprintsOf k := rfl

@[simp, grind =] lemma put_observeFingerprints :
    (s.put cid c).observeFingerprints = s.observeFingerprints := rfl

@[simp, grind =] lemma put_observeKeyToFingerprints : (s.put cid c).observeKeyToFingerprints =
      s.observeKeyToFingerprints := rfl

@[simp] lemma put_observingClients : (s.put cid c).observingClients = s.observingClients := rfl

@[grind =] lemma memberOf_put (cid cid' : ClientId) (c : Client) (f : Bytes) :
    MemberOf (s.put cid c) cid' f ↔
    if cid' = cid then c.subscribed f = true else MemberOf s cid' f := by
  unfold MemberOf
  rw [lookup_put]
  by_cases h : cid' = cid <;> simp [h]

lemma holders_eq (h : s.observeFingerprints.lookup f = some info) : s.holders f = info.clients := by
  simp [Server.holders, h]

lemma holders_eq_nil (h : s.observeFingerprints.lookup f = none) : s.holders f = [] := by
  simp [Server.holders, h]

@[grind =] lemma subscribed_addFingerprint (f f' : Bytes) :
    (c.addFingerprint f).subscribed f' = true ↔ f' = f ∨ c.subscribed f' = true := by
  simp only [Client.addFingerprint, Client.subscribed]
  rw [lookup_insert_eq]
  by_cases h : f' = f
  · simp [h]
  · cases hd : c.observeFingerprints <;> simp [h]

lemma addFingerprint_trimmed (f : Bytes) : Trimmed (c.addFingerprint f) := by
  intro d hd
  simp only [Client.addFingerprint, some.injEq] at hd
  rw [← hd]
  simp

lemma hasNoFingerprints_iff : c.hasNoFingerprints = true ↔ ∀ f, c.subscribed f = false := by
  unfold Client.hasNoFingerprints Client.subscribed
  cases hd : c.observeFingerprints with
  | none => simp
  | some d =>
    simp only [beq_iff_eq, length_eq_zero_iff]
    constructor
    · intro h f
      have hd0 : d = ∅ := AList.ext h
      simp [hd0]
    intro h
    cases hent : d.entries with
    | nil => rfl
    | cons e es =>
      have hmem : e.1 ∈ d := by
        rw [AList.mem_keys, AList.keys, hent]
        simp
      have := AList.lookup_isSome.mpr hmem
      rw [h e.1] at this
      exact absurd this (by simp)

lemma mem_fingerprints (f : Bytes) : f ∈ c.fingerprints ↔ c.subscribed f = true := by
  unfold Client.fingerprints Client.subscribed
  cases c.observeFingerprints with
  | none => simp
  | some d => exact AList.lookup_isSome.symm

end Views

/-- A client with fingerprints is subscribed to something. -/
lemma exists_subscribed (h : ¬ c.hasNoFingerprints = true) : ∃ f, c.subscribed f = true := by
  simpa [hasNoFingerprints_iff] using h

/-- The tables do not depend on more of the clients than who is subscribed to
what. -/
lemma linked_of_members (hl : Linked s) (hfps : s'.observeFingerprints = s.observeFingerprints)
    (hkeys : s'.observeKeyToFingerprints = s.observeKeyToFingerprints)
    (hmem : ∀ cid f, MemberOf s' cid f ↔ MemberOf s cid f)
    (htrim : ∀ cid c, s'.clients.lookup cid = some c → Trimmed c) : Linked s' := by
  obtain ⟨h1, h2, h3, h4, h5, h6, _⟩ := hl
  simp only [Server.holders, Server.fingerprintsOf, ← hfps, ← hkeys, ← hmem] at h1 h2 h3 h4 h5 h6
  exact ⟨h1, h2, h3, h4, h5, h6, htrim⟩

/-- Storing a client that is already there changes no view. -/
lemma linked_put_self (hl : Linked s)
    (hc : s.clients.lookup cid = some c) : Linked (s.put cid c) := by
  refine linked_of_members hl rfl rfl (fun cid' f => ?_) fun cid' c' hc' => ?_
  · grind [MemberOf]
  · have hold := hl.trimmed cid' c'
    grind

lemma linked_erase (hl : Linked (s.put cid c)) (hnone : ∀ f, c.subscribed f = false) :
    Linked { s with clients := s.clients.erase cid } := by
  refine linked_of_members hl rfl rfl (fun cid' f => ?_) fun cid' c' hc' => ?_
  · rw [memberOf_put, MemberOf, lookup_erase_eq]
    by_cases h : cid' = cid
    · simp [h, hnone f]
    · simp [h, MemberOf]
  · have hold := hl.trimmed cid' c'
    grind

/-! ## One operation -/

/-- An operation for client `cid` leads from `s` and `c` to `s'` and `c'`.  The
tables stay linked, no other client is touched, and the counter moves with
the flag. -/
structure Moves (U : Set (List Bytes)) (cid : ClientId) (s : Server) (c : Client)
    (s' : Server) (c' : Client) : Prop where
  linked : Linked (s.put cid c) → Linked (s'.put cid c')
  entries : AllDescribed U s → AllDescribed U s'
  clients : s'.clients = s.clients
  counter : s'.observingClients + c.observing.toNat = s.observingClients + c'.observing.toNat

lemma Moves.trans {s₁ : Server} {c₁ : Client} (h : Moves U cid s c s₁ c₁)
    (h' : Moves U cid s₁ c₁ s' c') : Moves U cid s c s' c' where
  linked hl := h'.linked (h.linked hl)
  entries hd := h'.entries (h.entries hd)
  clients := h'.clients.trans h.clients
  counter := by
    have := h.counter
    have := h'.counter
    omega

/-- A client replaced by one with the same set. -/
lemma moves_client (hset : c'.observeFingerprints = c.observeFingerprints) (n : Int)
    (hcount : n + c.observing.toNat = s.observingClients + c'.observing.toNat) :
    Moves U cid s c { s with observingClients := n } c' where
  linked hl := by
    refine linked_of_members hl rfl rfl (fun cid' f => ?_) fun cid' c₁ hc₁ => ?_
    · rw [memberOf_put, memberOf_put, Client.subscribed, hset]
      rfl
    · have hself : Trimmed c := hl.trimmed cid c (by rw [lookup_put, if_pos rfl])
      have hold := hl.trimmed cid' c₁
      grind [Trimmed]
  entries hd := hd
  clients := rfl
  counter := hcount

lemma mark_spec (cid : ClientId) (s : Server) (c : Client) : let r := markClientAsObserving s c
    Moves U cid s c r.1 r.2 ∧ r.2 = { c with observing := true } := by
  unfold markClientAsObserving
  split
  next h =>
    refine ⟨moves_client ?_ _ ?_, rfl⟩
    · rfl
    · rw [not_eq_true'] at h
      simp [h]
  next h =>
    refine ⟨moves_client rfl _ rfl, ?_⟩
    rw [not_eq_true', Bool.not_eq_false] at h
    rw [← h]

lemma unmark_spec (cid : ClientId) (s : Server) (c : Client) : let r := unmarkClientAsObserving s c
    Moves U cid s c r.1 r.2 ∧ r.2 = { c with observing := false } ∧
      r.1 = { s with observingClients := r.1.observingClients } := by
  unfold unmarkClientAsObserving
  split
  next h =>
    refine ⟨moves_client ?_ _ ?_, rfl, rfl⟩
    · rfl
    · simp [h]
  next h =>
    refine ⟨moves_client rfl _ rfl, ?_, rfl⟩
    rw [← Bool.eq_false_iff.mpr h]

/-- The entry of one fingerprint changes with the client's own set, and the
lists of the keys follow it. -/
lemma linked_entry (entry : Option ObserveCommandInfo) (hl : Linked (s.put cid c))
    (hlook : ∀ f', s'.observeFingerprints.lookup f' =
      if f' = f then entry else s.observeFingerprints.lookup f')
    (hclients : s'.clients = s.clients)
    (hentry : ∀ info, entry = some info → info.clients.Nodup ∧ info.clients ≠ [])
    (hholders : ∀ cid', (∃ info, entry = some info ∧ cid' ∈ info.clients) ↔
      if cid' = cid then c'.subscribed f = true else cid' ∈ s.holders f)
    (hset : ∀ f' ≠ f, c'.subscribed f' = c.subscribed f') (htrim : Trimmed c')
    (hkeys : ∀ k, (s'.fingerprintsOf k).Nodup ∧ ∀ f', f' ∈ s'.fingerprintsOf k ↔
      if f' = f then ∃ info, entry = some info ∧ info.key = k else f' ∈ s.fingerprintsOf k)
    (hnonempty : ∀ k fs, s'.observeKeyToFingerprints.lookup k = some fs → fs ≠ []) :
    Linked (s'.put cid c') := by
  have hof : ∀ f', s'.holders f' = ((if f' = f then entry else s.observeFingerprints.lookup f').map
      ObserveCommandInfo.clients).getD [] := by
    intro f'
    rw [Server.holders, hlook]
  have hmember : ∀ cid' f', MemberOf s' cid' f' ↔ MemberOf s cid' f' := by
    intro cid' f'
    rw [MemberOf, MemberOf, hclients]
  refine ⟨fun f' => ?_, fun f' cid' => ?_, fun f' info hinfo => ?_, fun k => (hkeys k).1,
    fun k f' => ?_, hnonempty, fun cid' c₁ hc₁ => ?_⟩
  · have hold : (s.holders f').Nodup := hl.holders_nodup f'
    cases entry <;> grind [Server.holders]
  · have hold := hl.holders_iff f' cid'
    have hself := hholders cid'
    cases entry <;> grind [Server.holders]
  · have hold := hl.entry_nonempty f' info
    grind
  · have hold := hl.key_iff k f'
    grind
  · have hold := hl.trimmed cid' c₁
    grind

lemma clients_nodup (hl : Linked s) (hlook : s.observeFingerprints.lookup f = some info) :
    info.clients.Nodup := by
  have hnodup := hl.holders_nodup f
  rwa [holders_eq s hlook] at hnodup

/-- The client list of an existing entry changes. -/
lemma linked_setHolders {clients : List ClientId} (hl : Linked (s.put cid c))
    (hinfo : s.observeFingerprints.lookup f = some info)
    (hnodup : clients.Nodup) (hne : clients ≠ [])
    (hclients : ∀ cid', cid' ∈ clients ↔
      if cid' = cid then c'.subscribed f = true else cid' ∈ info.clients)
    (hset : ∀ f' ≠ f, c'.subscribed f' = c.subscribed f') (htrim : Trimmed c') :
    Linked ({ s with observeFingerprints :=
      s.observeFingerprints.insert f { info with clients := clients } }.put cid c') := by
  refine linked_entry (some { info with clients := clients }) hl
    (fun f' => lookup_insert_eq _ f f' _) rfl ?_ ?_ hset htrim
    (fun k => ⟨hl.key_nodup k, fun f' => ?_⟩) hl.key_nonempty
  · rintro _ ⟨⟩
    exact ⟨hnodup, hne⟩
  · simpa [holders_eq s hinfo] using hclients
  · have hold := hl.key_iff k f'
    show f' ∈ s.fingerprintsOf k ↔ _
    grind

/-- First subscriber of a fingerprint: the entry and its place in the key's
list are created. -/
lemma linked_subscribeFirst (hl : Linked (s.put cid c))
    (hnone : s.observeFingerprints.lookup f = none)
    (info : ObserveCommandInfo) (hclients : info.clients = [cid]) :
    Linked ({ s with
      observeFingerprints := s.observeFingerprints.insert f info
      observeKeyToFingerprints := s.observeKeyToFingerprints.insert info.key
        (s.fingerprintsOf info.key ++ [f]) }.put cid (c.addFingerprint f)) := by
  have hnokey : ∀ k, f ∉ s.fingerprintsOf k := by
    intro k
    have hold := hl.key_iff k f
    grind
  refine linked_entry (some info) hl (fun f' => lookup_insert_eq _ f f' _) rfl ?_ ?_ ?_
    (addFingerprint_trimmed c f) (fun k => ?_) fun k fs hfs => ?_
  · rintro _ ⟨⟩
    simp [hclients]
  · simp [hclients, holders_eq_nil s hnone, subscribed_addFingerprint]
  · intro f' hne
    rw [Bool.eq_iff_iff, subscribed_addFingerprint]
    simp [hne]
  · have hold : (s.fingerprintsOf k).Nodup := hl.key_nodup k
    have hof : ((s.observeKeyToFingerprints.insert info.key
      (s.fingerprintsOf info.key ++ [f])).lookup k).getD [] =
      if k = info.key then s.fingerprintsOf k ++ [f] else s.fingerprintsOf k := by
      grind [Server.fingerprintsOf]
    simp only [Server.fingerprintsOf] at hof ⊢
    rw [hof]
    grind [Server.fingerprintsOf]
  · have hold := hl.key_nonempty k fs
    have hlast : s.fingerprintsOf info.key ++ [f] ≠ [] := by simp
    grind

lemma dropKeyFingerprint_frame (s : Server) (key f : Bytes) :
    (dropKeyFingerprint s key f).observeFingerprints = s.observeFingerprints ∧
    (dropKeyFingerprint s key f).clients = s.clients ∧
    (dropKeyFingerprint s key f).observingClients = s.observingClients := by
  unfold dropKeyFingerprint
  cases s.observeKeyToFingerprints.lookup key <;> simp

private lemma dropKeyFingerprint_lookup (s : Server) (key f k : Bytes) :
    (dropKeyFingerprint s key f).observeKeyToFingerprints.lookup k =
    if k = key then
      (s.observeKeyToFingerprints.lookup key).bind fun fs =>
        if (fs.erase f).length = 0 then none else some (fs.erase f)
    else s.observeKeyToFingerprints.lookup k := by
  unfold dropKeyFingerprint
  split
  next hfs => grind
  next fs hfs =>
    simp only [hfs, bind_some]
    split
    next => rw [lookup_erase_eq]
    next => rw [lookup_insert_eq]

private lemma dropKeyFingerprint_fingerprintsOf (s : Server) (key f k : Bytes) :
    (dropKeyFingerprint s key f).fingerprintsOf k =
    if k = key then (s.fingerprintsOf k).erase f else s.fingerprintsOf k := by
  unfold Server.fingerprintsOf
  rw [dropKeyFingerprint_lookup]
  split
  next hk =>
    subst hk
    cases hfs : s.observeKeyToFingerprints.lookup k with
    | none => rfl
    | some fs => grind
  next => rfl

/-- Last holder of a fingerprint: the entry goes, and with it its place in
the key's list. -/
lemma linked_removeEntry (hl : Linked (s.put cid c))
    (hinfo : s.observeFingerprints.lookup f = some info)
    (honly : ∀ cid' ∈ info.clients, cid' = cid) (hself : c'.subscribed f = false)
    (hset : ∀ f' ≠ f, c'.subscribed f' = c.subscribed f') (htrim : Trimmed c') :
    Linked ((dropKeyFingerprint
      { s with observeFingerprints := s.observeFingerprints.erase f } info.key f).put cid c') := by
  obtain ⟨hfps, hcl, _⟩ := dropKeyFingerprint_frame
    { s with observeFingerprints := s.observeFingerprints.erase f } info.key f
  refine linked_entry none hl (fun f' => ?_) hcl (by simp) (fun cid' => ?_) hset htrim
    (fun k => ?_) fun k fs hfs => ?_
  · rw [hfps]
    exact lookup_erase_eq _ f f'
  · have hof := holders_eq s hinfo
    grind
  · -- the entry of `f` names `info.key`, so no other key lists it
    have hnodup : (s.fingerprintsOf k).Nodup := hl.key_nodup k
    have hold := hl.key_iff k f
    have hof := dropKeyFingerprint_fingerprintsOf
      { s with observeFingerprints := s.observeFingerprints.erase f } info.key f k
    change _ = if k = info.key then (s.fingerprintsOf k).erase f else s.fingerprintsOf k at hof
    rw [hof]
    grind
  · rw [dropKeyFingerprint_lookup] at hfs
    have hold := hl.key_nonempty k fs
    cases hfs' : s.observeKeyToFingerprints.lookup info.key <;> grind

/-! ## Subscribing -/

/-- A subscription that is already there changes nothing. -/
lemma subscribe_already {argv : List Bytes} {key : Bytes} (h : c.subscribed f = true) :
    observeSubscribeFingerprint s cid c argv f key = (s, c, false) := by
  have hsome : ∃ d, c.observeFingerprints = some d := by
    cases hd : c.observeFingerprints with
    | none => simp [Client.subscribed, hd] at h
    | some d => exact ⟨d, rfl⟩
  obtain ⟨d, hd⟩ := hsome
  simp only [observeSubscribeFingerprint, h, if_true, hd, getD_some]
  rw [← hd]

/-- A new subscription adds at most the entry of the client's own command. -/
lemma subscribe_new (s : Server) (cid : ClientId) {argv : List Bytes} (hargv : argv ∈ U)
    (hnew : c.subscribed (generateCommandFingerprint argv) = false) :
    ∃ s₁, observeSubscribeFingerprint s cid c argv (generateCommandFingerprint argv) (keyOf argv) =
      (s₁, c.addFingerprint (generateCommandFingerprint argv), true) ∧
    Moves U cid s c s₁ (c.addFingerprint (generateCommandFingerprint argv)) := by
  simp only [observeSubscribeFingerprint, hnew, false_eq_true, if_false]
  split
  next hlook =>
    refine ⟨_, rfl, fun hl => linked_subscribeFirst hl hlook
      { command := cstr (argv.headD []), argv := argv, key := keyOf argv, clients := [] ++ [cid] }
      rfl, fun hs f info hinfo => ?_, rfl, rfl⟩
    rw [lookup_insert_eq] at hinfo
    split at hinfo
    next hf =>
      rw [← some.inj hinfo, hf]
      exact ⟨hargv, rfl, rfl, rfl⟩
    next => exact hs f info hinfo
  next info hlook =>
    refine ⟨_, rfl, fun hl => ?_, fun hs f info' hinfo => ?_, rfl, rfl⟩
    · have hnodup : info.clients.Nodup := clients_nodup hl hlook
      have hnot : cid ∉ info.clients := by
        have hiff := hl.holders_iff (generateCommandFingerprint argv) cid
        rw [put_holders, holders_eq s hlook, memberOf_put, if_pos rfl] at hiff
        simp [hiff, hnew]
      refine linked_setHolders hl hlook ?_ (by simp) ?_ ?_ (addFingerprint_trimmed c _)
      · exact hnodup.append (by simp) (by simpa using hnot)
      · intro cid'
        by_cases h : cid' = cid <;> simp [h, subscribed_addFingerprint]
      · intro f' hne
        rw [Bool.eq_iff_iff, subscribed_addFingerprint]
        simp [hne]
    · rw [lookup_insert_eq] at hinfo
      split at hinfo
      next hf =>
        rw [← some.inj hinfo, hf]
        exact { hs _ info hlook with }
      next => exact hs f info' hinfo

/-- `OBSERVE` is granted to this client. -/
def Granted (c : Client) (argv : List Bytes) : Prop :=
  Supported argv ∧ (c.denyBlocking && !c.multi) = false

/-- What a command of the client leaves behind: its flag is right again, and
of its connection nothing has changed. -/
structure Commits (U : Set (List Bytes)) (cid : ClientId) (s : Server) (c : Client)
    (s' : Server) (c' : Client) : Prop extends Moves U cid s c s' c' where
  connection : connection c' = connection c
  flagged : Flagged c'

lemma Commits.refl (hflag : Flagged c) : Commits U cid s c s c :=
  ⟨moves_client rfl _ rfl, rfl, hflag⟩

/-- A granted `OBSERVE` marks the client exactly when the subscription is new:
a repeated one finds it marked. -/
lemma generic_spec (s : Server) (cid : ClientId) {argv : List Bytes} (hargv : argv ∈ U)
    (hflag : Flagged c) (hallow : (c.denyBlocking && !c.multi) = false) :
    let r := genericObserveCommand s cid c argv
    Commits U cid s c r.1 r.2 ∧
    ∀ f, r.2.subscribed f = true ↔ f = generateCommandFingerprint argv ∨ c.subscribed f = true := by
  simp only [genericObserveCommand, hallow, false_eq_true, if_false]
  rw [show (argv.drop 1).headD [] = keyOf argv from rfl]
  cases hsub : c.subscribed (generateCommandFingerprint argv) with
  | true =>
    rw [subscribe_already hsub]
    exact ⟨.refl hflag, by grind⟩
  | false =>
    obtain ⟨s₁, hs₁, hm⟩ := subscribe_new s cid hargv hsub
    obtain ⟨hmark, hc'⟩ := mark_spec cid s₁ (c.addFingerprint (generateCommandFingerprint argv))
    rw [hs₁]
    simp only [if_true]
    refine ⟨⟨hm.trans hmark, ?_, ?_⟩, fun f => ?_⟩ <;> rw [hc']
    · rfl
    · exact iff_of_true rfl ⟨_, (subscribed_addFingerprint c _ _).mpr (.inl rfl)⟩
    · exact subscribed_addFingerprint c _ f

lemma observe_spec (s : Server) (cid : ClientId) {argv : List Bytes}
    (hU : Supported argv → argv.drop 1 ∈ U) (hflag : Flagged c) :
    let r := observeCommand s cid c argv
    Commits U cid s c r.1 r.2 ∧ ∀ f, r.2.subscribed f = true ↔
      (Granted c argv ∧ f = generateCommandFingerprint (argv.drop 1)) ∨ c.subscribed f = true := by
  have hrefuse : ¬ Granted c argv → Commits U cid s c s c ∧ ∀ f, c.subscribed f = true ↔
      (Granted c argv ∧ f = generateCommandFingerprint (argv.drop 1)) ∨ c.subscribed f = true :=
    fun h => ⟨.refl hflag, by simp [h]⟩
  unfold observeCommand
  split
  next hlen => exact hrefuse fun h => by have := h.1.1; omega
  split
  next hdeny => exact hrefuse fun h => Bool.noConfusion (hdeny.symm.trans h.2)
  next hlen hdeny =>
    split
    next hnone => exact hrefuse fun h => Bool.noConfusion ((congrArg isSome hnone).symm.trans h.1.2)
    next handler hsome =>
      have hsup : Supported argv := ⟨by omega, by rw [hsome]; rfl⟩
      have hallow : (c.denyBlocking && !c.multi) = false := by simpa using hdeny
      have hgranted : Granted c argv := ⟨hsup, hallow⟩
      obtain ⟨hdone, hset⟩ := generic_spec s cid (hU hsup) hflag hallow
      exact ⟨hdone, fun f => by rw [hset]; simp [hgranted]⟩

/-! ## Unsubscribing -/

section

variable (s : Server) (cid : ClientId)

lemma dropHolder_frame (f : Bytes) : (dropHolder s cid f).clients = s.clients ∧
    (dropHolder s cid f).observingClients = s.observingClients := by
  unfold dropHolder
  split
  next => exact ⟨rfl, rfl⟩
  next info _ =>
    dsimp only
    split
    next => exact (dropKeyFingerprint_frame _ info.key f).2
    next => exact ⟨rfl, rfl⟩

lemma dropHolder_described (f : Bytes) (hs : AllDescribed U s) :
    AllDescribed U (dropHolder s cid f) := by
  unfold dropHolder
  split
  next => exact hs
  next info hlook =>
    dsimp only
    intro f' info' hinfo'
    have hold := hs f' info'
    split at hinfo'
    next =>
      rw [(dropKeyFingerprint_frame _ info.key f).1] at hinfo'
      grind
    next =>
      rw [lookup_insert_eq] at hinfo'
      split at hinfo'
      next hf =>
        rw [← some.inj hinfo', hf]
        exact { hs _ info hlook with }
      next => exact hold hinfo'

/-- What unsubscribing does to the client. -/
lemma unsubscribe_client (c : Client) (f : Bytes) : let r := observeUnsubscribeFingerprint s cid c f
    r.1 = (if c.subscribed f then dropHolder s cid f else s) ∧
      r.2 = { c with observeFingerprints := r.2.observeFingerprints } ∧ Trimmed r.2 ∧
      ∀ f', r.2.subscribed f' = true ↔ f' ≠ f ∧ c.subscribed f' = true := by
  unfold observeUnsubscribeFingerprint
  cases hd : c.observeFingerprints with
  | none =>
    refine ⟨by simp [Client.subscribed, hd], rfl, ?_, ?_⟩ <;> simp [Client.subscribed, Trimmed, hd]
  | some d =>
    refine ⟨by simp [Client.subscribed, hd], rfl, fun d' hd' hnil => ?_, fun f' => ?_⟩
    · simp only [ite_none_left_eq_some, some.injEq] at hd'
      exact hd'.1 (by simp [hd'.2, hnil])
    have herase : ((d.erase f).lookup f').isSome ↔ f' ≠ f ∧ (d.lookup f').isSome := by grind
    simp only [Client.subscribed, hd]
    rw [← herase]
    by_cases hlen : (d.erase f).entries.length = 0
    · have hempty : d.erase f = ∅ := AList.ext (length_eq_zero_iff.mp hlen)
      simp [hempty]
    · simp [hlen]

end

/-- Dropping a holder that is subscribed, while its own set loses the
fingerprint. -/
lemma linked_dropHolder (hl : Linked (s.put cid c)) (hsub : c.subscribed f = true)
    (hself : c'.subscribed f = false) (hset : ∀ f' ≠ f, c'.subscribed f' = c.subscribed f')
    (htrim : Trimmed c') : Linked ((dropHolder s cid f).put cid c') := by
  have hmem : cid ∈ s.holders f := by
    refine (hl.holders_iff f cid).mpr ?_
    rw [memberOf_put, if_pos rfl]
    exact hsub
  unfold dropHolder
  split
  next hlook => simp [holders_eq_nil s hlook] at hmem
  next info hlook =>
    have hnodup : info.clients.Nodup := clients_nodup hl hlook
    dsimp only
    split
    next hlen =>
      refine linked_removeEntry hl hlook ?_ hself hset htrim
      intro cid' hmem'
      by_contra hne
      have hleft := hnodup.mem_erase_iff.mpr ⟨hne, hmem'⟩
      simp [length_eq_zero_iff.mp hlen] at hleft
    next hlen =>
      refine linked_setHolders hl hlook (hnodup.erase cid) ?_ ?_ hset htrim
      · exact mt length_eq_zero_iff.mpr hlen
      · intro cid'
        rw [hnodup.mem_erase_iff]
        by_cases h : cid' = cid <;> simp [h, hself]

/-- The client loses the named fingerprints and keeps its flag. -/
structure Unsubscribes (U : Set (List Bytes)) (cid : ClientId) (fs : List Bytes) (s : Server)
    (c : Client) (s' : Server) (c' : Client) : Prop extends Moves U cid s c s' c' where
  client : c' = { c with observeFingerprints := c'.observeFingerprints }
  subscribed : ∀ f, c'.subscribed f = true ↔ f ∉ fs ∧ c.subscribed f = true

lemma Unsubscribes.none {fs : List Bytes} (h : ∀ f ∈ fs, c.subscribed f = false) :
    Unsubscribes U cid fs s c s c :=
  ⟨moves_client rfl _ rfl, rfl, by grind⟩

lemma Unsubscribes.trans {s₁ : Server} {c₁ : Client} {fs gs : List Bytes}
    (h : Unsubscribes U cid fs s c s₁ c₁) (h' : Unsubscribes U cid gs s₁ c₁ s' c') :
    Unsubscribes U cid (fs ++ gs) s c s' c' where
  toMoves := h.toMoves.trans h'.toMoves
  client := by
    rw [h'.client, h.client]
  subscribed f := by
    rw [h'.subscribed, h.subscribed, mem_append]
    tauto

lemma unsubscribe_spec (s : Server) (cid : ClientId) (c : Client) (f : Bytes) :
    let r := observeUnsubscribeFingerprint s cid c f
    Unsubscribes U cid [f] s c r.1 r.2 := by
  intro r
  obtain ⟨hsrv, hclient, htrim, hset⟩ := unsubscribe_client s cid c f
  refine ⟨⟨fun hl => ?_, ?_, ?_, ?_⟩, hclient, by simpa using hset⟩
  · show Linked (Server.put _ cid _)
    rw [hsrv]
    split
    next hsub =>
      refine linked_dropHolder hl hsub ?_ (fun f' hne => ?_) htrim
      · rw [eq_false_iff, Ne, hset]
        simp
      · rw [Bool.eq_iff_iff, hset]
        simp [hne]
    next hsub =>
      -- the dictionary loses nothing
      refine linked_of_members hl rfl rfl (fun cid' f' => ?_) fun cid' c₁ hc₁ => ?_
      · have := hset f'
        grind
      · have hold := hl.trimmed cid' c₁
        grind
  · rw [hsrv]
    split
    next => exact dropHolder_described s cid f
    next => exact id
  · rw [hsrv]
    split
    next => exact (dropHolder_frame s cid f).1
    next => rfl
  · rw [hsrv, hclient]
    split
    next => rw [(dropHolder_frame s cid f).2]
    next => rfl

/-- The argument loop of `UNOBSERVE`. -/
lemma unobserveLoop_spec (fs : List Bytes) {s : Server} {c : Client} {n : Nat}
    {r : Server × Client × Nat} (hr : unobserveLoop s cid c n fs = some r) :
    Unsubscribes U cid fs s c r.1 r.2.1 := by
  fun_induction unobserveLoop s cid c n fs with
  | case1 =>
    cases hr
    exact .none (by simp)
  | case2 => cases hr
  | case3 s c n f rest d hd hin s' c' hun ih =>
    have hfirst := unsubscribe_spec (U := U) s cid c f
    rw [hun] at hfirst
    exact hfirst.trans (ih hr)
  | case4 s c n f rest d hd hin ih =>
    have hnot : c.subscribed f = false := by simpa [Client.subscribed, hd] using hin
    have hfirst : Unsubscribes U cid [f] s c s c := .none (by simpa using hnot)
    exact hfirst.trans (ih hr)

/-- The teardown loop removes exactly the collected fingerprints. -/
lemma unsubscribeAll_spec (cid : ClientId) (fs : List Bytes) : ∀ (s : Server) (c : Client),
    let r := unsubscribeAll s cid c fs
    Unsubscribes U cid fs s c r.1 r.2 := by
  induction fs with
  | nil => exact fun s c => .none (by simp)
  | cons f rest ih => exact fun s c => (unsubscribe_spec s cid c f).trans (ih _ _)

/-- `UNOBSERVE` clears the flag when the last fingerprint is gone. -/
lemma unobserve_spec {argv : List Bytes} {r : Server × Client × Nat} (hflag : Flagged c)
    (hr : unobserveCommand s cid c argv = some r) :
    Commits U cid s c r.1 r.2.1 ∧
    ∀ f, r.2.1.subscribed f = true ↔ f ∉ argv.drop 1 ∧ c.subscribed f = true := by
  unfold unobserveCommand at hr
  split at hr
  next hempty =>
    obtain rfl := some.inj hr
    have hnone := (hasNoFingerprints_iff c).mp hempty
    exact ⟨.refl hflag, fun f => by simp [hnone]⟩
  next hempty =>
    obtain ⟨⟨s₁, c₁, n⟩, hloop, hr'⟩ := map_eq_some_iff.mp hr
    have hun : Unsubscribes U cid _ s c s₁ c₁ := unobserveLoop_spec _ hloop
    have hconn : connection c₁ = connection c := by rw [hun.client]; rfl
    simp only at hr'
    split at hr' <;> subst hr'
    next hnone =>
      obtain ⟨hm, hclient, -⟩ := unmark_spec (U := U) cid s₁ c₁
      refine ⟨⟨hun.toMoves.trans hm, ?_, ?_⟩, ?_⟩ <;> rw [hclient]
      · exact hconn
      · refine iff_of_false (by simp) ?_
        rintro ⟨f, hf⟩
        exact Bool.noConfusion (((hasNoFingerprints_iff c₁).mp hnone f).symm.trans hf)
      · exact hun.subscribed
    next hnone =>
      -- the client was marked, and stays so because its set is not empty
      have hmarked : c.observing = true := hflag.mpr (exists_subscribed hempty)
      refine ⟨⟨hun.toMoves, hconn, iff_of_true ?_ (exists_subscribed hnone)⟩, hun.subscribed⟩
      rw [hun.client]
      exact hmarked

lemma free_spec (s : Server) (cid : ClientId) (c : Client) : ∃ s₁ c₁,
    freeClient s cid c = { s₁ with clients := s₁.clients.erase cid } ∧ Moves U cid s c s₁ c₁ ∧
    c₁.observing = false ∧ ∀ f, c₁.subscribed f = false := by
  have hun := unsubscribeAll_spec (U := U) cid c.fingerprints s c
  obtain ⟨hm, hclient, -⟩ := unmark_spec (U := U) cid
    (unsubscribeAll s cid c c.fingerprints).1 (unsubscribeAll s cid c c.fingerprints).2
  refine ⟨_, _, rfl, hun.toMoves.trans hm, ?_, fun f => ?_⟩ <;> rw [hclient]
  rw [eq_false_iff]
  intro hf
  obtain ⟨hnot, hsub⟩ := (hun.subscribed f).mp hf
  exact hnot ((mem_fingerprints c f).mpr hsub)

/-! ## Whole events -/

/-- What holds between events. -/
structure Consistent (s : Server) : Prop where
  linked : Linked s
  counted : Counted s

lemma consistent_empty : Consistent {} where
  linked := {
    holders_nodup := fun f => by simp [Server.holders]
    holders_iff := fun f cid => by simp [Server.holders, MemberOf]
    entry_nonempty := fun f info h => by simp at h
    key_nodup := fun k => by simp [Server.fingerprintsOf]
    key_iff := fun k f => by simp [Server.fingerprintsOf]
    key_nonempty := fun k fs h => by simp at h
    trimmed := fun cid c h => by simp at h }
  counted := { flag_iff := fun cid c h => by simp at h, count_eq := rfl }

/-- One client comes, changes or goes, and the counter with it. -/
lemma Counted.change (h : Counted s) (cid : ClientId) (new : Option Client)
    (hlook : ∀ cid', s'.clients.lookup cid' = if cid' = cid then new else s.clients.lookup cid')
    (hflag : ∀ c, new = some c → Flagged c)
    (hcount : s'.observingClients + ((s.clients.lookup cid).any Client.observing).toNat =
      s.observingClients + (new.any Client.observing).toNat) : Counted s' := by
  refine ⟨fun cid' c' hc' => ?_, ?_⟩
  · have hold := h.flag_iff cid' c'
    grind [Flagged]
  · have hchange := countValues_change Client.observing _ hlook
    have := h.count_eq
    omega

section

variable (hs : Consistent s) (hc : s.clients.lookup cid = some c)

include hs

lemma consistent_connect (hc : s.clients.lookup cid = none) : Consistent (s.put cid {}) := by
  refine ⟨linked_of_members hs.linked rfl rfl (fun cid' f => ?_) fun cid' c' hc' => ?_,
    hs.counted.change cid (some {}) (lookup_put s cid · {}) ?_ ?_⟩
  · grind [MemberOf, Client.subscribed]
  · have hold := hs.linked.trimmed cid' c'
    grind [Trimmed]
  · rintro _ ⟨⟩
    simp [Flagged, Client.subscribed]
  · simp [hc]

include hc

lemma Moves.consistent (hm : Moves U cid s c s' c') (hflag : Flagged c') :
    Consistent (s'.put cid c') := by
  refine ⟨hm.linked (linked_put_self hs.linked hc),
    hs.counted.change cid (some c') (fun cid' => ?_) ?_ ?_⟩
  · rw [lookup_put, hm.clients]
  · rintro _ ⟨⟩
    exact hflag
  · simpa [hc] using hm.counter

/-- Connection state other than flag and set does not concern the registry. -/
lemma consistent_context (hobs : c'.observing = c.observing)
    (hset : c'.observeFingerprints = c.observeFingerprints) : Consistent (s.put cid c') := by
  refine Moves.consistent (U := ∅) hs hc (moves_client hset _ (by rw [hobs])) ?_
  have hflag := hs.counted.flag_iff cid c hc
  simpa [Flagged, Client.subscribed, hobs, hset] using hflag

lemma consistent_free : Consistent (freeClient s cid c) := by
  obtain ⟨s₁, c₁, hfree, hm, hflag, hnone⟩ := free_spec (U := ∅) s cid c
  rw [hfree]
  refine ⟨linked_erase (hm.linked (linked_put_self hs.linked hc)) hnone,
    hs.counted.change cid none (fun cid' => ?_) (by simp) ?_⟩
  · rw [hm.clients, lookup_erase_eq]
  · simpa [hc, hflag] using hm.counter

end

lemma select_frame (c : Client) (dbid : Nat) : (c.select dbid).observing = c.observing ∧
    (c.select dbid).observeFingerprints = c.observeFingerprints := by
  unfold Client.select
  split <;> exact ⟨rfl, rfl⟩

lemma hello_frame (c : Client) (resp : Nat) : (c.hello resp).observing = c.observing ∧
    (c.hello resp).observeFingerprints = c.observeFingerprints := by
  unfold Client.hello
  split <;> exact ⟨rfl, rfl⟩

lemma step_consistent (s : Server) (e : Event) (s' : Server)
    (hs : Consistent s) (h : step s e = some s') : Consistent s' := by
  cases e with
  | connect cid =>
    simp only [step, ite_none_left_eq_some, some.injEq] at h
    obtain ⟨hc, rfl⟩ := h
    exact consistent_connect hs (by simpa using hc)
  | context cid denyBlocking multi =>
    obtain ⟨c, hc, rfl⟩ := map_eq_some_iff.mp h
    exact consistent_context hs hc rfl rfl
  | select cid dbid =>
    obtain ⟨c, hc, rfl⟩ := map_eq_some_iff.mp h
    exact consistent_context hs hc (select_frame c dbid).1 (select_frame c dbid).2
  | hello cid resp =>
    obtain ⟨c, hc, rfl⟩ := map_eq_some_iff.mp h
    exact consistent_context hs hc (hello_frame c resp).1 (hello_frame c resp).2
  | reset cid =>
    obtain ⟨c, hc, rfl⟩ := map_eq_some_iff.mp h
    exact consistent_context hs hc rfl rfl
  | observe cid argv =>
    obtain ⟨c, hc, rfl⟩ := map_eq_some_iff.mp h
    obtain ⟨hdone, -⟩ := observe_spec (U := fun _ => True) s cid (fun _ => trivial)
      (hs.counted.flag_iff cid c hc)
    exact hdone.toMoves.consistent hs hc hdone.flagged
  | unobserve cid argv =>
    obtain ⟨c, hc, hrest⟩ := bind_eq_some_iff.mp h
    obtain ⟨r, hr, rfl⟩ := map_eq_some_iff.mp hrest
    obtain ⟨hdone, -⟩ := unobserve_spec (U := ∅) (hs.counted.flag_iff cid c hc) hr
    exact hdone.toMoves.consistent hs hc hdone.flagged
  | free cid =>
    obtain ⟨c, hc, rfl⟩ := map_eq_some_iff.mp h
    exact consistent_free hs hc

lemma consistent_of_run {events : List Event} (h : run step {} events = some s) : Consistent s :=
  run_invariant' step_consistent consistent_empty h

/-- After any sequence of completed events: a client is listed under a
fingerprint, once, exactly when the fingerprint is in its own set; every
entry has a client; a fingerprint is listed under a key, once, exactly when
its entry names the key; no key has an empty list; the flag says whether the
set is non-empty and the counter counts the clients with a non-empty set; a
client that is gone is in no list. -/
theorem observe_registry_agrees (events : List Event) (s : Server)
    (h : run step {} events = some s) :
    (∀ f cid, (cid ∈ s.holders f ↔ MemberOf s cid f) ∧
      (cid ∈ s.holders f → (s.holders f).count cid = 1)) ∧
    (∀ f info, s.observeFingerprints.lookup f = some info → info.clients ≠ []) ∧
    (∀ k f, (f ∈ s.fingerprintsOf k ↔
        ∃ info, s.observeFingerprints.lookup f = some info ∧ info.key = k) ∧
      (f ∈ s.fingerprintsOf k → (s.fingerprintsOf k).count f = 1)) ∧
    (∀ k fs, s.observeKeyToFingerprints.lookup k = some fs → fs ≠ []) ∧
    (∀ cid c, s.clients.lookup cid = some c → (c.observing = true ↔ ∃ f, c.subscribed f = true)) ∧
    s.observingClients = countValues (fun c => !Client.hasNoFingerprints c) s.clients ∧
    (∀ f cid, s.clients.lookup cid = none → cid ∉ s.holders f) := by
  have hs := consistent_of_run h
  refine ⟨?_, hs.linked.entry_nonempty, ?_, hs.linked.key_nonempty, hs.counted.flag_iff, ?_, ?_⟩
  · intro f cid
    exact ⟨hs.linked.holders_iff f cid, count_eq_one_of_mem (hs.linked.holders_nodup f)⟩
  · intro k f
    exact ⟨hs.linked.key_iff k f, count_eq_one_of_mem (hs.linked.key_nodup k)⟩
  · rw [hs.counted.count_eq, countValues_congr]
    intro cid c hc
    rw [Bool.eq_iff_iff, hs.counted.flag_iff cid c hc,
      not_eq_true', ← not_eq_true, hasNoFingerprints_iff]
    simp
  · intro f cid hgone hmem
    obtain ⟨c, hc, _⟩ := (hs.linked.holders_iff f cid).mp hmem
    rw [hgone] at hc
    exact absurd hc (by simp)

/-- A run with a shared fingerprint, a partial `UNOBSERVE` and a freed
client. -/
private def sampleRun : List Event :=
  [.connect 1, .connect 2, .observe 1 [ofString "OBSERVE", ofString "GET", ofString "k"],
   .observe 2 [ofString "OBSERVE", ofString "GET", ofString "k"],
   .observe 2 [ofString "OBSERVE", ofString "get", ofString "k"],
   .unobserve 2 [ofString "UNOBSERVE", generateCommandFingerprint [ofString "GET", ofString "k"]],
   .free 1]

theorem observe_registry_agrees_sample :
    ∃ s, run step {} sampleRun = some s ∧ s.observingClients = 1 ∧ s.observingClients =
        countValues (fun c => !Client.hasNoFingerprints c) s.clients ∧
      1 ∉ s.holders (generateCommandFingerprint [ofString "GET", ofString "k"]) := by
  have hsome : ((run step {} sampleRun).map fun s =>
      (s.observingClients, (s.clients.lookup 1).isSome)) = some (1, false) := by
    decide +kernel
  obtain ⟨s, hs, hval⟩ := map_eq_some_iff.mp hsome
  rw [Prod.mk.injEq] at hval
  obtain ⟨_, _, _, _, _, hcount, hgone⟩ := observe_registry_agrees sampleRun s hs
  exact ⟨s, hs, hval.1, hcount, hgone _ 1 (by simpa using hval.2)⟩

end Dice.Ports.ObserveConsistency
