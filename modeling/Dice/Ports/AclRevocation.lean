import Mathlib.Data.List.Dedup
import Dice.Ports.AclCommands

/-!
# Revoking channels

After a change of the rules nobody should stay subscribed to what its user may
not read any more, and nobody else should lose the connection.

Every command installs a table of users and sweeps over the clients.  Which
clients a sweep closes is stated in terms of the rules alone (`disconnects`), and
the loops of the three commands are shown to close exactly those.  What remains
is the difference to the clients that have to be closed: the comparison with the
old rules passes over users without any channel, and `ACL LOAD` compares the
default user with itself.
-/

namespace Dice.Ports.AclRevocation

open List Verified CString Table Sweep Sds AclSelector AclUser AclCheck Except
open AclCommands

/-- The subscriptions of a client; the flag marks the patterns. -/
def subscriptions (c : Client) : List (Bytes × Bool) :=
  c.patterns.map (·, true) ++ c.channels.map (·, false) ++ c.shardChannels.map (·, false)

/-- The client is on its way out. -/
def beingClosed (c : Client) : Bool := c.closeAsap || c.closeAfterCommand || c.closeAfterReply

/-- `u` may read everything `c` is subscribed to. -/
def grantsAll (u : User) (c : Client) : Bool :=
  (subscriptions c).all fun sub =>
    aclUserCheckChannelPerm (some u) sub.1 sub.2 == .ok

/-- The user of `c` exists and permits all its subscriptions. -/
def permitted (users : Dict Bytes User) (c : Client) : Bool :=
  match c.user with
  | .null => true
  | .freed => false
  | .named name => (users.lookup name).any fun u => grantsAll u c

/-- An error leaves users and clients alone.  After success every open client
is permitted what it is subscribed to, and whoever is permitted all of it is
still connected. -/
def ChannelsRevoked (env : AclEnv) (s : AclState) (caller : Nat) (op : AclOp) : Prop :=
  match aclCommand env s caller op with
  | .fault => False
  | .error _ s' => s'.users = s.users ∧ s'.clients = s.clients
  | .done _ s' =>
    (∀ c ∈ s'.clients, beingClosed c = false → permitted s'.users c = true) ∧
      ∀ c ∈ s.clients, permitted s'.users c = true → ∃ c' ∈ s'.clients, c'.id = c.id ∧
          (beingClosed c = false → beingClosed c' = false)

instance (env : AclEnv) (s : AclState) (caller : Nat) (op : AclOp) :
    Decidable (ChannelsRevoked env s caller op) := by
  unfold ChannelsRevoked
  split <;> infer_instance

/-- The default user exists, clients are told apart by their number, and a
client refers to an existing user unless it waits to be freed. -/
structure Wf (s : AclState) : Prop where
  default_mem : (s.users.lookup defaultName).isSome = true
  ids_nodup : (s.clients.map Client.id).Nodup
  named_mem : ∀ c ∈ s.clients, ∀ name, c.user = .named name → (s.users.lookup name).isSome = true
  freed_closing : ∀ c ∈ s.clients, c.user = .freed → c.closeAsap = true

/-- The state between two commands. -/
structure AclServer extends AclState where
  wf : Wf toAclState

/-! ## Channel checks on the flattened list -/

/-- The channel list of all selectors together. -/
def allChannelsOf (u : User) : List Bytes := u.allSelectors.flatMap fun s => s.channels

/-- Some selector has `allchannels`. -/
def hasAllChannels (u : User) : Bool := u.allSelectors.any fun s => s.allChannels

/-- The rules name some channel. -/
def hasChannels (u : User) : Bool :=
  u.allSelectors.any fun s => s.allChannels || !s.channels.isEmpty

lemma checkChannelPerm_ok_iff_exists (u : User) (channel : Bytes) (isPattern : Bool) :
    aclUserCheckChannelPerm (some u) channel isPattern = .ok ↔ ∃ s ∈ u.allSelectors, s.allChannels ∨
      aclCheckChannelAgainstList s.channels channel isPattern = .ok := by
  simp only [aclUserCheckChannelPerm, ite_eq_left_iff, reduceCtorEq, imp_false, not_not,
    any_eq_true, Bool.or_eq_true, beq_iff_eq]

lemma checkAgainstList_flatMap (selectors : List Selector) (channel : Bytes) (isPattern : Bool) :
    aclCheckChannelAgainstList (selectors.flatMap fun s => s.channels) channel
      isPattern = .ok ↔
    ∃ s ∈ selectors, aclCheckChannelAgainstList s.channels channel isPattern = .ok := by
  simp [aclCheckChannelAgainstList]

variable {u : User} {c c' : Client} {s : AclState} {op : AclOp} {users old new : Dict Bytes User}
  {env : AclEnv} {name : Bytes} {file : AclFile} {caller : Nat}

/-- Without `allchannels` the selectors can be checked through one list. -/
lemma checkChannelPerm_ok_iff (hall : hasAllChannels u = false)
    (channel : Bytes) (isPattern : Bool) :
    aclUserCheckChannelPerm (some u) channel isPattern = .ok ↔
    aclCheckChannelAgainstList (allChannelsOf u) channel isPattern = .ok := by
  have hnone : ∀ s ∈ u.allSelectors, s.allChannels = false := by simpa [hasAllChannels] using hall
  rw [checkChannelPerm_ok_iff_exists, allChannelsOf, checkAgainstList_flatMap]
  constructor
  · rintro ⟨s, hs, hsall | hok⟩
    · rw [hnone s hs] at hsall
      cases hsall
    · exact ⟨s, hs, hok⟩
  · rintro ⟨s, hs, hok⟩
    exact ⟨s, hs, .inr hok⟩

lemma grantsAll_iff (u : User) (c : Client) : grantsAll u c ↔
    ∀ sub ∈ subscriptions c, aclUserCheckChannelPerm (some u) sub.1 sub.2 = .ok := by
  simp [grantsAll]

lemma grantsAll_of_hasAllChannels (hall : hasAllChannels u) (c : Client) : grantsAll u c := by
  simp only [hasAllChannels, any_eq_true] at hall
  obtain ⟨s, hs, hsall⟩ := hall
  rw [grantsAll_iff]
  intro sub _
  exact (checkChannelPerm_ok_iff_exists u sub.1 sub.2).mpr ⟨s, hs, .inl hsall⟩

lemma checkAgainstList_denied_iff (reference : List Bytes) (channel : Bytes) (isPattern : Bool) :
    (aclCheckChannelAgainstList reference channel isPattern == .deniedChannel) =
    !(aclCheckChannelAgainstList reference channel isPattern == .ok) := by
  simp only [aclCheckChannelAgainstList]
  split <;> rfl

lemma aclShouldKillPubsubClient_eq (upcoming : List Bytes) (c : Client) :
    aclShouldKillPubsubClient upcoming c = (getClientType c == .pubsub &&
      !(subscriptions c).all fun sub =>
        aclCheckChannelAgainstList upcoming sub.1 sub.2 == .ok) := by
  simp only [aclShouldKillPubsubClient, checkAgainstList_denied_iff, subscriptions,
    all_append, all_map, Bool.not_and, not_all_eq_any_not]
  rfl

/-- Checking the flattened list decides as the user check does. -/
lemma aclShouldKillPubsubClient_allChannelsOf (hall : hasAllChannels u = false) (c : Client) :
    aclShouldKillPubsubClient (allChannelsOf u) c =
    (getClientType c == .pubsub && !grantsAll u c) := by
  rw [aclShouldKillPubsubClient_eq]
  congr 2
  congr 1
  funext sub
  rw [Bool.eq_iff_iff, beq_iff_eq, beq_iff_eq]
  exact (checkChannelPerm_ok_iff hall sub.1 sub.2).symm

/-- Two different users share no string, so only two things end the comparison
early: `allchannels` in the new rules, and no channel in the old ones. -/
lemma getUpcomingChannelList_other (new original : User) :
    getUpcomingChannelList new original false =
    if hasAllChannels new || !hasChannels original then none
    else some (allChannelsOf new) := by
  have hmatch : (original.allSelectors.all fun s => !s.allChannels &&
      s.channels.all (searchAddress false (allChannelsOf new))) =
    !hasChannels original := by
    rw [hasChannels, not_any_eq_all_not]
    congr 1
    funext s
    cases hch : s.channels <;> simp [searchAddress]
  show (if hasAllChannels new then none
    else if (original.allSelectors.all fun s => !s.allChannels &&
      s.channels.all (searchAddress false (allChannelsOf new))) then none
      else some (allChannelsOf new)) = _
  rw [hmatch]
  cases hasAllChannels new <;> simp

/-- A user compared with itself is found to keep all channels. -/
lemma getUpcomingChannelList_self (u : User) : getUpcomingChannelList u u true = none := by
  unfold getUpcomingChannelList
  split
  · rfl
  next hall =>
    apply if_pos
    simp only [any_eq_true, not_exists, not_and, Bool.not_eq_true] at hall
    simp only [all_eq_true, Bool.and_eq_true, Bool.not_eq_true', searchAddress,
      Bool.true_and, contains_iff_mem, mem_flatMap]
    intro s hs
    exact ⟨hall s hs, fun channel hch => ⟨s, hs, hch⟩⟩

/-- A client is killed if its user had channels before, the client counts as a
subscriber and the new rules deny it something. -/
lemma killed_other (new original : User) (c : Client) :
    ((getUpcomingChannelList new original false).any fun channels =>
      aclShouldKillPubsubClient channels c) =
    (hasChannels original && getClientType c == .pubsub && !grantsAll new c) := by
  rw [getUpcomingChannelList_other]
  cases hall : hasAllChannels new with
  | true => simp [grantsAll_of_hasAllChannels hall c]
  | false =>
    cases hasChannels original with
    | false => simp
    | true => simp [aclShouldKillPubsubClient_allChannelsOf hall c]

lemma subscriptions_ne_nil (h : grantsAll u c = false) : subscriptions c ≠ [] := by
  intro hnil
  simp [grantsAll, hnil] at h

lemma pubsubTotalSubscriptions_ne_zero {clients : List Client}
    (hc : c ∈ clients) (h : subscriptions c ≠ []) : pubsubTotalSubscriptions clients ≠ 0 := by
  intro hzero
  simp only [pubsubTotalSubscriptions, Nat.add_eq_zero_iff, length_eq_zero_iff,
    dedup_eq_nil, flatMap_eq_nil_iff] at hzero
  apply h
  simp [subscriptions, hzero.1.1 c hc, hzero.1.2 c hc, hzero.2 c hc]

/-- The users whose clients a command looks at. -/
def rechecks (s : AclState) (op : AclOp) (name : Bytes) : Bool :=
  match op with
  | .setuser username _ => name == username && (s.users.lookup name).any hasChannels
  | .deluser _ => false
  | .load _ => name != defaultName && (s.users.lookup name).any hasChannels

/-- A client is disconnected when its user is gone, or when its user is looked
at, it counts as a subscriber, and the new rules deny it a subscription. -/
def disconnects (s : AclState) (op : AclOp) (users : Dict Bytes User) (c : Client) : Bool :=
  match c.user with
  | .named name =>
    !(users.lookup name).isSome ||
      (rechecks s op name && getClientType c == .pubsub && !permitted users c)
  | _ => false

/-- What becomes of a client that is disconnected. -/
def closeBy (caller : Nat) (op : AclOp) (c : Client) : Option Client :=
  match op with
  | .setuser _ _ => freeClient c
  | .deluser _ => some (closeDeleted caller c)
  | .load _ =>
    match c.user with
    | .named name => freeClientOf name c
    | _ => none

lemma disconnects_of_permitted (h : permitted users c) : disconnects s op users c = false := by
  unfold disconnects
  cases huser : c.user with
  | null => rfl
  | freed => rfl
  | named name =>
    have hsome : (users.lookup name).isSome := by
      simp only [permitted, huser, Option.any_eq_true] at h
      obtain ⟨u, hu, _⟩ := h
      simp [hu]
    simp [h, hsome]

lemma aclKillPubsubClientsIfNeeded_eq (new original : User) (name : Bytes) (clients : List Client) :
    aclKillPubsubClientsIfNeeded new original name clients =
    sweep (fun c => c.user == .named name &&
      (hasChannels original && getClientType c == .pubsub && !grantsAll new c))
      freeClient clients := by
  unfold aclKillPubsubClientsIfNeeded
  split
  next hzero =>
    refine (sweep_eq_self ?_).symm
    intro c hc
    cases hgrant : grantsAll new c with
    | true => simp
    | false =>
      exact absurd hzero (pubsubTotalSubscriptions_ne_zero hc (subscriptions_ne_nil hgrant))
  · have hkill := killed_other new original
    cases hup : getUpcomingChannelList new original false with
    | none =>
      rw [hup] at hkill
      refine (sweep_eq_self ?_).symm
      intro c _
      rw [← hkill c]
      simp
    | some channels =>
      rw [hup] at hkill
      apply sweep_congr
      · intro c _
        rw [← hkill c]
        rfl
      · intro c _ _
        rfl

lemma aclStringSetUser_ok (hwf : Wf s) {username : Bytes} {argv : List Bytes} {tempu : User}
    (hstage : stageUser env ((s.users.lookup username).getD (aclCreateUser env)) argv =
    .ok tempu) (caller : Nat) :
    aclStringSetUser env s username argv =
    .ok { users := s.users.insert username tempu
          clients := sweep
            (disconnects s (.setuser username argv) (s.users.insert username tempu))
            (closeBy caller (.setuser username argv)) s.clients } := by
  -- every client keeps its user, and only the clients of `username` get new rules
  have hdisc : ∀ c ∈ s.clients,
    disconnects s (.setuser username argv) (s.users.insert username tempu) c =
      (c.user == .named username && ((s.users.lookup username).any hasChannels &&
        getClientType c == .pubsub && !grantsAll tempu c)) := by
    intro c hc
    unfold disconnects
    cases huser : c.user with
    | null => rfl
    | freed => rfl
    | named name =>
      have hsome := hwf.named_mem c hc name huser
      by_cases hname : name = username
      · subst hname
        simp [rechecks, permitted, huser]
      have hne : (UserRef.named name == UserRef.named username) = false := by
        rw [beq_eq_false_iff_ne]
        exact fun h => hname (UserRef.named.inj h)
      simp [rechecks, hname, hsome, beq_eq_false_iff_ne.mpr hname]
  simp only [aclStringSetUser, hstage]
  cases hu : s.users.lookup username with
  | none =>
    congr 2
    refine (sweep_eq_self ?_).symm
    intro c hc
    rw [hdisc c hc, hu]
    simp
  | some u =>
    simp only [aclKillPubsubClientsIfNeeded_eq]
    congr 2
    apply sweep_congr
    · intro c hc
      rw [hdisc c hc, hu]
      rfl
    · intro c _ _
      rfl

/-! ### LOAD -/

/-- The comparison for the clients of a user that is still there. -/
lemma killed_upcomingFor {newUser : User} (hnew : new.lookup name = some newUser) (c : Client) :
    ((upcomingFor old new name).any fun channels => aclShouldKillPubsubClient channels c) =
    (name != defaultName && (old.lookup name).any hasChannels &&
      getClientType c == .pubsub && !grantsAll newUser c) := by
  by_cases hname : name = defaultName
  · simp [upcomingFor, hname, getUpcomingChannelList_self]
  simp only [upcomingFor, hnew, Option.bind_some, if_neg hname]
  cases hold : old.lookup name with
  | none => simp
  | some original =>
    have hne : (name != defaultName) := by simp [hname]
    rw [Option.bind_some, killed_other, hne]
    rfl

/-- The cached comparison closes the clients the uncached one does, and if
there is no cache nobody is subscribed. -/
lemma killed_cachedUpcoming (file : AclFile) {cache : Option (Dict Bytes (Option (List Bytes)))}
    (hsound : ∀ m ∈ cache, Sound (upcomingFor s.users new) m)
    (hnosub : cache = none → subscriptions c = []) {newUser : User}
    (huser : c.user = .named name) (hnew : new.lookup name = some newUser) :
    ((cachedUpcoming s.users new cache name).1.any fun channels =>
      aclShouldKillPubsubClient channels c) = disconnects s (.load file) new c := by
  have hdisc : disconnects s (.load file) new c =
    (name != defaultName && (s.users.lookup name).any hasChannels &&
      getClientType c == .pubsub && !grantsAll newUser c) := by
    simp [disconnects, huser, hnew, rechecks, permitted]
  rw [hdisc]
  cases cache with
  | none =>
    have hgrant : grantsAll newUser c := by simp [grantsAll, hnosub rfl]
    simp [cachedUpcoming, hgrant]
  | some m =>
    rw [← killed_upcomingFor hnew c]
    simp only [cachedUpcoming]
    rw [memo_fst (hsound m rfl)]

lemma sound_cachedUpcoming {cache : Option (Dict Bytes (Option (List Bytes)))}
    (hsound : ∀ m ∈ cache, Sound (upcomingFor old new) m) (name : Bytes) :
    ((cachedUpcoming old new cache name).2 = none → cache = none) ∧
    ∀ m ∈ (cachedUpcoming old new cache name).2, Sound (upcomingFor old new) m := by
  cases cache with
  | none => simp [cachedUpcoming]
  | some m =>
    refine ⟨by simp [cachedUpcoming], ?_⟩
    intro m' hm'
    simp only [cachedUpcoming, Option.mem_def, Option.some.injEq] at hm'
    exact hm' ▸ sound_memo (hsound m rfl) name

/-- The loop reads the user of every client, also of one whose user is gone. -/
lemma loadClients_freed {clients : List Client} (hc : c ∈ clients) (huser : c.user = .freed)
    (cache : Option (Dict Bytes (Option (List Bytes)))) :
    loadClients old new cache clients = none := by
  induction clients generalizing cache with
  | nil => cases hc
  | cons c' rest ih =>
    rcases mem_cons.mp hc with rfl | hc
    · simp [loadClients, huser]
    have hrest : ∀ cache, loadClients old new cache rest = none := ih hc
    cases huser' : c'.user with
    | null => simp [loadClients, huser', hrest]
    | freed => simp [loadClients, huser']
    | named name => cases hnew : new.lookup name <;> simp [loadClients, huser', hnew, hrest]

lemma loadClients_eq (s : AclState) (new : Dict Bytes User) (file : AclFile)
    (caller : Nat) (clients : List Client) (hfreed : ∀ c ∈ clients, c.user ≠ .freed)
    (cache : Option (Dict Bytes (Option (List Bytes))))
    (hsound : ∀ m ∈ cache, Sound (upcomingFor s.users new) m)
    (hnosub : cache = none → ∀ c ∈ clients, subscriptions c = []) :
    loadClients s.users new cache clients =
    some (sweep (disconnects s (.load file) new) (closeBy caller (.load file))
      clients) := by
  induction clients generalizing cache with
  | nil => rfl
  | cons c rest ih =>
    have hrest := fun cache => ih (fun c hc => hfreed c (by simp [hc])) cache
    have hnosub' : cache = none → ∀ c ∈ rest, subscriptions c = [] :=
      fun h c hc => hnosub h c (by simp [hc])
    rw [sweep_cons]
    cases huser : c.user with
    | freed => exact absurd huser (hfreed c (by simp))
    | null =>
      have hdisc : disconnects s (.load file) new c = false := by simp [disconnects, huser]
      simp only [loadClients, huser, hrest cache hsound hnosub', hdisc]
      rfl
    | named name =>
      cases hnew : new.lookup name with
      | none =>
        have hdisc : disconnects s (.load file) new c := by simp [disconnects, huser, hnew]
        simp only [loadClients, huser, hnew, hrest cache hsound hnosub', hdisc]
        simp [closeBy, huser]
      | some newUser =>
        have hkill := killed_cachedUpcoming file hsound (fun h => hnosub h c (by simp)) huser hnew
        obtain ⟨hnone, hsound'⟩ := sound_cachedUpcoming hsound name
        simp only [loadClients, huser, hnew, hkill, hrest _ hsound' fun h => hnosub' (hnone h)]
        cases disconnects s (.load file) new c with
        | false => rfl
        | true => simp [closeBy, huser]

lemma aclLoadFromFile_ok (hload : aclLoadUsers env file = some (.ok users))
    (hfreed : ∀ c ∈ s.clients, c.user ≠ .freed) (caller : Nat) :
    aclLoadFromFile env file s =
    some (.ok { users := users
                clients := sweep (disconnects s (.load file) users)
                  (closeBy caller (.load file)) s.clients }) := by
  simp only [aclLoadFromFile, hload, Option.bind_some]
  rw [loadClients_eq s users file caller s.clients hfreed]
  · rfl
  · intro m hm
    split at hm
    · rw [← Option.some.inj hm]
      exact sound_empty _
    · cases hm
  intro hcache c hc
  by_contra hsub
  have hpos := pubsubTotalSubscriptions_ne_zero hc hsub
  rw [if_pos (by omega)] at hcache
  cases hcache

/-! ### DELUSER -/

lemma lookup_foldl_erase (names : List Bytes) (users : Dict Bytes User) (name : Bytes) :
    (names.foldl (fun users n => users.erase n) users).lookup name =
    if name ∈ names then none else users.lookup name := by
  induction names generalizing users with
  | nil => simp
  | cons n names ih =>
    rw [foldl_cons, ih, lookup_erase_eq]
    by_cases hn : name = n
    · simp [hn]
    · simp [hn]

lemma erase_eq_self (h : users.lookup name = none) : users.erase name = users := by
  apply AList.ext
  apply kerase_of_notMem_keys
  exact AList.lookup_eq_none.mp h

section

variable (caller : Nat) (c : Client)

@[simp] lemma closeDeleted_user : (closeDeleted caller c).user = .named defaultName := by
  simp only [closeDeleted]
  split <;> rfl

@[simp] lemma closeDeleted_id : (closeDeleted caller c).id = c.id := by
  simp only [closeDeleted]
  split <;> rfl

@[simp] lemma beingClosed_closeDeleted : beingClosed (closeDeleted caller c) := by
  simp only [closeDeleted]
  split <;> simp [beingClosed, freeClientAsync]

end

/-- The user of the client has been removed. -/
def userGone (users : Dict Bytes User) (c : Client) : Bool :=
  match c.user with
  | .named name => !(users.lookup name).isSome
  | _ => false

lemma disconnects_deluser (s : AclState) (names : List Bytes) (users : Dict Bytes User) :
    disconnects s (.deluser names) users = userGone users := by
  funext c
  unfold disconnects userGone
  cases c.user <;> simp [rechecks]

lemma userGone_closeDeleted
    (hdefault : (users.lookup defaultName).isSome) (caller : Nat) (c : Client) :
    userGone users (closeDeleted caller c) = false := by
  simp [userGone, hdefault]

/-- Deleting name after name closes the clients of all users that are gone in
the end. -/
lemma foldl_delUser (caller : Nat) (names : List Bytes) (hnames : defaultName ∉ names)
    (s : AclState) (deleted : Nat) (hdefault : (s.users.lookup defaultName).isSome)
    (hnamed : ∀ c ∈ s.clients, ∀ name, c.user = .named name → (s.users.lookup name).isSome) :
    (names.foldl (delUser caller) (s, deleted)).1 =
    { users := names.foldl (fun users n => users.erase n) s.users
      clients := sweep (userGone (names.foldl (fun users n => users.erase n) s.users))
        (fun c => some (closeDeleted caller c)) s.clients } := by
  induction names generalizing s deleted with
  | nil =>
    have hkeep : sweep (userGone s.users) (fun c => some (closeDeleted caller c))
      s.clients = s.clients := by
      apply sweep_eq_self
      intro c hc
      unfold userGone
      cases huser : c.user with
      | null => rfl
      | freed => rfl
      | named name => simp [hnamed c hc name huser]
    simp [hkeep]
  | cons username names ih =>
    simp only [mem_cons, not_or] at hnames
    simp only [foldl_cons]
    cases hu : s.users.lookup username with
    | none =>
      have hstep : delUser caller (s, deleted) username = (s, deleted) := by simp [delUser, hu]
      rw [hstep, erase_eq_self hu]
      exact ih hnames.2 s deleted hdefault hnamed
    | some u =>
      have hstep : delUser caller (s, deleted) username =
        ({ users := s.users.erase username
           clients := aclFreeUserAndKillClients caller username s.clients },
          deleted + 1) := by
        simp [delUser, hu]
      have hdefault' : ((s.users.erase username).lookup defaultName).isSome := by
        rw [lookup_erase_eq, if_neg hnames.1]
        exact hdefault
      rw [hstep, ih hnames.2 _ _ hdefault']
      · -- a client closed now belongs to the default user from then on
        congr 1
        simp only [aclFreeUserAndKillClients, sweep, filterMap_map]
        apply filterMap_congr
        intro c _
        by_cases huser : c.user = .named username
        · have hgone : userGone
            (names.foldl (fun users n => users.erase n) (s.users.erase username))
            c := by
            simp [userGone, huser, lookup_foldl_erase]
          have hdefault'' : ((names.foldl (fun users n => users.erase n)
            (s.users.erase username)).lookup defaultName).isSome := by
            rw [lookup_foldl_erase, if_neg hnames.2]
            exact hdefault'
          simp [huser, hgone, userGone_closeDeleted hdefault'']
        · simp [huser]
      · intro c hc name huser
        simp only [aclFreeUserAndKillClients, mem_map] at hc
        obtain ⟨c0, hc0, rfl⟩ := hc
        split at huser
        · rw [closeDeleted_user] at huser
          rw [← UserRef.named.inj huser]
          exact hdefault'
        next hother =>
          have hne : name ≠ username := fun h => hother (h ▸ huser)
          rw [lookup_erase_eq, if_neg hne]
          exact hnamed c0 hc0 name huser

/-- The name and the rules in a line that gets as far as creating its user. -/
def userLine (text : Bytes) : Option (Bytes × List Bytes) :=
  match sdssplitlen (sdstrim text [32, 9, 13, 10]) 32 with
  | keyword :: name :: ops =>
    if strEq keyword (ofString "user") && !aclStringHasSpaces name then some (name, ops)
    else none
  | _ => none

/-- A bracket that stays open after at least one complete rule. -/
def opensAfterRule (ops : List Bytes) : Bool :=
  match ops.foldl mergeStep ([], none) with
  | (merged, some _) => !merged.isEmpty
  | _ => false

lemma loadUser_none_iff (env : AclEnv) (file : AclFile) (linenum : Nat)
    (st : LoadState) (name : Bytes) (ops : List Bytes) :
    loadUser env file linenum st name ops = none ↔ opensAfterRule ops := by
  unfold loadUser opensAfterRule
  split
  next heq => simp [heq]
  next merged _ heq => cases merged <;> simp [heq]

lemma loadUser_users {linenum : Nat} {st st' : LoadState} {ops : List Bytes}
    (h : loadUser env file linenum st name ops = some st') :
    ∃ u, st'.users = st.users.insert name u := by
  unfold loadUser at h
  split at h
  · exact ⟨_, congrArg LoadState.users (Option.some.inj h).symm⟩
  · split at h
    · exact ⟨_, congrArg LoadState.users (Option.some.inj h).symm⟩
    · cases h

section

variable (env : AclEnv) (file : AclFile) (linenum : Nat) (st : LoadState) (text : Bytes)

/-- What a line does to the table: nothing, or one new user. -/
lemma loadLine_cases : (∃ name ops, userLine text = some (name, ops) ∧ st.users.lookup name = none ∧
        loadLine env file linenum st text = loadUser env file linenum st name ops) ∨
      ((∀ name ops, userLine text = some (name, ops) → (st.users.lookup name).isSome) ∧
        ∃ st', loadLine env file linenum st text = some st' ∧ st'.users = st.users) := by
  simp only [loadLine, userLine]
  cases hempty : (sdstrim text [32, 9, 13, 10]).isEmpty with
  | true =>
    rw [List.isEmpty_iff] at hempty
    right
    rw [hempty]
    exact ⟨by simp [sdssplitlen], st, rfl, rfl⟩
  | false =>
    rcases sdssplitlen (sdstrim text [32, 9, 13, 10]) 32 with _ | ⟨keyword, _ | ⟨name, ops⟩⟩
    · exact .inr ⟨by simp, _, rfl, rfl⟩
    · exact .inr ⟨by simp, _, rfl, rfl⟩
    dsimp only
    cases hkeyword : strEq keyword (ofString "user") with
    | false => exact .inr ⟨by simp, _, rfl, rfl⟩
    | true =>
      cases hspaces : aclStringHasSpaces name with
      | true => exact .inr ⟨by simp, _, rfl, rfl⟩
      | false =>
        cases hdup : st.users.lookup name with
        | none => exact .inl ⟨name, ops, by simp, hdup, by simp⟩
        | some u =>
          refine .inr ⟨?_, _, rfl, rfl⟩
          intro name' ops' heq
          simp only [Bool.not_false, Bool.and_true, if_true,
            Option.some.injEq, Prod.mk.injEq] at heq
          rw [← heq.1, hdup]
          rfl

lemma loadLine_none_iff : loadLine env file linenum st text = none ↔
    ∃ name ops, userLine text = some (name, ops) ∧ st.users.lookup name = none ∧
      opensAfterRule ops := by
  rcases loadLine_cases env file linenum st text with
    ⟨name, ops, hline, hnew, heq⟩ | ⟨hdup, st', heq, _⟩
  · rw [heq, loadUser_none_iff]
    constructor
    · intro hopen
      exact ⟨name, ops, hline, hnew, hopen⟩
    rintro ⟨name', ops', hline', _, hopen⟩
    rw [hline, Option.some.injEq, Prod.mk.injEq] at hline'
    rw [hline'.2]
    exact hopen
  rw [heq]
  constructor
  · intro h
    cases h
  rintro ⟨name, ops, hline, hnew, _⟩
  have hsome := hdup name ops hline
  rw [hnew] at hsome
  cases hsome

end

/-- A name is still free after a line if the line does not use it. -/
lemma loadLine_lookup_none_iff {linenum : Nat} {st st' : LoadState} {text : Bytes}
    (h : loadLine env file linenum st text = some st') (name : Bytes) :
    st'.users.lookup name = none ↔
    st.users.lookup name = none ∧ ∀ ops, userLine text ≠ some (name, ops) := by
  rcases loadLine_cases env file linenum st text with
    ⟨name', ops', hline, _, heq⟩ | ⟨hdup, st'', heq, husers⟩
  · rw [heq] at h
    obtain ⟨u, hu⟩ := loadUser_users h
    rw [hu, hline]
    by_cases hname : name = name'
    · simp [hname]
    have hother : ∀ ops, some (name', ops') ≠ some (name, ops) := by
      intro ops heq'
      rw [Option.some.injEq, Prod.mk.injEq] at heq'
      exact hname heq'.1.symm
    simp [hname, hother]
  rw [heq, Option.some.injEq] at h
  rw [← h, husers]
  constructor
  · intro hnone
    refine ⟨hnone, ?_⟩
    intro ops hline
    have hsome := hdup name ops hline
    rw [hnone] at hsome
    cases hsome
  · exact And.left

/-- The loop dies at a bracket of that kind in a line with a new name. -/
lemma loadLines_none_iff (env : AclEnv) (file : AclFile) (lines : List Bytes) :
    ∀ (linenum : Nat) (st : LoadState),
    loadLines env file linenum st lines = none ↔
      ∃ before text after name ops, lines = before ++ text :: after ∧
        userLine text = some (name, ops) ∧ st.users.lookup name = none ∧
        (∀ text' ∈ before, ∀ ops', userLine text' ≠ some (name, ops')) ∧
        opensAfterRule ops := by
  induction lines with
  | nil => simp [loadLines]
  | cons text rest ih =>
    intro linenum st
    rw [loadLines]
    cases hstep : loadLine env file linenum st text with
    | none =>
      obtain ⟨name, ops, hline, hnew, hopen⟩ :=
        (loadLine_none_iff env file linenum st text).mp hstep
      simp only [Option.bind_none, true_iff]
      exact ⟨[], text, rest, name, ops, rfl, hline, hnew, by simp, hopen⟩
    | some st' =>
      have hfree := loadLine_lookup_none_iff hstep
      rw [Option.bind_some, ih (linenum + 1) st']
      constructor
      · rintro ⟨before, text', after, name, ops, rfl, hline, hnew, hbefore, hopen⟩
        rw [hfree] at hnew
        refine ⟨text :: before, text', after, name, ops, rfl, hline, hnew.1, ?_, hopen⟩
        intro text'' hmem
        rcases mem_cons.mp hmem with rfl | hmem
        · exact hnew.2
        · exact hbefore text'' hmem
      rintro ⟨before, text', after, name, ops, hsplit, hline, hnew, hbefore, hopen⟩
      cases before with
      | nil =>
        -- the line at hand would have died itself
        rw [nil_append, cons.injEq] at hsplit
        have hdies := (loadLine_none_iff env file linenum st text).mpr
          ⟨name, ops, hsplit.1 ▸ hline, hnew, hopen⟩
        rw [hstep] at hdies
        cases hdies
      | cons text'' before =>
        rw [cons_append, cons.injEq] at hsplit
        have hhead := hbefore text'' (by simp)
        rw [← hsplit.1] at hhead
        exact ⟨before, text', after, name, ops, hsplit.2, hline, (hfree name).mpr ⟨hnew, hhead⟩,
          fun t ht => hbefore t (by simp [ht]), hopen⟩

/-- `ACL LOAD` accesses an array that is not there: a line with a new user name
leaves a bracket open after a complete rule. -/
def DiesOn (file : AclFile) : Prop :=
  file.name ≠ [] ∧ ∃ content, file.content = .ok content ∧
    ∃ before text after name ops, fileLines content = before ++ text :: after ∧
      userLine text = some (name, ops) ∧
      (∀ text' ∈ before, ∀ ops', userLine text' ≠ some (name, ops')) ∧
      opensAfterRule ops = true

lemma aclLoadUsers_none_iff (env : AclEnv) (file : AclFile) (hname : file.name ≠ []) :
    aclLoadUsers env file = none ↔ DiesOn file := by
  unfold aclLoadUsers DiesOn
  cases hcontent : file.content with
  | error err =>
    constructor
    · intro h
      cases h
    · rintro ⟨_, content, h, _⟩
      cases h
  | ok content =>
    rw [Option.map_eq_none_iff, loadLines_none_iff]
    constructor
    · rintro ⟨before, text, after, name, ops, hsplit, hline, _, hbefore, hopen⟩
      exact ⟨hname, content, rfl, before, text, after, name, ops, hsplit, hline, hbefore, hopen⟩
    · rintro ⟨_, _, hok, before, text, after, name, ops, hsplit, hline, hbefore, hopen⟩
      cases hok
      exact ⟨before, text, after, name, ops, hsplit, hline, rfl, hbefore, hopen⟩

/-! ## The command as a whole -/

/-- The rules a command installs, or its error; `none` if it dies while
reading them. -/
def newUsers (env : AclEnv) (s : AclState) : AclOp → Option (Except Bytes (Dict Bytes User))
  | .setuser username argv =>
    if aclStringHasSpaces username then some (.error usernameError)
    else
      some ((stageUser env ((s.users.lookup username).getD (aclCreateUser env)) argv).map
        fun tempu => s.users.insert username tempu)
  | .deluser usernames =>
    if usernames.any fun username => strEq username defaultName then
      some (.error defaultUserError)
    else some (.ok (usernames.foldl (fun users n => users.erase n) s.users))
  | .load file =>
    if file.name.isEmpty then some (.error noAclFileError)
    else aclLoadUsers env file

/-- The clients a command leaves behind. -/
def clientsAfter (s : AclState) (caller : Nat) (op : AclOp) (users : Dict Bytes User) :
    List Client :=
  sweep (disconnects s op users) (closeBy caller op) s.clients

lemma freeClient_spec (h : freeClient c = some c') : c.isProtected ∧ c' = freeClientAsync c := by
  unfold freeClient at h
  split at h
  next hprot => exact ⟨hprot, (Option.some.inj h).symm⟩
  · cases h

/-- A client that is left behind keeps its number and is on its way out. -/
lemma closeBy_spec (h : closeBy caller op c = some c') : c'.id = c.id ∧ beingClosed c' := by
  cases op with
  | setuser username argv =>
    rw [(freeClient_spec h).2]
    exact ⟨rfl, rfl⟩
  | deluser usernames =>
    rw [← Option.some.inj h]
    exact ⟨closeDeleted_id caller c, beingClosed_closeDeleted caller c⟩
  | load file =>
    simp only [closeBy] at h
    split at h
    · obtain ⟨c1, hfree, rfl⟩ := Option.map_eq_some_iff.mp h
      rw [(freeClient_spec hfree).2]
      split <;> exact ⟨rfl, rfl⟩
    · cases h

/-- A disconnected client is gone at once unless it is protected or its user
was deleted. -/
lemma closeBy_eq_none_iff (hdisc : disconnects s op users c) (caller : Nat) :
    closeBy caller op c = none ↔ c.isProtected = false ∧ ∀ names, op ≠ .deluser names := by
  cases op with
  | setuser username argv => simp [closeBy, freeClient]
  | deluser usernames => simp [closeBy]
  | load file =>
    unfold disconnects at hdisc
    split at hdisc
    next huser => simp [closeBy, huser, freeClientOf, freeClient]
    · cases hdisc

section

variable (hwf : Wf s) (caller : Nat) (op : AclOp) (users : Dict Bytes User)

include hwf

lemma callerFreed_iff : (s.clients.any (fun c => c.id == caller) &&
      !(clientsAfter s caller op users).any (fun c => c.id == caller)) ↔
    ∃ c ∈ s.clients, c.id = caller ∧ disconnects s op users c ∧ closeBy caller op c = none := by
  have hkey := fun c (hc : c ∈ s.clients) => key_notMem_sweep_iff (disconnects s op users)
    (closeBy caller op) hwf.ids_nodup (fun _ _ h => (closeBy_spec h).1) hc
  simp only [Bool.and_eq_true, any_eq_true, beq_iff_eq, Bool.not_eq_true', any_eq_false]
  constructor
  · rintro ⟨⟨c, hc, rfl⟩, hgone⟩
    exact ⟨c, hc, rfl, (hkey c hc).mp hgone⟩
  · rintro ⟨c, hc, rfl, hdisc, hnone⟩
    exact ⟨⟨c, hc, rfl⟩, (hkey c hc).mpr ⟨hdisc, hnone⟩⟩

lemma callerStays_iff : ¬ (s.clients.any (fun c => c.id == caller) &&
      !(clientsAfter s caller op users).any (fun c => c.id == caller)) ↔
    ∀ c ∈ s.clients, c.id = caller → disconnects s op users c →
      c.isProtected ∨ ∃ names, op = .deluser names := by
  rw [callerFreed_iff hwf]
  constructor
  · intro h c hc hid hdisc
    by_contra hstay
    rw [not_or, Bool.not_eq_true, not_exists] at hstay
    exact h ⟨c, hc, hid, hdisc, (closeBy_eq_none_iff hdisc caller).mpr hstay⟩
  rintro h ⟨c, hc, hid, hdisc, hnone⟩
  obtain ⟨hprot, hop⟩ := (closeBy_eq_none_iff hdisc caller).mp hnone
  rcases h c hc hid hdisc with hp | ⟨names, hdel⟩
  · simp [hp] at hprot
  · exact hop names hdel

end

lemma newUsers_none_iff (env : AclEnv) (s : AclState) (op : AclOp) :
    newUsers env s op = none ↔ ∃ file, op = .load file ∧ DiesOn file := by
  constructor
  · intro h
    cases op with
    | setuser username argv =>
      rw [newUsers] at h
      split at h <;> cases h
    | deluser usernames =>
      rw [newUsers] at h
      split at h <;> cases h
    | load file =>
      rw [newUsers] at h
      split at h
      · cases h
      next hname =>
        rw [List.isEmpty_iff] at hname
        exact ⟨file, rfl, (aclLoadUsers_none_iff env file hname).mp h⟩
  · rintro ⟨file, rfl, hdies⟩
    rw [newUsers, if_neg (by simpa using hdies.1)]
    exact (aclLoadUsers_none_iff env file hdies.1).mpr hdies

/-- A successful `SETUSER` installs the staged user. -/
lemma newUsers_setuser {username : Bytes} {argv : List Bytes}
    (h : newUsers env s (.setuser username argv) = some (.ok users)) :
    aclStringHasSpaces username = false ∧ ∃ tempu,
    stageUser env ((s.users.lookup username).getD (aclCreateUser env)) argv =
      .ok tempu ∧ users = s.users.insert username tempu := by
  rw [newUsers] at h
  split at h
  · cases h
  next hspaces =>
    refine ⟨by simpa using hspaces, ?_⟩
    cases hstage : stageUser env ((s.users.lookup username).getD (aclCreateUser env)) argv with
    | error err =>
      rw [hstage] at h
      cases h
    | ok tempu =>
      rw [hstage] at h
      exact ⟨tempu, rfl, (ok.inj (Option.some.inj h)).symm⟩

/-- A successful `DELUSER` does not name the default user. -/
lemma newUsers_deluser {usernames : List Bytes}
    (h : newUsers env s (.deluser usernames) = some (.ok users)) :
    (usernames.any fun username => strEq username defaultName) = false ∧ defaultName ∉ usernames ∧
    users = usernames.foldl (fun users n => users.erase n) s.users := by
  rw [newUsers] at h
  split at h
  · cases h
  next hdefault =>
    refine ⟨by simpa using hdefault, ?_, (ok.inj (Option.some.inj h)).symm⟩
    intro hmem
    apply hdefault
    rw [any_eq_true]
    exact ⟨defaultName, hmem, by simp [strEq]⟩

lemma aclCommand_error {text : Bytes} (h : newUsers env s op = some (.error text)) (caller : Nat) :
    aclCommand env s caller op = .error text s := by
  cases op with
  | setuser username argv =>
    rw [newUsers] at h
    rw [aclCommand]
    split_ifs at h ⊢
    · cases h
      rfl
    · simp only [aclStringSetUser]
      cases hstage : stageUser env ((s.users.lookup username).getD (aclCreateUser env)) argv with
      | ok tempu =>
        rw [hstage] at h
        cases h
      | error err =>
        rw [hstage] at h
        cases h
        rfl
  | deluser usernames =>
    rw [newUsers] at h
    rw [aclCommand]
    split_ifs at h ⊢
    all_goals cases h
    rfl
  | load file =>
    rw [newUsers] at h
    rw [aclCommand]
    split_ifs at h ⊢
    · rw [Option.some.injEq, error.injEq] at h
      rw [h]
    · simp [aclLoadFromFile, h]

/-- A file that cannot be read to the end, and a client whose user has been
freed, both end `ACL LOAD`. -/
lemma aclCommand_load_fault (h : newUsers env s (.load file) = none ∨
    (∃ users, newUsers env s (.load file) = some (.ok users)) ∧
      ∃ c ∈ s.clients, c.user = .freed) (caller : Nat) :
    aclCommand env s caller (.load file) = .fault := by
  rw [newUsers] at h
  rw [aclCommand]
  by_cases hname : file.name.isEmpty
  · rw [if_pos hname] at h
    rcases h with h | ⟨⟨users, h⟩, _⟩
    · cases h
    · cases h
  rw [if_neg hname] at h
  rw [if_neg hname]
  rcases h with h | ⟨⟨users, h⟩, c, hc, huser⟩
  · simp [aclLoadFromFile, h]
  · simp [aclLoadFromFile, h, loadClients_freed hc huser]

/-- Success, once no freed user is in the way: the rules are installed and the
clients are swept, and the command survives if its own client does. -/
lemma aclCommand_ok (hwf : Wf s) (h : newUsers env s op = some (.ok users))
    (hfreed : ∀ file, op = .load file → ∀ c ∈ s.clients, c.user ≠ .freed) (caller : Nat) :
    ∃ reply, aclCommand env s caller op =
    if s.clients.any (fun c => c.id == caller) &&
        !(clientsAfter s caller op users).any (fun c => c.id == caller) then .fault
    else .done reply { users := users, clients := clientsAfter s caller op users } := by
  cases op with
  | setuser username argv =>
    obtain ⟨hspaces, tempu, hstage, rfl⟩ := newUsers_setuser h
    refine ⟨.ok, ?_⟩
    rw [aclCommand, hspaces, aclStringSetUser_ok hwf hstage caller]
    rfl
  | deluser usernames =>
    obtain ⟨hdefault, hnames, rfl⟩ := newUsers_deluser h
    have hfold := foldl_delUser caller usernames hnames s 0 hwf.default_mem hwf.named_mem
    refine ⟨.integer (usernames.foldl (delUser caller) (s, 0)).2, ?_⟩
    have hstays : ¬ (s.clients.any (fun c => c.id == caller) &&
      !(clientsAfter s caller (.deluser usernames)
        (usernames.foldl (fun users n => users.erase n) s.users)).any
          (fun c => c.id == caller)) := by
      rw [callerStays_iff hwf]
      exact fun _ _ _ _ => .inr ⟨usernames, rfl⟩
    rw [if_neg hstays, aclCommand, hdefault, clientsAfter, disconnects_deluser]
    simp only [hfold]
    rfl
  | load file =>
    refine ⟨.ok, ?_⟩
    rw [newUsers] at h
    rw [aclCommand]
    split at h
    · cases h
    next hname =>
      rw [if_neg hname, aclLoadFromFile_ok h (hfreed file rfl) caller]
      rfl

/-! ## When the promise is kept -/

/-- What has to be true of the state and the command.  The file can be read to
the end and no freed user is left; the client that runs the command is not
itself disconnected; and the clients the new rules deny something are among
those the command disconnects. -/
structure Revocable (env : AclEnv) (s : AclState) (caller : Nat) (op : AclOp) : Prop where
  file_ok : ∀ file, op = .load file → ¬ DiesOn file
  no_freed : ∀ file users, op = .load file → newUsers env s op = some (.ok users) →
    ∀ c ∈ s.clients, c.user ≠ .freed
  caller_stays : ∀ users, newUsers env s op = some (.ok users) →
    ∀ c ∈ s.clients, c.id = caller → disconnects s op users c = true →
      c.isProtected = true ∨ ∃ names, op = .deluser names
  denied_closed : ∀ users, newUsers env s op = some (.ok users) →
    ∀ c ∈ s.clients, beingClosed c = false → permitted users c = false →
      disconnects s op users c = true

/-- The two halves of the promise after success.  The second one always
holds. -/
lemma swept_iff (s : AclState) (caller : Nat) (op : AclOp) (users : Dict Bytes User) :
    ((∀ c ∈ clientsAfter s caller op users, beingClosed c = false → permitted users c) ∧
      ∀ c ∈ s.clients, permitted users c → ∃ c' ∈ clientsAfter s caller op users, c'.id = c.id ∧
          (beingClosed c = false → beingClosed c' = false)) ↔
    ∀ c ∈ s.clients, beingClosed c = false → permitted users c = false →
      disconnects s op users c := by
  have hopen := forall_open_sweep_iff (disconnects s op users) (closeBy caller op)
    s.clients (fun c => beingClosed c = false) (fun c => permitted users c)
    fun c c' hclose => by
      rw [(closeBy_spec hclose).2]
      exact Bool.noConfusion
  simp only [Bool.not_eq_true] at hopen
  rw [clientsAfter, hopen]
  constructor
  · exact And.left
  intro h
  refine ⟨h, ?_⟩
  intro c hc hperm
  have hkept : c ∈ sweep (disconnects s op users) (closeBy caller op) s.clients :=
    mem_sweep.mpr (.inl ⟨hc, disconnects_of_permitted hperm⟩)
  exact ⟨c, hkept, rfl, id⟩

/-- The condition for a command that gets as far as installing its rules. -/
lemma channelsRevoked_of_ok_iff (hwf : Wf s) (hnew : newUsers env s op = some (.ok users))
    (hfreed : ∀ file, op = .load file → ∀ c ∈ s.clients, c.user ≠ .freed) :
    ChannelsRevoked env s caller op ↔ (∀ c ∈ s.clients, c.id = caller → disconnects s op users c →
      c.isProtected ∨ ∃ names, op = .deluser names) ∧
    ∀ c ∈ s.clients, beingClosed c = false → permitted users c = false →
      disconnects s op users c := by
  obtain ⟨reply, hcmd⟩ := aclCommand_ok hwf hnew hfreed caller
  rw [ChannelsRevoked, hcmd]
  have hcaller := callerStays_iff hwf caller op users
  split_ifs with hgone
  · exact iff_of_false id fun h => hcaller.mpr h.1 hgone
  show (_ ∧ _) ↔ _
  rw [swept_iff]
  constructor
  · intro hdenied
    exact ⟨hcaller.mp hgone, hdenied⟩
  · exact And.right

/-- A command keeps the promise exactly under the condition above. -/
theorem channels_revoked_iff (env : AclEnv) (s : AclServer) (caller : Nat) (op : AclOp) :
    ChannelsRevoked env s.toAclState caller op ↔ Revocable env s.toAclState caller op := by
  cases hnew : newUsers env s.toAclState op with
  | none =>
    obtain ⟨file, rfl, hdies⟩ := (newUsers_none_iff env s.toAclState op).mp hnew
    rw [ChannelsRevoked, aclCommand_load_fault (.inl hnew)]
    constructor
    · exact False.elim
    · intro h
      exact h.file_ok file rfl hdies
  | some result =>
    have hfile : ∀ file, op = .load file → ¬ DiesOn file := by
      intro file hop hdies
      rw [(newUsers_none_iff env s.toAclState op).mpr ⟨file, hop, hdies⟩] at hnew
      cases hnew
    cases result with
    | error text =>
      have hno : ∀ users, newUsers env s.toAclState op ≠ some (.ok users) := by
        intro users hok
        rw [hnew] at hok
        cases hok
      rw [ChannelsRevoked, aclCommand_error hnew]
      constructor
      · intro _
        exact ⟨hfile, fun _ users _ hok => absurd hok (hno users),
          fun users hok => absurd hok (hno users),
          fun users hok => absurd hok (hno users)⟩
      · intro _
        exact ⟨rfl, rfl⟩
    | ok users =>
      have huniq : ∀ users', newUsers env s.toAclState op = some (.ok users') → users' = users := by
        intro users' hok
        rw [hnew] at hok
        exact (ok.inj (Option.some.inj hok)).symm
      by_cases hfreed : ∀ file, op = .load file → ∀ c ∈ s.clients, c.user ≠ .freed
      · rw [channelsRevoked_of_ok_iff s.wf hnew hfreed]
        constructor
        · rintro ⟨hstays, hdenied⟩
          exact ⟨hfile, fun file _ hop _ => hfreed file hop,
            fun users' hok => huniq users' hok ▸ hstays,
            fun users' hok => huniq users' hok ▸ hdenied⟩
        · intro h
          exact ⟨h.caller_stays users hnew, h.denied_closed users hnew⟩
      push Not at hfreed
      obtain ⟨file, rfl, c, hc, huser⟩ := hfreed
      rw [ChannelsRevoked, aclCommand_load_fault (.inr ⟨⟨users, hnew⟩, c, hc, huser⟩)]
      constructor
      · exact False.elim
      · intro h
        exact h.no_freed file users rfl hnew c hc huser

private def plainEnv : AclEnv where
  table :=
    { commands := [], categories := []
      name_ok := by simp
      sub_ok := by simp
      names_nodup := by simp
      sub_names_nodup := by simp
      ids_nodup := by simp
      ids_lt := by simp
      category_ok := by simp }
  pubsubDefault := false
  hashPassword _ := replicate 64 97
  hashPassword_ok _ := by decide +kernel

/-- Client 1 runs the commands, client 2 reads `news`; both are the default
user. -/
private def newsServer : AclServer where
  users := (∅ : Dict Bytes User).insert defaultName (aclCreateDefaultUser plainEnv)
  clients :=
    [{ id := 1, user := .named defaultName, pubsub_of_subscribed := by simp },
      { id := 2, user := .named defaultName, pubsub := true
        channels := [ofString "news"], pubsub_of_subscribed := by simp }]
  wf := by
    constructor
    · rfl
    · simp
    · intro c hc name huser
      have hname : name = defaultName := by
        simp only [mem_cons, not_mem_nil, or_false] at hc
        rcases hc with rfl | rfl <;> exact (UserRef.named.inj huser).symm
      rw [hname]
      rfl
    · intro c hc huser
      simp only [mem_cons, not_mem_nil, or_false] at hc
      rcases hc with rfl | rfl <;> cases huser

private def usersFile (text : String) : AclFile where
  name := ofString "users.acl"
  content := .ok (ofString text)

/-- Loading rules without channels leaves the reader of `news` connected;
taking the channels away with `SETUSER` from the reader's own connection uses
the freed client; and an open bracket in the file is an access through NULL. -/
theorem revocation_fails : ¬ ChannelsRevoked plainEnv newsServer.toAclState 1
        (.load (usersFile "user default on nopass ~* +@all resetchannels\n")) ∧
      ¬ ChannelsRevoked plainEnv newsServer.toAclState 2
        (.setuser defaultName [ofString "resetchannels"]) ∧
      ¬ ChannelsRevoked plainEnv newsServer.toAclState 1
        (.load (usersFile "user default on (~a\n")) := by
  refine ⟨?_, ?_, ?_⟩
  · decide +kernel
  · decide +kernel
  · decide +kernel

lemma newUsers_default_mem (hwf : Wf s) (h : newUsers env s op = some (.ok users)) :
    (users.lookup defaultName).isSome := by
  cases op with
  | setuser username argv =>
    obtain ⟨_, tempu, _, rfl⟩ := newUsers_setuser h
    rw [lookup_insert_eq]
    split
    · rfl
    · exact hwf.default_mem
  | deluser usernames =>
    obtain ⟨_, hnames, rfl⟩ := newUsers_deluser h
    rw [lookup_foldl_erase, if_neg hnames]
    exact hwf.default_mem
  | load file =>
    rw [newUsers] at h
    split at h
    · cases h
    unfold aclLoadUsers at h
    split at h
    · cases h
    obtain ⟨st, _, hst⟩ := Option.map_eq_some_iff.mp h
    split at hst
    · cases hst
      rfl
    · cases hst

/-- A client that was disconnected but is still there has an existing user, or
waits to be freed after its user. -/
lemma closeBy_user (hwf : Wf s) (hnew : newUsers env s op = some (.ok users)) (hc : c ∈ s.clients)
    (hdisc : disconnects s op users c) (h : closeBy caller op c = some c') :
    (∀ name, c'.user = .named name → (users.lookup name).isSome) ∧
    (c'.user = .freed → c'.closeAsap) := by
  have hdefault := newUsers_default_mem hwf hnew
  cases op with
  | setuser username argv =>
    obtain ⟨_, tempu, _, rfl⟩ := newUsers_setuser hnew
    rw [(freeClient_spec h).2]
    refine ⟨?_, fun _ => rfl⟩
    intro name huser
    rw [lookup_insert_eq]
    split
    · rfl
    · exact hwf.named_mem c hc name huser
  | deluser usernames =>
    rw [← Option.some.inj h, closeDeleted_user]
    refine ⟨?_, UserRef.noConfusion⟩
    intro name huser
    rw [← UserRef.named.inj huser]
    exact hdefault
  | load file =>
    unfold disconnects at hdisc
    split at hdisc
    next name huser =>
      simp only [closeBy, huser] at h
      obtain ⟨c1, hfree, rfl⟩ := Option.map_eq_some_iff.mp h
      rw [(freeClient_spec hfree).2]
      split
      next hname =>
        refine ⟨?_, fun _ => rfl⟩
        intro name' huser'
        have hsame : c.user = .named name' := huser'
        rw [huser, hname] at hsame
        rw [← UserRef.named.inj hsame]
        exact hdefault
      · exact ⟨fun _ huser' => UserRef.noConfusion huser', fun _ => rfl⟩
    · cases hdisc

lemma wf_clientsAfter (hwf : Wf s) (hnew : newUsers env s op = some (.ok users))
    (caller : Nat) : Wf { users := users, clients := clientsAfter s caller op users } := by
  constructor
  · exact newUsers_default_mem hwf hnew
  · exact nodup_map_sweep hwf.ids_nodup fun _ _ h => (closeBy_spec h).1
  · intro c' hc' name huser
    rcases mem_sweep.mp hc' with ⟨_, hdisc⟩ | ⟨c, hc, hdisc, hclose⟩
    · simp only [disconnects, huser, Bool.or_eq_false_iff, Bool.not_eq_false'] at hdisc
      exact hdisc.1
    · exact (closeBy_user hwf hnew hc hdisc hclose).1 name huser
  · intro c' hc' huser
    rcases mem_sweep.mp hc' with ⟨hc, _⟩ | ⟨c, hc, hdisc, hclose⟩
    · exact hwf.freed_closing c' hc huser
    · exact (closeBy_user hwf hnew hc hdisc hclose).2 huser

/-- Every command that succeeds leaves a well-formed state behind. -/
theorem wf_aclCommand {reply : Reply} {s' : AclState} (hwf : Wf s)
    (h : aclCommand env s caller op = .done reply s') : Wf s' := by
  cases hnew : newUsers env s op with
  | none =>
    obtain ⟨file, rfl, _⟩ := (newUsers_none_iff env s op).mp hnew
    rw [aclCommand_load_fault (.inl hnew)] at h
    cases h
  | some result =>
    cases result with
    | error text =>
      rw [aclCommand_error hnew] at h
      cases h
    | ok users =>
      by_cases hfreed : ∀ file, op = .load file → ∀ c ∈ s.clients, c.user ≠ .freed
      · obtain ⟨reply, hcmd⟩ := aclCommand_ok hwf hnew hfreed caller
        rw [hcmd] at h
        split_ifs at h
        cases h
        exact wf_clientsAfter hwf hnew caller
      · push Not at hfreed
        obtain ⟨file, rfl, c, hc, huser⟩ := hfreed
        rw [aclCommand_load_fault (.inr ⟨⟨users, hnew⟩, c, hc, huser⟩)] at h
        cases h

/-- The default user loses its channels, and with them the reader of `news`. -/
theorem wf_aclCommand_setuser : ∃ reply s', aclCommand plainEnv newsServer.toAclState 1
      (.setuser defaultName [ofString "resetchannels"]) = .done reply s' ∧
    (newsServer.users.lookup defaultName).map hasChannels = some true ∧
    (s'.users.lookup defaultName).map hasChannels = some false ∧
    s'.clients.map Client.id = [1] ∧ Wf s' := by
  have h : aclCommand plainEnv newsServer.toAclState 1
      (.setuser defaultName [ofString "resetchannels"]) = .done _ _ := rfl
  exact ⟨_, _, h, by decide +kernel, by decide +kernel, by decide +kernel,
    wf_aclCommand newsServer.wf h⟩

/-- The client that runs a command outlives it, every other client is visited
once, and those that are left have a user.  A file that ends the server does
so before any client is looked at. -/
def ClientsKept (env : AclEnv) (s : AclState) (caller : Nat) (op : AclOp) : Prop :=
  match aclCommand env s caller op with
  | .fault => newUsers env s op = none
  | .error _ s' => s' = s
  | .done _ s' =>
    (∀ c ∈ s.clients, c.id = caller → ∃ c' ∈ s'.clients, c'.id = caller) ∧
      s'.clients = clientsAfter s caller op s'.users ∧
      ∀ c ∈ s'.clients, c.user ≠ .freed ∧
        ∀ name, c.user = .named name → (s'.users.lookup name).isSome = true

/-- `ACL LOAD` leaves a protected client with its old user, which is freed
unless it is the default one. -/
lemma closeBy_freed_iff (hdisc : disconnects s op users c) (caller : Nat) :
    (∀ c', closeBy caller op c = some c' → c'.user ≠ .freed) ↔
    ((∃ file, op = .load file) → c.isProtected → c.user = .named defaultName) := by
  unfold disconnects at hdisc
  split at hdisc
  next name huser =>
    cases op with
    | setuser username argv => simp [closeBy, freeClient, freeClientAsync, huser]
    | deluser usernames => simp [closeBy, closeDeleted_user]
    | load file =>
      by_cases hname : name = defaultName
      · simp [closeBy, huser, freeClientOf, freeClient, freeClientAsync, hname]
      · simp [closeBy, huser, freeClientOf, freeClient, hname]
  · cases hdisc

lemma freed_clientsAfter_iff (s : AclState) (caller : Nat) (op : AclOp) (users : Dict Bytes User) :
    (∀ c ∈ clientsAfter s caller op users, c.user ≠ .freed) ↔
    ∀ c ∈ s.clients, c.user ≠ .freed ∧ (disconnects s op users c →
      (∃ file, op = .load file) → c.isProtected → c.user = .named defaultName) := by
  constructor
  · intro h c hc
    constructor
    · intro huser
      exact h c (mem_sweep.mpr (.inl ⟨hc, by rw [disconnects, huser]⟩)) huser
    intro hdisc
    rw [← closeBy_freed_iff hdisc caller]
    intro c' hclose
    exact h c' (mem_sweep.mpr (.inr ⟨c, hc, hdisc, hclose⟩))
  · intro h c' hc'
    rcases mem_sweep.mp hc' with ⟨hc, -⟩ | ⟨c, hc, hdisc, hclose⟩
    · exact (h c' hc).1
    · exact (closeBy_freed_iff hdisc caller).mpr ((h c hc).2 hdisc) c' hclose

/-- A command that is carried out keeps the clients exactly if it does not
disconnect its own client, `ACL LOAD` disconnects no protected client but those
of the default user, and no freed user was left before. -/
theorem clients_kept_iff (env : AclEnv) (s : AclServer) (caller : Nat) (op : AclOp) :
    ClientsKept env s.toAclState caller op ↔
      ∀ users, newUsers env s.toAclState op = some (.ok users) → ∀ c ∈ s.clients,
        (c.user ≠ .freed ∧ (disconnects s.toAclState op users c = true →
          (∃ file, op = .load file) → c.isProtected = true → c.user = .named defaultName)) ∧
        (c.id = caller → disconnects s.toAclState op users c = true →
          c.isProtected = true ∨ ∃ names, op = .deluser names) := by
  unfold ClientsKept
  cases hnew : newUsers env s.toAclState op with
  | none =>
    obtain ⟨file, rfl, -⟩ := (newUsers_none_iff env s.toAclState op).mp hnew
    simp [aclCommand_load_fault (.inl hnew)]
  | some result =>
    cases result with
    | error text => simp [aclCommand_error hnew]
    | ok users =>
      simp only [Option.some.injEq, ok.injEq, forall_eq']
      by_cases hfreed : ∀ file, op = .load file → ∀ c ∈ s.clients, c.user ≠ .freed
      · obtain ⟨reply, hcmd⟩ := aclCommand_ok s.wf hnew hfreed caller
        have hcaller := callerStays_iff s.wf caller op users
        rw [hcmd]
        split_ifs with hgone
        · exact iff_of_false (by simp) fun h => hcaller.mpr (fun c hc => (h c hc).2) hgone
        have hafter := freed_clientsAfter_iff s.toAclState caller op users
        constructor
        · rintro ⟨-, -, huser⟩ c hc
          exact ⟨hafter.mp (fun c' hc' => (huser c' hc').1) c hc, hcaller.mp hgone c hc⟩
        intro h
        refine ⟨?_, rfl, fun c hc => ⟨hafter.mpr (fun c hc => (h c hc).1) c hc,
          (wf_clientsAfter s.wf hnew caller).named_mem c hc⟩⟩
        intro c hc hid
        by_contra hno
        push Not at hno
        exact hgone (by simpa using ⟨⟨c, hc, hid⟩, hno⟩)
      · push Not at hfreed
        obtain ⟨file, rfl, c, hc, huser⟩ := hfreed
        rw [aclCommand_load_fault (.inr ⟨⟨users, hnew⟩, c, hc, huser⟩)]
        exact iff_of_false (by simp) fun h => (h c hc).1.1 huser

/-- The reader of `news` takes its own channels away, and the reply goes to a
client that is gone. -/
theorem executing_subscriber_freed : ¬ ClientsKept plainEnv newsServer.toAclState 2
      (.setuser defaultName [ofString "resetchannels"]) := by
  have hfault : aclCommand plainEnv newsServer.toAclState 2
      (.setuser defaultName [ofString "resetchannels"]) = .fault := by decide +kernel
  rw [ClientsKept, hfault]
  intro h
  obtain ⟨file, hop, -⟩ := (newUsers_none_iff _ _ _).mp h
  cases hop

end Dice.Ports.AclRevocation
