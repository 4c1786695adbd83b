import Dice.Ports.Transactions

/-!
# The registry of watched keys

A client's list is read as a partial function from places (a database and a
key) to the `expired` flag.  `Linked` says that the lists of the databases
agree with the lists of the clients.  Every function that edits them has one
lemma here, which says what it leaves of the flags; the lemmas also show that
no list is ever looked for in vain.
-/

namespace Dice.Ports.WatchedKeys

open List Verified CString Table Index Transactions Function

variable {V : Type}

/-! ## Flags -/

/-- The `expired` flag of the client's watch of a key. -/
def flag (c : Client V) (db : DbId) (key : Bytes) : Option Bool :=
  (c.watchedKey db key).map WatchedKey.expired

/-- The databases and keys of the client's list. -/
def places (c : Client V) : List (DbId × Bytes) := c.watchedKeys.map fun wk => (wk.db, wk.key)

variable {db : DbId} {key : Bytes} {c : Client V} {srv srv' : Server V} {cid : ClientId}

lemma isFor_iff {wk : WatchedKey} : wk.isFor db key ↔ (wk.db, wk.key) = (db, key) := by
  simp [WatchedKey.isFor]

lemma flag_isSome_iff (c : Client V) (db : DbId) (key : Bytes) :
    (flag c db key).isSome ↔ (db, key) ∈ places c := by
  unfold flag Client.watchedKey places
  simp [isFor_iff]

/-- A client has at most one structure for a key, so the flag is that of any
structure in the list. -/
lemma flag_eq_some_iff (hnd : (places c).Nodup) (db : DbId) (key : Bytes)
    (e : Bool) : flag c db key = some e ↔
    ∃ wk ∈ c.watchedKeys, (wk.db, wk.key) = (db, key) ∧ wk.expired = e := by
  unfold flag Client.watchedKey
  rw [Option.map_eq_some_iff]
  constructor
  · rintro ⟨wk, hfind, he⟩
    exact ⟨wk, mem_of_find?_eq_some hfind, isFor_iff.mp (find?_some hfind), he⟩
  rintro ⟨wk, hmem, hplace, he⟩
  cases hfind : c.watchedKeys.find? (WatchedKey.isFor db key) with
  | none =>
    have hno := find?_eq_none.mp hfind wk hmem
    exact absurd (isFor_iff.mpr hplace) hno
  | some wk' =>
    have hplace' := isFor_iff.mp (find?_some hfind)
    have heq := inj_on_of_nodup_map hnd (mem_of_find?_eq_some hfind) hmem
      (hplace'.trans hplace.symm)
    exact ⟨wk', rfl, heq ▸ he⟩

lemma places_setExpired (db : DbId) (key : Bytes) (e : Bool) (c : Client V) :
    places (c.setExpired db key e) = places c := by
  unfold places Client.setExpired
  rw [map_map]
  apply map_congr_left
  intro wk _
  show (fun wk : WatchedKey => (wk.db, wk.key)) (if _ then _ else _) = _
  split <;> rfl

lemma flag_setExpired (db db' : DbId) (key key' : Bytes) (e : Bool) (c : Client V) :
    flag (c.setExpired db key e) db' key' =
    if (db', key') = (db, key) then (flag c db key).map fun _ => e else flag c db' key' := by
  have hkind : (WatchedKey.isFor db' key') ∘ (fun wk : WatchedKey =>
    if wk.isFor db key then { wk with expired := e } else wk) = WatchedKey.isFor db' key' := by
    funext wk
    simp only [comp]
    split <;> rfl
  unfold flag Client.watchedKey Client.setExpired
  rw [find?_map, hkind]
  by_cases hat : (db', key') = (db, key)
  · rw [if_pos hat]
    obtain ⟨rfl, rfl⟩ := Prod.mk.inj hat
    cases hfind : c.watchedKeys.find? (WatchedKey.isFor db' key') with
    | none => rfl
    | some wk => simp [find?_some hfind]
  rw [if_neg hat]
  cases hfind : c.watchedKeys.find? (WatchedKey.isFor db' key') with
  | none => rfl
  | some wk =>
    have hplace := isFor_iff.mp (find?_some hfind)
    have hother : ¬wk.isFor db key := by
      rw [isFor_iff, hplace]
      exact hat
    simp [hother]

lemma places_setDirty (c : Client V) : places c.setDirty = places c := rfl

/-- The lists of the databases and the lists of the clients agree. -/
structure Linked (srv : Server V) : Prop where
  tidy : ∀ db, Tidy (srv.watched db)
  nodup : ∀ cid, (places (srv.clients cid)).Nodup
  mem : ∀ db key cid, cid ∈ members (srv.watched db) key ↔ (db, key) ∈ places (srv.clients cid)

/-- The part of the server that holds the data is unchanged. -/
structure SameData (srv srv' : Server V) : Prop where
  keys : srv'.keys = srv.keys
  now : srv'.now = srv.now
  dbnum : srv'.dbnum = srv.dbnum

lemma SameData.refl (srv : Server V) : SameData srv srv := ⟨rfl, rfl, rfl⟩

lemma SameData.trans {a b c : Server V} (hab : SameData a b) (hbc : SameData b c) : SameData a c :=
  ⟨hbc.keys.trans hab.keys, hbc.now.trans hab.now, hbc.dbnum.trans hab.dbnum⟩

lemma SameData.dbFind (h : SameData srv srv') : srv'.dbFind = srv.dbFind := by
  funext db key
  rw [Server.dbFind, Server.dbFind, h.keys]

lemma SameData.keyIsExpired (h : SameData srv srv') : srv'.keyIsExpired = srv.keyIsExpired := by
  funext db key
  rw [Server.keyIsExpired, Server.keyIsExpired, h.dbFind, h.now]

lemma SameData.holds (h : SameData srv srv') : srv'.holds = srv.holds := by
  funext db key
  rw [Server.holds, Server.holds, h.dbFind, h.keyIsExpired]

lemma Linked.mem_iff_flag (h : Linked srv) (db : DbId) (key : Bytes) (cid : ClientId) :
    cid ∈ members (srv.watched db) key ↔ (flag (srv.clients cid) db key).isSome := by
  rw [h.mem, flag_isSome_iff]

/-- Edits that keep the places of all clients keep the agreement. -/
lemma Linked.of_places (h : Linked srv) (hwatched : srv'.watched = srv.watched)
    (hplaces : ∀ cid, places (srv'.clients cid) = places (srv.clients cid)) : Linked srv' where
  tidy db := hwatched ▸ h.tidy db
  nodup cid := hplaces cid ▸ h.nodup cid
  mem db key cid := by rw [hwatched, hplaces]; exact h.mem db key cid

lemma clients_modify (srv : Server V) (cid cid' : ClientId) (f : Client V → Client V) :
    (srv.modify cid f).clients cid' =
    if cid' = cid then f (srv.clients cid) else srv.clients cid' := by
  by_cases h : cid' = cid
  · subst h
    simp [Server.modify]
  · simp [Server.modify, h]

lemma sameData_modify (srv : Server V) (cid : ClientId) (f : Client V → Client V) :
    SameData srv (srv.modify cid f) := ⟨rfl, rfl, rfl⟩

lemma Linked.modify (h : Linked srv)
    {f : Client V → Client V} (hf : places (f (srv.clients cid)) = places (srv.clients cid)) :
    Linked (srv.modify cid f) := by
  refine Linked.of_places h (show (srv.modify cid f).watched = srv.watched from rfl) ?_
  intro cid'
  rw [clients_modify]
  split
  · next heq => rw [hf, heq]
  · rfl

lemma flag_append (c : Client V) (wk : WatchedKey) (db : DbId) (key : Bytes)
    (hnew : (wk.db, wk.key) ∉ places c) :
    flag { c with watchedKeys := c.watchedKeys ++ [wk] } db key =
    if (db, key) = (wk.db, wk.key) then some wk.expired else flag c db key := by
  unfold flag Client.watchedKey
  rw [find?_append]
  by_cases hat : (db, key) = (wk.db, wk.key)
  · rw [if_pos hat]
    have hnone : c.watchedKeys.find? (WatchedKey.isFor db key) = none := by
      rw [find?_eq_none]
      intro wk' hmem hfor
      apply hnew
      rw [← hat, ← isFor_iff.mp hfor]
      exact mem_map_of_mem hmem
    rw [hnone]
    simp [isFor_iff.mpr hat.symm]
  · rw [if_neg hat]
    have hother : ¬wk.isFor db key := fun hfor => hat (isFor_iff.mp hfor).symm
    simp [hother]

lemma Linked.add (h : Linked srv) {wk : WatchedKey}
    (hnew : (wk.db, wk.key) ∉ places (srv.clients cid)) (hwatched : srv'.watched =
    update srv.watched wk.db (link (srv.watched wk.db) wk.key cid))
    (hclients : srv'.clients = update srv.clients cid
    { srv.clients cid with watchedKeys := (srv.clients cid).watchedKeys ++ [wk] }) :
    Linked srv' := by
  have hin : ∀ cid', places (srv'.clients cid') =
    if cid' = cid then places (srv.clients cid) ++ [(wk.db, wk.key)]
    else places (srv.clients cid') := by
    intro cid'
    rw [hclients, update_apply]
    split
    · simp [places]
    · rfl
  constructor
  · intro db
    rw [hwatched]
    exact tidy_update_link h.tidy (fun hmem => hnew ((h.mem _ _ _).mp hmem)) db
  · intro cid'
    have hold := h.nodup cid'
    rw [hin]
    split
    · next heq =>
      subst heq
      exact nodup_append.mpr ⟨hold, by simp, by
        intro x hx y hy
        rw [mem_singleton] at hy
        exact fun heq => hnew (hy ▸ heq ▸ hx)⟩
    · exact hold
  · intro db key cid'
    have hold := h.mem db key cid'
    rw [hwatched]
    grind

/-- A key the client does not watch yet is watched with the flag it has now. -/
lemma watchForKey_new (hnew : ((srv.clients cid).db, key) ∉ places (srv.clients cid)) :
    SameData srv (watchForKey srv cid key) ∧
    (watchForKey srv cid key).watched = update srv.watched (srv.clients cid).db
    (link (srv.watched (srv.clients cid).db) key cid) ∧
    (watchForKey srv cid key).clients = update srv.clients cid
    { srv.clients cid with watchedKeys := (srv.clients cid).watchedKeys ++
      [⟨(srv.clients cid).db, key, srv.keyIsExpired (srv.clients cid).db key⟩] } := by
  have hno : ¬(srv.clients cid).watchedKeys.any (WatchedKey.isFor (srv.clients cid).db key) := by
    intro hany
    obtain ⟨wk, hmem, hfor⟩ := any_eq_true.mp hany
    exact hnew (isFor_iff.mp hfor ▸ mem_map_of_mem hmem)
  unfold watchForKey
  simp only [hno, Bool.false_eq_true, if_false]
  exact ⟨⟨rfl, rfl, rfl⟩, trivial, trivial⟩

lemma watchForKey_old (hold : ((srv.clients cid).db, key) ∈ places (srv.clients cid)) :
    watchForKey srv cid key = srv := by
  obtain ⟨wk, hwk, hplace⟩ := mem_map.mp hold
  have hany : (srv.clients cid).watchedKeys.any (WatchedKey.isFor (srv.clients cid).db key) :=
    any_eq_true.mpr ⟨wk, hwk, isFor_iff.mpr hplace⟩
  simp [watchForKey, hany]

/-- What `WATCH` of one key does. -/
structure Watches (srv : Server V) (cid : ClientId) (key : Bytes) (srv' : Server V) : Prop where
  linked : Linked srv'
  same : SameData srv srv'
  others : ∀ cid', cid' ≠ cid → srv'.clients cid' = srv.clients cid'
  db : (srv'.clients cid).db = (srv.clients cid).db
  dirtyCas : (srv'.clients cid).dirtyCas = (srv.clients cid).dirtyCas
  flags : ∀ db key', flag (srv'.clients cid) db key' =
    if (db, key') = ((srv.clients cid).db, key) then
      (flag (srv.clients cid) db key').or (some (srv.keyIsExpired db key'))
    else flag (srv.clients cid) db key'

/-- `watchForKey` records whether the key is expired now, unless the client
watches the key already. -/
lemma watchForKey_spec (h : Linked srv) (cid : ClientId) (key : Bytes) :
    Watches srv cid key (watchForKey srv cid key) := by
  by_cases hold : ((srv.clients cid).db, key) ∈ places (srv.clients cid)
  · rw [watchForKey_old hold]
    refine ⟨h, SameData.refl srv, fun _ _ => rfl, rfl, rfl, ?_⟩
    intro db key'
    split
    · next hat =>
      have hsome : (flag (srv.clients cid) db key').isSome := by
        rw [flag_isSome_iff, hat]
        exact hold
      obtain ⟨e, he⟩ := Option.isSome_iff_exists.mp hsome
      rw [he, Option.some_or]
    · rfl
  obtain ⟨hsame, hwatched, hclients⟩ := watchForKey_new hold
  refine ⟨h.add hold hwatched hclients, hsame, ?_, by simp [hclients], by simp [hclients], ?_⟩
  · intro cid' hc
    rw [hclients, update_of_ne hc]
  intro db key'
  rw [hclients, update_self, flag_append _ _ _ _ hold]
  split
  · next hat =>
    have hnone : flag (srv.clients cid) db key' = none := by
      rw [← Option.not_isSome_iff_eq_none, flag_isSome_iff, hat]
      exact hold
    obtain ⟨rfl, rfl⟩ := Prod.mk.inj hat
    rw [hnone, Option.none_or]
  · rfl

/-- The loop of `unwatchAllKeys` finds every list and takes the client out of
all of them. -/
lemma unlinkKeys_spec (cid : ClientId) {watched : DbId → Dict Bytes (List ClientId)}
    {wks : List WatchedKey} (htidy : ∀ db, Tidy (watched db))
    (hnd : (wks.map fun wk => (wk.db, wk.key)).Nodup)
    (hin : ∀ wk ∈ wks, cid ∈ members (watched wk.db) wk.key) :
    ∃ watched', unlinkKeys cid watched wks = some watched' ∧ (∀ db, Tidy (watched' db)) ∧
    ∀ db key c, c ∈ members (watched' db) key ↔ c ∈ members (watched db) key ∧
    ¬(c = cid ∧ (db, key) ∈ wks.map fun wk => (wk.db, wk.key)) := by
  induction wks generalizing watched with
  | nil => exact ⟨watched, rfl, htidy, by simp⟩
  | cons wk wks ih =>
    have hlook := lookup_of_mem (hin wk (by simp))
    have hmem : ∀ db key c, c ∈ members (update watched wk.db
      (unlink (watched wk.db) wk.key cid) db) key ↔
      c ∈ members (watched db) key ∧ ¬(c = cid ∧ (db, key) = (wk.db, wk.key)) := by
      intro db key c
      have hnodup := ((htidy db).nodup key).mem_erase_iff (a := c) (b := cid)
      grind
    have htidy1 := fun db => tidy_update_unlink wk.db db wk.key cid htidy
    rw [map_cons, nodup_cons] at hnd
    obtain ⟨watched', hrun, htidy', hmem'⟩ := ih htidy1 hnd.2 (by
      intro wk' hwk'
      refine (hmem _ _ _).mpr ⟨hin wk' (by simp [hwk']), ?_⟩
      rintro ⟨-, hplace⟩
      exact hnd.1 (hplace ▸ mem_map_of_mem hwk'))
    refine ⟨watched', ?_, htidy', ?_⟩
    · rw [unlinkKeys, hlook]
      exact hrun
    · intro db key c
      rw [hmem', hmem, map_cons, mem_cons]
      tauto

/-- `unwatchAllKeys` empties the client's list and nothing else. -/
lemma unwatchAllKeys_spec (h : Linked srv) (cid : ClientId) :
    ∃ srv', unwatchAllKeys srv cid = some srv' ∧ Linked srv' ∧ SameData srv srv' ∧
    ∀ cid', srv'.clients cid' =
    if cid' = cid then { srv.clients cid with watchedKeys := [] }
    else srv.clients cid' := by
  unfold unwatchAllKeys
  by_cases hnil : (srv.clients cid).watchedKeys = []
  · refine ⟨srv, by simp [hnil], h, SameData.refl srv, ?_⟩
    intro cid'
    split
    · next heq =>
      rw [heq]
      rw [← hnil]
    · rfl
  obtain ⟨watched', hrun, htidy, hmem⟩ := unlinkKeys_spec cid h.tidy (h.nodup cid)
    (fun wk hwk => (h.mem _ _ _).mpr (mem_map_of_mem hwk))
  simp only [hnil, hrun]
  refine ⟨_, rfl, ⟨htidy, ?_, ?_⟩, ⟨rfl, rfl, rfl⟩, ?_⟩
  · intro cid'
    have hold := h.nodup cid'
    simp only [update_apply]
    split
    · exact nodup_nil
    · exact hold
  · intro db key cid'
    simp only [hmem, h.mem, update_apply]
    split
    · next hc => simp [places, hc]
    · next hc => simp [hc]
  · exact fun cid' => update_apply _ _ _ _

/-- What `touchWatchedKey` means for a client that watches the key. -/
def touched (db : DbId) (key : Bytes) (c : Client V) : Client V :=
  if flag c db key = some true then c.setExpired db key false
  else { c.setDirty with watchedKeys := [] }

/-- The loop of `touchWatchedKey`.  It reaches every watcher, unless the key
is present and somebody watches it as expired. -/
lemma touchWatchers_spec (db : DbId) (key : Bytes) (h : Linked srv)
    {cids : List ClientId} (hnd : cids.Nodup)
    (hin : ∀ cid ∈ cids, (flag (srv.clients cid) db key).isSome) :
    ∃ srv', touchWatchers db key srv cids = some srv' ∧ Linked srv' ∧ SameData srv srv' ∧
    ((srv.dbFind db key = none ∨ ∀ cid ∈ cids, flag (srv.clients cid) db key = some false) →
    ∀ cid, srv'.clients cid =
      if cid ∈ cids then touched db key (srv.clients cid) else srv.clients cid) := by
  induction cids generalizing srv with
  | nil => exact ⟨srv, rfl, h, SameData.refl srv, by simp⟩
  | cons c cids ih =>
    rw [nodup_cons] at hnd
    -- what remains to be done after `c` became `c'` in `srv1`
    have hrest : ∀ srv1 : Server V, Linked srv1 → SameData srv srv1 → (∀ cid, srv1.clients cid =
      if cid = c then touched db key (srv.clients c) else srv.clients cid) →
      ∃ srv', touchWatchers db key srv1 cids = some srv' ∧ Linked srv' ∧ SameData srv srv' ∧
        ((srv.dbFind db key = none ∨
          ∀ cid ∈ c :: cids, flag (srv.clients cid) db key = some false) →
          ∀ cid, srv'.clients cid = if cid ∈ c :: cids
            then touched db key (srv.clients cid) else srv.clients cid) := by
      intro srv1 h1 hsame hclients
      have hne : ∀ cid ∈ cids, srv1.clients cid = srv.clients cid := by grind
      obtain ⟨srv', hrun, h', hsame', hall⟩ := ih h1 hnd.2 (by grind)
      refine ⟨srv', hrun, h', hsame.trans hsame', fun hclean cid => ?_⟩
      rw [hall (by rw [hsame.dbFind]; grind) cid, hclients]
      grind
    obtain ⟨wk, hwk⟩ : ∃ wk, (srv.clients c).watchedKey db key = some wk := by
      apply Option.isSome_iff_exists.mp
      simpa [flag] using hin c (by simp)
    have hflag : flag (srv.clients c) db key = some wk.expired := by simp [flag, hwk]
    simp only [touchWatchers, hwk, Option.bind_some]
    by_cases hexp : wk.expired
    · simp only [hexp]
      by_cases hgone : (srv.dbFind db key).isNone
      · simp only [hgone]
        apply hrest _ (h.modify (places_setExpired _ _ _ _)) (sameData_modify _ _ _)
        intro cid
        rw [clients_modify, touched, hflag, hexp, if_pos rfl]
      simp only [hgone]
      -- the loop is left: the assumption of the last part fails
      refine ⟨srv, rfl, h, SameData.refl srv, ?_⟩
      grind
    · simp only [hexp]
      obtain ⟨srv1, hun, h1, hsame, hclients⟩ :=
        unwatchAllKeys_spec (h.modify (f := Client.setDirty) (places_setDirty _)) c
      rw [hun]
      apply hrest srv1 h1 ((sameData_modify _ _ _).trans hsame)
      intro cid
      rw [hclients, clients_modify, clients_modify]
      grind [touched]

lemma touchWatchedKey_spec (h : Linked srv) (db : DbId) (key : Bytes) :
    ∃ srv', touchWatchedKey srv db key = some srv' ∧ Linked srv' ∧ SameData srv srv' ∧
    ((srv.dbFind db key = none ∨ ∀ cid, flag (srv.clients cid) db key ≠ some true) →
    ∀ cid, srv'.clients cid =
      if (flag (srv.clients cid) db key).isSome then touched db key (srv.clients cid)
      else srv.clients cid) := by
  obtain ⟨srv', hrun, h', hsame, hall⟩ := touchWatchers_spec db key h
    ((h.tidy db).nodup key) (fun cid hcid => (h.mem_iff_flag db key cid).mp hcid)
  refine ⟨srv', hrun, h', hsame, ?_⟩
  intro hclean cid
  have hclean' : srv.dbFind db key = none ∨
    ∀ cid ∈ members (srv.watched db) key, flag (srv.clients cid) db key = some false := by
    apply hclean.imp id
    intro hne cid hcid
    obtain ⟨e, he⟩ := Option.isSome_iff_exists.mp ((h.mem_iff_flag db key cid).mp hcid)
    cases e with
    | false => exact he
    | true => exact absurd he (hne cid)
  rw [hall hclean' cid]
  simp [h.mem_iff_flag]

/-! ## Touching whole databases -/

/-- Every flag of a client was judged by `f`, which gives the new flag; a flag
that gets none makes the client dirty. -/
structure Judged (f : DbId → Bytes → Bool → Option Bool) (c c' : Client V) : Prop where
  places : places c' = places c
  dirty : c.dirtyCas = true → c'.dirtyCas = true
  flags : c'.dirtyCas = false → ∀ db key, flag c' db key = (flag c db key).bind (f db key)

section

variable {f g : DbId → Bytes → Bool → Option Bool}

lemma Judged.congr {c' : Client V} (h : Judged f c c')
    (hfg : ∀ db key e, flag c db key = some e → f db key e = g db key e) :
    Judged g c c' where
  places := h.places
  dirty := h.dirty
  flags hc db key := by
    rw [h.flags hc]
    cases hflag : flag c db key with
    | none => rfl
    | some e => exact hfg db key e hflag

lemma Judged.refl (c : Client V) : Judged (fun _ _ e => some e) c c where
  places := rfl
  dirty := id
  flags _ db key := by cases flag c db key <;> rfl

lemma Judged.trans {c1 c2 c3 : Client V} (hf : Judged f c1 c2) (hg : Judged g c2 c3) :
    Judged (fun db key e => (f db key e).bind (g db key)) c1 c3 where
  places := hg.places.trans hf.places
  dirty hc := hg.dirty (hf.dirty hc)
  flags hc db key := by
    have hc2 : c2.dirtyCas = false := by
      by_contra hd
      rw [hg.dirty (by simpa using hd)] at hc
      exact absurd hc (by simp)
    rw [hg.flags hc, hf.flags hc2, Option.bind_assoc]

end

lemma replacedFlag_congr (h : SameData srv srv') : replacedFlag srv' = replacedFlag srv := by
  funext emptied replacedWith key e
  simp [replacedFlag, h.dbFind, h.keyIsExpired]

lemma existsInEither_congr (h : SameData srv srv') : srv'.existsInEither = srv.existsInEither := by
  funext emptied replacedWith key
  simp [Server.existsInEither, h.dbFind]

/-- The judgement of `touchAllWatchedKeysInDb` on the keys selected by `p`. -/
def verdict (srv : Server V) (emptied : DbId) (replacedWith : Option DbId)
    (p : Bytes → Prop) [DecidablePred p] (db : DbId) (key : Bytes) (e : Bool) : Option Bool :=
  if db = emptied ∧ p key ∧ srv.existsInEither emptied replacedWith key = true then
    replacedFlag srv emptied replacedWith key e
  else some e

lemma verdict_congr (h : SameData srv srv') (emptied : DbId)
    (replacedWith : Option DbId) (p : Bytes → Prop) [DecidablePred p] :
    verdict srv' emptied replacedWith p = verdict srv emptied replacedWith p := by
  funext db key e
  simp [verdict, replacedFlag_congr h, existsInEither_congr h]

lemma verdict_off {emptied : DbId} {replacedWith : Option DbId} {p : Bytes → Prop}
    [DecidablePred p] (e : Bool) (hoff : db = emptied → p key →
    ¬srv.existsInEither emptied replacedWith key) :
    verdict srv emptied replacedWith p db key e = some e :=
  if_neg fun h => hoff h.1 h.2.1 h.2.2

section

variable (srv : Server V) (emptied : DbId) (replacedWith : Option DbId)

/-- Two selections with no common key, one after the other. -/
lemma verdict_or {p q r : Bytes → Prop} [DecidablePred p] [DecidablePred q] [DecidablePred r]
    (hr : ∀ key, r key ↔ p key ∨ q key) (hpq : ∀ key, p key → ¬q key) (db : DbId) (key : Bytes)
    (e : Bool) :
    (verdict srv emptied replacedWith p db key e).bind (verdict srv emptied replacedWith q db key) =
    verdict srv emptied replacedWith r db key e := by
  by_cases hdb : db = emptied ∧ srv.existsInEither emptied replacedWith key
  · unfold verdict
    by_cases hp : p key
    · simp [hpq key hp, hr]
    · simp [hp, hr]
  · have hoff : ∀ t : Prop, db = emptied → t →
      ¬srv.existsInEither emptied replacedWith key := fun _ h1 _ h2 => hdb ⟨h1, h2⟩
    rw [verdict_off e (hoff _), Option.bind_some, verdict_off e (hoff _), verdict_off e (hoff _)]

/-- One round of the inner loop. -/
lemma judged_replaced (hex : srv.existsInEither emptied replacedWith key) {e : Bool}
    (he : flag c emptied key = some e) :
    Judged (verdict srv emptied replacedWith (· = key)) c
    (c.replaced emptied key (replacedFlag srv emptied replacedWith key e)) := by
  cases hr : replacedFlag srv emptied replacedWith key e with
  | none =>
    refine ⟨rfl, fun _ => rfl, ?_⟩
    intro hc
    exact absurd hc (by simp [Client.replaced, Client.setDirty])
  | some e' =>
    refine ⟨places_setExpired _ _ _ _, id, ?_⟩
    intro _ db key'
    show flag (c.setExpired emptied key e') db key' = _
    rw [flag_setExpired]
    by_cases hat : (db, key') = (emptied, key)
    · obtain ⟨rfl, rfl⟩ := Prod.mk.inj hat
      simp [verdict, he, hex, hr]
    rw [if_neg hat]
    cases flag c db key' with
    | none => rfl
    | some x =>
      rw [Option.bind_some, verdict_off]
      rintro rfl rfl
      exact absurd rfl hat

end

variable (emptied : DbId) (replacedWith : Option DbId)

/-- The inner loop serves exactly the clients of its list. -/
lemma touchReplaced_spec (key : Bytes) {cids : List ClientId}
    (hex : srv.existsInEither emptied replacedWith key) (hnd : cids.Nodup)
    (hin : ∀ cid ∈ cids, (flag (srv.clients cid) emptied key).isSome) :
    ∃ srv', touchReplaced emptied replacedWith key srv cids = some srv' ∧
    srv'.watched = srv.watched ∧ SameData srv srv' ∧
    (∀ cid ∉ cids, srv'.clients cid = srv.clients cid) ∧
    ∀ cid ∈ cids, Judged (verdict srv emptied replacedWith (· = key)) (srv.clients cid)
    (srv'.clients cid) := by
  induction cids generalizing srv with
  | nil => exact ⟨srv, rfl, rfl, SameData.refl srv, fun _ _ => rfl, by simp⟩
  | cons c cids ih =>
    rw [nodup_cons] at hnd
    obtain ⟨wk, hwk⟩ : ∃ wk, (srv.clients c).watchedKey emptied key = some wk := by
      apply Option.isSome_iff_exists.mp
      simpa [flag] using hin c (by simp)
    have hjudged := judged_replaced srv emptied replacedWith hex
      (show flag (srv.clients c) emptied key = some wk.expired by simp [flag, hwk])
    obtain ⟨srv1, hsrv1⟩ : ∃ srv1, srv1 = srv.modify c (Client.replaced emptied key
      (replacedFlag srv emptied replacedWith key wk.expired)) := ⟨_, rfl⟩
    have hsame : SameData srv srv1 := hsrv1 ▸ sameData_modify _ _ _
    have hclients := fun cid => hsrv1 ▸ clients_modify srv c cid (Client.replaced emptied key
      (replacedFlag srv emptied replacedWith key wk.expired))
    obtain ⟨srv', hrun, hwatched, hsame', hothers, hall⟩ :=
      ih (by rw [existsInEither_congr hsame]; exact hex) hnd.2 (by grind)
    rw [verdict_congr hsame] at hall
    refine ⟨srv', ?_, hwatched.trans (hsrv1 ▸ rfl), hsame.trans hsame', ?_, ?_⟩
    · simp [touchReplaced, hwk, ← hsrv1, hrun]
    · grind
    · grind

/-- The outer loop judges the flags of all keys of its list. -/
lemma touchEntries_spec {entries : List (Bytes × List ClientId)}
    (hkeys : (entries.map Prod.fst).Nodup)
    (hin : ∀ e ∈ entries, e.2.Nodup ∧
    ∀ cid, cid ∈ e.2 ↔ (emptied, e.1) ∈ places (srv.clients cid)) :
    ∃ srv', touchEntries emptied replacedWith srv entries = some srv' ∧
    srv'.watched = srv.watched ∧ SameData srv srv' ∧
    ∀ cid, Judged (verdict srv emptied replacedWith (· ∈ entries.map Prod.fst))
    (srv.clients cid) (srv'.clients cid) := by
  induction entries generalizing srv with
  | nil =>
    refine ⟨srv, rfl, rfl, SameData.refl srv, fun cid => (Judged.refl _).congr ?_⟩
    simp [verdict]
  | cons entry entries ih =>
    obtain ⟨key, cids⟩ := entry
    rw [map_cons, nodup_cons] at hkeys
    have hentry := hin (key, cids) (by simp)
    -- one round: the clients of `key` are judged if one of the tables has it
    have hround : ∃ srv1, (touchEntries emptied replacedWith srv ((key, cids) :: entries) =
      touchEntries emptied replacedWith srv1 entries) ∧ srv1.watched = srv.watched ∧
      SameData srv srv1 ∧ ∀ cid, Judged (verdict srv emptied replacedWith (· = key))
        (srv.clients cid) (srv1.clients cid) := by
      by_cases hex : srv.existsInEither emptied replacedWith key
      · obtain ⟨srv1, hrun, hwatched, hsame, hothers, hall⟩ :=
          touchReplaced_spec emptied replacedWith key hex hentry.1 (by
            intro cid hcid
            rw [flag_isSome_iff]
            exact (hentry.2 cid).mp hcid)
        refine ⟨srv1, by simp [touchEntries, hex, hrun], hwatched, hsame, ?_⟩
        intro cid
        by_cases hcid : cid ∈ cids
        · exact hall cid hcid
        rw [hothers cid hcid]
        refine (Judged.refl _).congr ?_
        intro db key' e hflag
        refine (verdict_off e ?_).symm
        rintro rfl rfl -
        apply hcid
        rw [hentry.2, ← flag_isSome_iff, hflag]
        rfl
      · refine ⟨srv, by simp [touchEntries, hex], rfl, SameData.refl srv, ?_⟩
        intro cid
        refine (Judged.refl _).congr ?_
        intro db key' e _
        refine (verdict_off e ?_).symm
        rintro rfl rfl
        exact hex
    obtain ⟨srv1, hstep, hwatched1, hsame1, hjudged1⟩ := hround
    obtain ⟨srv', hrun, hwatched, hsame, hjudged⟩ := ih hkeys.2 (by
      intro e he
      refine ⟨(hin e (by simp [he])).1, fun cid => ?_⟩
      rw [(hjudged1 cid).places]
      exact (hin e (by simp [he])).2 cid)
    refine ⟨srv', hstep.trans hrun, hwatched.trans hwatched1, hsame1.trans hsame, ?_⟩
    intro cid
    refine ((hjudged1 cid).trans (hjudged cid)).congr ?_
    intro db key' e _
    rw [verdict_congr hsame1]
    refine verdict_or srv emptied replacedWith (fun key' => ?_) (fun key' => ?_) db key' e
    · rw [map_cons, mem_cons]
    · rintro rfl
      exact hkeys.1

/-- `touchAllWatchedKeysInDb` judges every watch of the database. -/
lemma touchAllWatchedKeysInDb_spec (h : Linked srv) (emptied : DbId) (replacedWith : Option DbId) :
    ∃ srv', touchAllWatchedKeysInDb srv emptied replacedWith = some srv' ∧ Linked srv' ∧
    SameData srv srv' ∧
    ∀ cid, Judged (verdict srv emptied replacedWith fun _ => True)
    (srv.clients cid) (srv'.clients cid) := by
  have hfst : ((srv.watched emptied).entries.map fun e => (e.1, e.2)).map Prod.fst =
    (srv.watched emptied).keys := by
    rw [map_map]
    rfl
  have hkeys : (((srv.watched emptied).entries.map fun e => (e.1, e.2)).map Prod.fst).Nodup := by
    rw [hfst]
    exact (srv.watched emptied).nodupKeys
  have hin : ∀ e ∈ (srv.watched emptied).entries.map fun e => (e.1, e.2), e.2.Nodup ∧
    ∀ cid, cid ∈ e.2 ↔ (emptied, e.1) ∈ places (srv.clients cid) := by
    intro e he
    obtain ⟨⟨key, cids⟩, hmem, rfl⟩ := mem_map.mp he
    have hlook : (srv.watched emptied).lookup key = some cids := AList.mem_lookup_iff.mpr hmem
    have hcids : members (srv.watched emptied) key = cids := members_of_lookup hlook
    subst hcids
    exact ⟨(h.tidy emptied).nodup key, fun cid => h.mem emptied key cid⟩
  obtain ⟨srv', hrun, hwatched, hsame, hjudged⟩ := touchEntries_spec emptied replacedWith hkeys hin
  refine ⟨srv', hrun, h.of_places hwatched fun cid => (hjudged cid).places, hsame, ?_⟩
  intro cid
  refine (hjudged cid).congr ?_
  intro db key e hflag
  simp only [verdict, hfst]
  by_cases hdb : db = emptied
  · subst hdb
    have hmem : cid ∈ members (srv.watched db) key := by
      rw [h.mem_iff_flag, hflag]
      rfl
    have hkey : key ∈ (srv.watched db).keys := by
      rw [← AList.mem_keys, ← AList.lookup_isSome, lookup_of_mem hmem]
      rfl
    simp [hkey]
  · simp [hdb]

/-- The judgement of a flush. -/
def flushVerdict (srv : Server V) (dbs : List DbId) (db : DbId) (key : Bytes) (e : Bool) :
    Option Bool :=
  if db ∈ dbs ∧ (srv.dbFind db key).isSome = true then if e then some false else none
  else some e

lemma signalFlushedDb_spec (h : Linked srv) {dbs : List DbId} (hnd : dbs.Nodup) :
    ∃ srv', signalFlushedDb srv dbs = some srv' ∧ Linked srv' ∧ SameData srv srv' ∧
    ∀ cid, Judged (flushVerdict srv dbs) (srv.clients cid) (srv'.clients cid) := by
  induction dbs generalizing srv with
  | nil =>
    refine ⟨srv, rfl, h, SameData.refl srv, fun cid => (Judged.refl _).congr ?_⟩
    simp [flushVerdict]
  | cons d dbs ih =>
    rw [nodup_cons] at hnd
    obtain ⟨srv1, hrun1, h1, hsame1, hj1⟩ := touchAllWatchedKeysInDb_spec h d none
    obtain ⟨srv', hrun, h', hsame, hj⟩ := ih h1 hnd.2
    refine ⟨srv', by rw [signalFlushedDb, hrun1]; exact hrun, h', hsame1.trans hsame, ?_⟩
    intro cid
    refine ((hj1 cid).trans (hj cid)).congr ?_
    intro db key e _
    have hsecond : flushVerdict srv1 dbs db key = flushVerdict srv dbs db key := by
      funext e
      rw [flushVerdict, flushVerdict, hsame1.dbFind]
    rw [hsecond]
    simp only [verdict, replacedFlag, Server.existsInEither, Option.any_none]
    by_cases hd : db = d
    · subst hd
      cases hfind : (srv.dbFind db key).isSome <;> cases e <;>
        simp [flushVerdict, hnd.1, hfind]
    · simp [flushVerdict, hd]

lemma flushed_nodup (srv : Server V) (db : Option DbId) : (srv.flushed db).Nodup := by
  cases db with
  | none => exact nodup_range
  | some db =>
    rw [Server.flushed]
    split
    · exact nodup_singleton db
    · exact nodup_nil

lemma watchedAsExpired_eq_false (h : Linked srv)
    (hno : srv.watchedAsExpired db key = false) (cid : ClientId) :
    flag (srv.clients cid) db key ≠ some true := by
  intro hflag
  have hmem : cid ∈ members (srv.watched db) key := by
    rw [h.mem_iff_flag, hflag]
    rfl
  have hthis := any_eq_false.mp hno cid hmem
  obtain ⟨wk, hwk, he⟩ := Option.map_eq_some_iff.mp hflag
  rw [hwk] at hthis
  exact hthis he

lemma dbFind_store (srv : Server V) (db db' : DbId) (key key' : Bytes)
    (entry : Option (Entry V)) : (srv.store db key entry).dbFind db' key' =
    if (db', key') = (db, key) then entry else srv.dbFind db' key' := by
  unfold Server.dbFind Server.store
  by_cases hdb : db' = db
  · subst hdb
    simp only [update_self, Prod.mk.injEq, true_and]
    cases entry with
    | none => exact lookup_erase_eq _ _ _
    | some e => exact lookup_insert_eq _ _ _ _
  · simp [hdb]

/-- A key holds the value of an entry that is not expired. -/
lemma holds_eq (srv : Server V) (db : DbId) (key : Bytes) : srv.holds db key =
    (srv.dbFind db key).bind fun e => if e.isExpired srv.now then none else some e.value := by
  unfold Server.holds Server.keyIsExpired
  cases srv.dbFind db key <;> rfl

lemma keyIsExpired_of_none (h : srv.dbFind db key = none) : srv.keyIsExpired db key = false := by
  simp [Server.keyIsExpired, h]

lemma dbFind_swapKeys (srv : Server V) {a b : DbId} (hab : a ≠ b) (db : DbId) (key : Bytes) :
    (srv.swapKeys a b).dbFind db key =
    srv.dbFind (if db = a then b else if db = b then a else db) key := by
  unfold Server.swapKeys Server.dbFind
  by_cases ha : db = a
  · subst ha
    simp [hab]
  by_cases hb : db = b
  · subst hb
    simp [ha]
  · simp [ha, hb]

end Dice.Ports.WatchedKeys
