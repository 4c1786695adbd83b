import Dice.Ports.DictInvariant
import Dice.Verified.Table

/-!
# The hash table as a finite map

The same calls are made on the hash table and on a finite map.  Whatever the
hash function is, and however the policy changes from one call to the next,
every call on the hash table succeeds, answers what the map answers, and
leaves a table that holds the entries of the map in the places where they are
looked for.
-/

namespace Dice.Ports.DictRefinement

open List Verified Run Chains DictTable DictInvariant Option Prod

variable {K V : Type} [DecidableEq K]

/-- The entry of a key is in the given bucket. -/
def Located (d : Dict K V) (key : K) (slot : Slot) (he : K × V) : Prop :=
  ∃ chain, (d.ht slot.second).table[slot.idx]? = some chain ∧ findInChain key chain = some he

/-- The result of a search for a key among the entries `es`. -/
def SearchResult (d : Dict K V) (es : List (K × V)) (key : K) : Option (Slot × (K × V)) → Prop
  | some (slot, he) => Located d key slot he
  | none => ∀ val, (key, val) ∉ es

variable {type : DictType K} {key : K} {d d' : Dict K V} {slot : Slot} {es es' : List (K × V)}
  {r : Option (K × V)} {val : V}

omit [DecidableEq K] in
lemma not_mem_of_bucket {t : HashTable K V} (h : TableOk type t) {chain : List (K × V)}
    (hchain : t.table[bucketIndex (type.dictHashKey key) t.sizeExp]? = some chain)
    (hnone : ∀ e ∈ chain, e.1 ≠ key) (val : V) : (key, val) ∉ t.entries := by
  intro hmem
  have hbucket : t.table[position type t.sizeExp (key, val)]? = some chain := hchain
  exact hnone (key, val) ((h.placed.mem_flatten hbucket).mp hmem) rfl

lemma searchTable_spec {second : Bool}
    (h : TableOk type (d.ht second)) (hexp : (d.ht second).sizeExp ≠ -1) (key : K) :
    ∃ r, searchTable d second (type.dictHashKey key) key = some r ∧
    SearchResult d (d.ht second).entries key r := by
  obtain ⟨chain, hchain⟩ := h.bucket hexp (type.dictHashKey key)
  refine ⟨_, by rw [searchTable, hchain]; rfl, ?_⟩
  cases hfind : findInChain key chain with
  | some he => exact ⟨chain, hchain, hfind⟩
  | none =>
    apply not_mem_of_bucket h hchain
    simpa [findInChain] using hfind

/-- The search finds the entry of the key, or there is none in either table. -/
lemma searchTables_spec (h : DictOk type d) (hne : d.ht0.table ≠ []) {idx : Nat} (key : K)
    (hidx : (idx : Int) < d.rehashidx → idx = bucketIndex (type.dictHashKey key) d.ht0.sizeExp) :
    ∃ r, searchTables type d idx key = some r ∧ SearchResult d d.entries key r := by
  have hexp0 : d.ht0.sizeExp ≠ -1 := fun he => hne (h.ht0.table_eq_nil_iff.mpr he)
  have hsecond : d.rehashidx ≠ -1 → (∀ val, (key, val) ∉ d.ht0.entries) →
    ∃ r, searchTable d true (type.dictHashKey key) key = some r ∧
      SearchResult d d.entries key r := by
    intro hr hnot
    obtain ⟨r, hsearch, hr⟩ := @searchTable_spec _ _ _ type d true h.ht1 (h.exp₁_ne hr) key
    refine ⟨r, hsearch, ?_⟩
    cases r with
    | some found => exact hr
    | none => exact fun val hmem => (mem_append.mp hmem).elim (hnot val) (hr val)
  rw [searchTables]
  split
  next hlt =>
    apply hsecond (by omega)
    obtain ⟨chain, hchain⟩ := h.ht0.bucket hexp0 (type.dictHashKey key)
    have hempty : chain = [] := h.below_empty _ chain (hidx hlt ▸ hlt) hchain
    exact not_mem_of_bucket h.ht0 hchain (by simp [hempty])
  next =>
    obtain ⟨r, hsearch, hr⟩ := @searchTable_spec _ _ _ type d false h.ht0 hexp0 key
    rw [hsearch]
    cases r with
    | some found => exact ⟨some found, rfl, hr⟩
    | none =>
      split
      next hreh => exact hsecond (isRehashing_iff.mp hreh) hr
      next hreh =>
        rw [isRehashing_iff, not_not] at hreh
        refine ⟨none, rfl, fun val hmem => ?_⟩
        rw [Dict.entries, HashTable.entries, HashTable.entries, h.rehashidx_iff.mp hreh,
          flatten_nil, append_nil] at hmem
        exact hr val hmem

/-! ## The functions -/

variable (policy : Policy)

lemma unlinkEntry_spec (h : DictOk type d) {he : K × V} (hloc : Located d key slot he) :
    ∃ d', unlinkEntry type policy d slot key = some d' ∧ DictOk type d' ∧
    d.entries.Perm (he :: d'.entries) ∧ d'.pauserehash = d.pauserehash := by
  obtain ⟨chain, hchain, hfind⟩ := hloc
  obtain ⟨t, hunlink, ht, hexp, hkeep, hperm⟩ := unlink_spec (h.ht_ok slot.second) hchain hfind
  have hout : d.entries.Perm (he :: (d.setHt slot.second t).entries) :=
    (entries_perm_ht d slot.second).trans ((hperm.append_right _).trans
      ((entries_setHt_perm d slot.second t).symm.cons he))
  have hok' : DictOk type (d.setHt slot.second t) := by
    apply h.setHt ht hexp _ (.inr (.inr hkeep))
    have hnodup := (hout.map fst).nodup_iff.mp h.keys_nodup
    rw [map_cons, nodup_cons] at hnodup
    exact hnodup.2
  obtain ⟨d', hshrink, hre⟩ := dictShrinkIfAutoResizeAllowed_spec policy hok'
  refine ⟨d', ?_, hre.ok, hout.trans (hre.entries.symm.cons he), ?_⟩
  · simp [unlinkEntry, hunlink, hshrink]
  · rw [hre.pauserehash, setHt_pauserehash]

/-- What `dictFind` and the first half of a deletion do. -/
lemma lookup_spec (h : DictOk type d) (hsize : d.size ≠ 0) (key : K) :
    ∃ d' r, rehashOnLookup type policy d
      (bucketIndex (type.dictHashKey key) d.ht0.sizeExp) = some d' ∧
    searchTables type d' (bucketIndex (type.dictHashKey key) d.ht0.sizeExp) key = some r ∧
    Rearranged type d d' ∧ SearchResult d' d'.entries key r := by
  obtain ⟨d', hlook, hre⟩ := rehashOnLookup_spec policy h (type.dictHashKey key)
  obtain ⟨r, hsearch, hr⟩ := searchTables_spec hre.ok
    (hre.allocated (h.allocated_of_size hsize)) key
    (hre.lookup_index (type.dictHashKey key))
  exact ⟨d', r, hlook, hsearch, hre, hr⟩

/-- What a lookup may answer. -/
def Answers (es : List (K × V)) (key : K) : Option (K × V) → Prop
  | some he => he.1 = key ∧ he ∈ es
  | none => ∀ val, (key, val) ∉ es

lemma Located.mem {he : K × V} (h : Located d key slot he) : he.1 = key ∧ he ∈ d.entries := by
  obtain ⟨chain, hchain, hfind⟩ := h
  refine ⟨(findInChain_split hfind).1, ?_⟩
  have hmem : he ∈ (d.ht slot.second).entries :=
    mem_flatten.mpr ⟨chain, mem_of_getElem? hchain, mem_of_find?_eq_some hfind⟩
  apply (entries_perm_ht d slot.second).mem_iff.mpr
  exact mem_append_left _ hmem

lemma SearchResult.answers {r : Option (Slot × (K × V))}
    (h : SearchResult d d.entries key r) : Answers d.entries key (r.map snd) := by
  cases r with
  | some found => exact Located.mem h
  | none => exact h

omit [DecidableEq K] in
lemma Answers.perm (h : Answers es key r) (hperm : es.Perm es') : Answers es' key r := by
  cases r with
  | some he => exact ⟨h.1, hperm.mem_iff.mp h.2⟩
  | none => exact fun val hmem => h val (hperm.mem_iff.mpr hmem)

lemma dictFind_spec (h : DictOk type d) (key : K) :
    ∃ r d', dictFind type policy d key = some (r, d') ∧ Rearranged type d d' ∧
    Answers d.entries key r := by
  by_cases hsize : d.size = 0
  · exact ⟨none, d, by rw [dictFind, if_pos hsize], Rearranged.refl h, h.not_mem_of_size hsize key⟩
  obtain ⟨d', r, hlook, hsearch, hre, hr⟩ := lookup_spec policy h hsize key
  refine ⟨r.map snd, d', ?_, hre, hr.answers.perm hre.entries⟩
  rw [dictFind, if_neg hsize]
  simp [hlook, hsearch]

/-- While rehashing is paused a lookup changes nothing. -/
lemma dictFind_paused (h : DictOk type d) (hpause : d.pauserehash ≠ 0) (key : K) :
    ∃ r, dictFind type policy d key = some (r, d) ∧ Answers d.entries key r := by
  obtain ⟨r, d', hfind, hre, hans⟩ := dictFind_spec policy h key
  have hsame : d' = d := by
    rw [dictFind] at hfind
    split at hfind
    · simp only [some.injEq, mk.injEq] at hfind
      exact hfind.2.symm
    simp only [rehashOnLookup_paused policy h hpause, some_bind, bind_eq_bind,
      bind_eq_some_iff, some.injEq, mk.injEq] at hfind
    obtain ⟨_, _, _, heq⟩ := hfind
    exact heq.symm
  exact ⟨r, hsame ▸ hfind, hans⟩

/-- What a call that may take out an entry does. -/
structure Removed (type : DictType K) (d : Dict K V) (key : K) (r : Option (K × V))
    (d' : Dict K V) : Prop where
  ok : DictOk type d'
  pauserehash : d'.pauserehash = d.pauserehash
  answers : Answers d.entries key r
  entries : d.entries.Perm (r.toList ++ d'.entries)

section

variable (h : DictOk type d)

include h

lemma dictGenericDelete_spec (key : K) :
    ∃ r d', dictGenericDelete type policy d key = some (r, d') ∧ Removed type d key r d' := by
  by_cases hsize : d.size = 0
  · exact ⟨none, d, by rw [dictGenericDelete, if_pos hsize], h, rfl,
      h.not_mem_of_size hsize key, List.Perm.refl _⟩
  obtain ⟨d1, r, hlook, hsearch, hre, hr⟩ := lookup_spec policy h hsize key
  have hans := hr.answers.perm hre.entries
  cases r with
  | none =>
    refine ⟨none, d1, ?_, hre.ok, hre.pauserehash, hans, hre.entries.symm⟩
    rw [dictGenericDelete, if_neg hsize]
    simp [hlook, hsearch]
  | some found =>
    obtain ⟨slot, he⟩ := found
    obtain ⟨d', hunlink, hok, hperm, hpause⟩ := unlinkEntry_spec policy hre.ok hr
    refine ⟨some he, d', ?_, hok, hpause.trans hre.pauserehash, hans, hre.entries.symm.trans hperm⟩
    rw [dictGenericDelete, if_neg hsize]
    simp [hlook, hsearch, hunlink]

lemma dictFindAll_paused (hpause : d.pauserehash ≠ 0) (between : List (Policy × K)) :
    ∃ rs, dictFindAll type d between = some (rs, d) ∧
    List.Forall₂ (fun look r => Answers d.entries look.2 r) between rs := by
  induction between with
  | nil => exact ⟨[], rfl, List.Forall₂.nil⟩
  | cons look between ih =>
    obtain ⟨policy, key⟩ := look
    obtain ⟨r, hfind, hans⟩ := dictFind_paused policy h hpause key
    obtain ⟨rs, hall, hrs⟩ := ih
    refine ⟨r :: rs, ?_, List.Forall₂.cons hans hrs⟩
    simp [dictFindAll, hfind, hall]

lemma dictFindAll_spec (between : List (Policy × K)) :
    ∃ rs d', dictFindAll type d between = some (rs, d') ∧ DictOk type d' ∧
    d'.entries.Perm d.entries ∧ d'.pauserehash = d.pauserehash ∧
    List.Forall₂ (fun look r => Answers d.entries look.2 r) between rs := by
  induction between generalizing d with
  | nil => exact ⟨[], d, rfl, h, List.Perm.refl _, rfl, List.Forall₂.nil⟩
  | cons look between ih =>
    obtain ⟨policy, key⟩ := look
    obtain ⟨r, d1, hfind, hre, hans⟩ := dictFind_spec policy h key
    obtain ⟨rs, d', hall, hok, hperm, hpause, hrs⟩ := ih hre.ok
    refine ⟨r :: rs, d', ?_, hok, hperm.trans hre.entries, hpause.trans hre.pauserehash,
      List.Forall₂.cons hans (hrs.imp fun _ _ ha => ha.perm hre.entries)⟩
    simp [dictFindAll, hfind, hall]

omit [DecidableEq K] in
lemma rehashStepIfRehashing_spec :
    ∃ d', rehashStepIfRehashing type policy d = some d' ∧ Rearranged type d d' := by
  rw [rehashStepIfRehashing]
  split
  · exact dictRehashStep_spec policy h
  · exact ⟨d, rfl, Rearranged.refl h⟩

/-- The first phase finds the entry and pauses rehashing. -/
lemma dictTwoPhaseUnlinkFind_spec (key : K) :
    ∃ r d', dictTwoPhaseUnlinkFind type policy d key = some (r, d') ∧ DictOk type d' ∧
    d'.entries.Perm d.entries ∧ SearchResult d' d.entries key r ∧
    d'.pauserehash = d.pauserehash + if r.isSome then 1 else 0 := by
  by_cases hsize : d.size = 0
  · exact ⟨none, d, by rw [dictTwoPhaseUnlinkFind, if_pos hsize], h, List.Perm.refl _,
      h.not_mem_of_size hsize key, by simp⟩
  obtain ⟨d1, hstep, hre⟩ := rehashStepIfRehashing_spec policy h
  obtain ⟨r, hsearch, hr⟩ := searchTables_spec hre.ok
    (hre.allocated (h.allocated_of_size hsize)) key (fun _ => rfl)
  cases r with
  | none =>
    refine ⟨none, d1, ?_, hre.ok, hre.entries, ?_, by simp [hre.pauserehash]⟩
    · rw [dictTwoPhaseUnlinkFind, if_neg hsize]
      simp [hstep, hsearch]
    · exact fun val hmem => hr val (hre.entries.mem_iff.mpr hmem)
  | some found =>
    refine ⟨some found, { d1 with pauserehash := d1.pauserehash + 1 }, ?_,
      hre.ok.setPause _, hre.entries, hr, by simp [hre.pauserehash]⟩
    rw [dictTwoPhaseUnlinkFind, if_neg hsize]
    simp [hstep, hsearch]

end

/-- The second phase takes out the entry that the first has found. -/
lemma dictTwoPhaseUnlink_spec (policy atFree : Policy)
    (h : DictOk type d) (hpause : d.pauserehash = 0) (key : K) (between : List (Policy × K)) :
    ∃ r rs d', dictTwoPhaseUnlink type policy d key between atFree = some ((r, rs), d') ∧
    Removed type d key r d' ∧
    List.Forall₂ (fun look r => Answers d.entries look.2 r) between rs := by
  obtain ⟨r, d1, hfind, hok, hperm, hr, hp⟩ := dictTwoPhaseUnlinkFind_spec policy h key
  cases r with
  | none =>
    obtain ⟨rs, d2, hall, hok2, hperm2, hp2, hrs⟩ := dictFindAll_spec hok between
    refine ⟨none, rs, d2, ?_, ⟨hok2, ?_, hr, (hperm2.trans hperm).symm⟩,
      hrs.imp fun _ _ ha => ha.perm hperm⟩
    · simp [dictTwoPhaseUnlink, hfind, hall, dictTwoPhaseUnlinkFree]
    · rw [hp2, hp]
      simp
  | some found =>
    obtain ⟨slot, he⟩ := found
    have hpaused : d1.pauserehash ≠ 0 := by simp [hp, hpause]
    obtain ⟨rs, hall, hrs⟩ := dictFindAll_paused hok hpaused between
    obtain ⟨hkey, hmem⟩ := Located.mem hr
    obtain ⟨d2, hunlink, hok2, hperm2, hp2⟩ := unlinkEntry_spec atFree hok hr
    rw [← hkey] at hunlink
    refine ⟨some he, rs, { d2 with pauserehash := d2.pauserehash - 1 }, ?_,
      ⟨hok2.setPause _, ?_, ⟨hkey, hperm.mem_iff.mp hmem⟩, hperm.symm.trans hperm2⟩,
      hrs.imp fun _ _ ha => ha.perm hperm⟩
    · simp [dictTwoPhaseUnlink, hfind, hall, dictTwoPhaseUnlinkFree, hunlink]
    · simp [hp2, hp]

/-- What an insertion does: it adds the entry, or finds one with that key. -/
def Inserted (d : Dict K V) (key : K) (val : V) (d' : Dict K V) : Option (Slot × (K × V)) → Prop
  | some (slot, he) => Located d' key slot he ∧ d'.entries.Perm d.entries
  | none => (∀ val, (key, val) ∉ d.entries) ∧ d'.entries.Perm ((key, val) :: d.entries)

section

variable (h : DictOk type d)

include h

lemma dictFindPositionForInsert_spec (key : K) :
    ∃ r d', dictFindPositionForInsert type policy d key = some (r, d') ∧ DictOk type d' ∧
    d'.entries.Perm d.entries ∧ d'.pauserehash = d.pauserehash ∧
    match r with
    | .inl (slot, he) => Located d' key slot he
    | .inr slot => (∀ val, (key, val) ∉ d.entries) ∧ slot.second = d'.isRehashing ∧
        slot.idx = bucketIndex (type.dictHashKey key) (d'.ht d'.isRehashing).sizeExp ∧
        (d'.ht d'.isRehashing).sizeExp ≠ -1 := by
  obtain ⟨d1, hlook, hre1⟩ := rehashOnLookup_spec policy h (type.dictHashKey key)
  obtain ⟨d2, hexpand, hre2, hsame, hne⟩ := dictExpandIfAutoResizeAllowed_spec policy hre1.ok
  have hidx : (bucketIndex (type.dictHashKey key) d.ht0.sizeExp : Int) < d2.rehashidx →
    bucketIndex (type.dictHashKey key) d.ht0.sizeExp =
      bucketIndex (type.dictHashKey key) d2.ht0.sizeExp := by
    rcases hsame with rfl | hle
    · exact hre1.lookup_index _
    · omega
  obtain ⟨r, hsearch, hr⟩ := searchTables_spec hre2.ok hne key hidx
  have hperm := hre2.entries.trans hre1.entries
  have hpause := hre2.pauserehash.trans hre1.pauserehash
  cases r with
  | some found =>
    refine ⟨.inl found, d2, ?_, hre2.ok, hperm, hpause, hr⟩
    simp [dictFindPositionForInsert, hlook, hexpand, hsearch]
  | none =>
    refine ⟨.inr ⟨d2.isRehashing, bucketIndex (type.dictHashKey key)
      (d2.ht d2.isRehashing).sizeExp⟩, d2, ?_, hre2.ok, hperm, hpause, ?_, rfl, rfl, ?_⟩
    · simp [dictFindPositionForInsert, hlook, hexpand, hsearch]
    · exact fun val hmem => hr val (hperm.mem_iff.mpr hmem)
    · cases hreh : d2.isRehashing with
      | true => exact hre2.ok.exp₁_ne (isRehashing_iff.mp hreh)
      | false => exact fun he => hne (hre2.ok.ht0.table_eq_nil_iff.mpr he)

omit [DecidableEq K] in
lemma dictInsertAtPosition_spec (val : V) (hnew : ∀ val, (key, val) ∉ d.entries)
    (hsecond : slot.second = d.isRehashing)
    (hidx : slot.idx = bucketIndex (type.dictHashKey key) (d.ht d.isRehashing).sizeExp)
    (hexp : (d.ht d.isRehashing).sizeExp ≠ -1) :
    ∃ d', dictInsertAtPosition d key val slot = some d' ∧ DictOk type d' ∧
    d'.entries.Perm ((key, val) :: d.entries) ∧ d'.pauserehash = d.pauserehash := by
  obtain ⟨t, hins, ht, hexp', hperm⟩ := insertHead_spec (h.ht_ok d.isRehashing) hexp (key, val) hidx
  have hentries : (d.setHt d.isRehashing t).entries.Perm ((key, val) :: d.entries) :=
    (entries_setHt_perm d _ t).trans ((hperm.append_right _).trans
      ((entries_perm_ht d d.isRehashing).symm.cons (key, val)))
  refine ⟨d.setHt d.isRehashing t, ?_, ?_, hentries, setHt_pauserehash ..⟩
  · have hle : ¬ slot.idx > dicthtSizeMask (d.ht d.isRehashing).sizeExp := by
      rw [hidx]
      exact Nat.not_lt.mpr Nat.and_le_right
    simp [dictInsertAtPosition, hsecond, hle, hins]
  apply h.setHt ht hexp'
  · rw [(hentries.map fst).nodup_iff, map_cons, nodup_cons]
    refine ⟨?_, h.keys_nodup⟩
    intro hmem
    obtain ⟨e, he, hkey⟩ := mem_map.mp hmem
    change e.1 = key at hkey
    exact hnew e.2 (hkey ▸ he)
  · cases hreh : d.isRehashing with
    | true => exact .inr (.inl rfl)
    | false => exact .inl (by simpa [Dict.isRehashing] using hreh)

lemma dictAddRaw_spec (key : K) (val : V) :
    ∃ r d', dictAddRaw type policy d key val = some (r, d') ∧ DictOk type d' ∧
    d'.pauserehash = d.pauserehash ∧ Inserted d key val d' r := by
  obtain ⟨r, d1, hpos, hok, hperm, hpause, hr⟩ := dictFindPositionForInsert_spec policy h key
  cases r with
  | inl found =>
    refine ⟨some found, d1, ?_, hok, hpause, hr, hperm⟩
    simp [dictAddRaw, hpos]
  | inr slot =>
    obtain ⟨hnew, hsecond, hidx, hexp⟩ := hr
    obtain ⟨d', hins, hok', hperm', hpause'⟩ := dictInsertAtPosition_spec hok val
      (fun val hmem => hnew val (hperm.mem_iff.mp hmem)) hsecond hidx hexp
    refine ⟨none, d', ?_, hok', hpause'.trans hpause, hnew, hperm'.trans (hperm.cons _)⟩
    simp [dictAddRaw, hpos, hins]

lemma dictReplace_spec (key : K) (val : V) :
    ∃ added d', dictReplace type policy d key val = some (added, d') ∧ DictOk type d' ∧
    d'.pauserehash = d.pauserehash ∧
    match added with
    | true => (∀ val, (key, val) ∉ d.entries) ∧ d'.entries.Perm ((key, val) :: d.entries)
    | false => ∃ old rest, d.entries.Perm ((key, old) :: rest) ∧
        d'.entries.Perm ((key, val) :: rest) := by
  obtain ⟨r, d1, hadd, hok, hpause, hr⟩ := dictAddRaw_spec policy h key val
  cases r with
  | none =>
    refine ⟨true, d1, ?_, hok, hpause, hr⟩
    simp [dictReplace, hadd]
  | some found =>
    obtain ⟨slot, he⟩ := found
    obtain ⟨hloc, hperm⟩ := hr
    have hkey := hloc.mem.1
    obtain ⟨chain, hchain, hfind⟩ := hloc
    have hnodup : ((d1.ht slot.second).entries.map fst).Nodup := by
      have := ((entries_perm_ht d1 slot.second).map fst).nodup_iff.mp hok.keys_nodup
      rw [map_append] at this
      exact this.of_append_left
    obtain ⟨t, rest, hset, ht, hexp, hkeep, hout, hin⟩ :=
      setVal_spec (hok.ht_ok slot.second) hnodup val hchain hfind
    have hbefore : d1.entries.Perm ((key, he.2) :: (rest ++ (d1.ht !slot.second).entries)) := by
      rw [← hkey]
      exact (entries_perm_ht d1 slot.second).trans (hout.append_right _)
    have hafter : (d1.setHt slot.second t).entries.Perm
      ((key, val) :: (rest ++ (d1.ht !slot.second).entries)) :=
      (entries_setHt_perm d1 slot.second t).trans (hin.append_right _)
    refine ⟨false, d1.setHt slot.second t, ?_, ?_, ?_, he.2, _, hperm.symm.trans hbefore, hafter⟩
    · simp [dictReplace, hadd, hset]
    · apply hok.setHt ht hexp _ (.inr (.inr hkeep))
      rw [(hafter.map fst).nodup_iff]
      exact (hbefore.map fst).nodup_iff.mp hok.keys_nodup
    · rw [setHt_pauserehash, hpause]

end

/-! ## Calls on a finite map -/

/-- A finite map. -/
abbrev Map (K V : Type) := Verified.Table.Dict K V

/-- What a map answers to a lookup. -/
def mapFind (m : Map K V) (key : K) : Option (K × V) := (m.lookup key).map fun val => (key, val)

/-- The calls on a finite map; those that only resize do nothing to it. -/
def mapCall (m : Map K V) : Op K V → Reply K V × Map K V
  | .add key val =>
    if (m.lookup key).isSome then (.status false, m) else (.status true, m.insert key val)
  | .addRaw key val =>
    if (m.lookup key).isSome then (.entry (mapFind m key), m)
    else (.entry none, m.insert key val)
  | .replace key val => (.status (m.lookup key).isNone, m.insert key val)
  | .find key => (.entry (mapFind m key), m)
  | .delete key => (.status (m.lookup key).isSome, m.erase key)
  | .unlink key => (.entry (mapFind m key), m.erase key)
  | .twoPhaseUnlink key between _ =>
    (.unlinked (mapFind m key) (between.map fun look => mapFind m look.2), m.erase key)
  | .expand _ => (.done, m)
  | .shrink _ => (.done, m)
  | .rehash _ => (.done, m)

/-- A call on the map, its reply kept with those before. -/
def mapStep (s : Map K V × List (Reply K V)) (event : Policy × Op K V) :
    Map K V × List (Reply K V) :=
  ((mapCall s.1 event.2).2, s.2 ++ [(mapCall s.1 event.2).1])

/-- The entries `es` are those of the map. -/
def Represents (m : Map K V) (es : List (K × V)) : Prop :=
  ∀ key val, (key, val) ∈ es ↔ m.lookup key = some val

variable {m : Map K V}

section

variable (h : Represents m es)

include h

lemma Represents.perm (hperm : es'.Perm es) : Represents m es' :=
  fun key val => hperm.mem_iff.trans (h key val)

lemma Represents.answers (hans : Answers es key r) : r = mapFind m key := by
  cases r with
  | some he =>
    obtain ⟨rfl, hmem⟩ := hans
    rw [mapFind, (h he.1 he.2).mp hmem]
    rfl
  | none =>
    cases hlook : m.lookup key with
    | none => rw [mapFind, hlook]; rfl
    | some val => exact absurd ((h key val).mpr hlook) (hans val)

lemma Represents.answers_all {between : List (Policy × K)} {rs : List (Option (K × V))}
    (hans : List.Forall₂ (fun look r => Answers es look.2 r) between rs) :
    rs = between.map fun look => mapFind m look.2 := by
  induction hans with
  | nil => rfl
  | cons hr _ ih => rw [map_cons, ih, h.answers hr]
omit h in
lemma Represents.insert {rest : List (K × V)}
    (h : Represents m es) (hout : ∀ k v, k ≠ key → ((k, v) ∈ es ↔ (k, v) ∈ rest))
    (hnew : ∀ v, (key, v) ∉ rest) (hin : es'.Perm ((key, val) :: rest)) :
    Represents (m.insert key val) es' := by
  intro k v
  rw [hin.mem_iff]
  by_cases hk : k = key
  · subst hk
    simp [hnew v, eq_comm]
  · rw [AList.lookup_insert_ne hk, ← h k v, hout k v hk]
    simp [hk]

lemma Represents.erase (hnodup : (es.map fst).Nodup) (hans : Answers es key r)
    (hperm : es.Perm (r.toList ++ es')) :
    Represents (m.erase key) es' := by
  have hgone : ∀ v, (key, v) ∉ es' := by
    intro v hmem
    cases r with
    | none => exact hans v (hperm.mem_iff.mpr hmem)
    | some he =>
      have := (hperm.map fst).nodup_iff.mp hnodup
      rw [toList_some, singleton_append, map_cons, nodup_cons, hans.1] at this
      exact this.1 (mem_map.mpr ⟨_, hmem, rfl⟩)
  intro k v
  by_cases hk : k = key
  · subst hk
    simp [hgone v]
  rw [AList.lookup_erase_ne hk, ← h k v, hperm.mem_iff, mem_append]
  constructor
  · exact .inr
  rintro (hmem | hmem)
  · cases r with
    | none => simp at hmem
    | some he =>
      rw [toList_some, mem_singleton] at hmem
      exact absurd (by rw [← hans.1, ← hmem]) hk
  · exact hmem

end

lemma mapFind_isSome (m : Map K V) (key : K) : (mapFind m key).isSome = (m.lookup key).isSome := by
  simp [mapFind]

/-- The dict and the map after the same calls. -/
structure Matches (type : DictType K) (m : Map K V) (d : Dict K V) : Prop where
  ok : DictOk type d
  pauserehash : d.pauserehash = 0
  represents : Represents m d.entries

lemma Removed.matches (h : Matches type m d) (hr : Removed type d key r d') :
    Matches type (m.erase key) d' ∧ r = mapFind m key :=
  ⟨⟨hr.ok, hr.pauserehash.trans h.pauserehash,
    h.represents.erase h.ok.keys_nodup hr.answers hr.entries⟩,
    h.represents.answers hr.answers⟩

lemma Rearranged.matches (h : Matches type m d) (hre : Rearranged type d d') : Matches type m d' :=
  ⟨hre.ok, hre.pauserehash.trans h.pauserehash, h.represents.perm hre.entries⟩

lemma Represents.insert_new
    (h : Represents m es) (hnew : ∀ v, (key, v) ∉ es) (hin : es'.Perm ((key, val) :: es)) :
    Represents (m.insert key val) es' :=
  h.insert (fun _ _ _ => Iff.rfl) hnew hin

lemma Inserted.matches {r : Option (Slot × (K × V))} (h : Matches type m d) (hok : DictOk type d')
    (hpause : d'.pauserehash = d.pauserehash) (hr : Inserted d key val d' r) :
    r.map snd = mapFind m key ∧ r.isSome = (m.lookup key).isSome ∧
    Matches type (if (m.lookup key).isSome then m else m.insert key val) d' := by
  have hpause' := hpause.trans h.pauserehash
  rw [← mapFind_isSome]
  cases r with
  | none =>
    have hfind : none = mapFind m key := h.represents.answers (r := none) hr.1
    rw [← hfind]
    refine ⟨rfl, rfl, hok, hpause', ?_⟩
    exact h.represents.insert_new hr.1 hr.2
  | some found =>
    obtain ⟨slot, he⟩ := found
    obtain ⟨hkey, hmem⟩ := hr.1.mem
    have hfind : some he = mapFind m key :=
      h.represents.answers (r := some he) ⟨hkey, hr.2.mem_iff.mp hmem⟩
    rw [← hfind]
    refine ⟨rfl, rfl, hok, hpause', ?_⟩
    exact h.represents.perm hr.2

lemma call_spec (h : Matches type m d) (policy : Policy) (op : Op K V) :
    ∃ d', call type d policy op = some ((mapCall m op).1, d') ∧
    Matches type (mapCall m op).2 d' := by
  cases op with
  | add key val =>
    obtain ⟨r, d', hadd, hok, hpause, hr⟩ := dictAddRaw_spec policy h.ok key val
    obtain ⟨hfind, hsome, hm⟩ := Inserted.matches h hok hpause hr
    refine ⟨d', ?_, ?_⟩
    · rw [call, dictAdd, hadd, mapCall]
      cases r <;> simp [← hsome]
    · rw [mapCall, apply_ite snd]
      exact hm
  | addRaw key val =>
    obtain ⟨r, d', hadd, hok, hpause, hr⟩ := dictAddRaw_spec policy h.ok key val
    obtain ⟨hfind, hsome, hm⟩ := Inserted.matches h hok hpause hr
    refine ⟨d', ?_, ?_⟩
    · rw [call, hadd, mapCall]
      cases r <;> simp [← hsome, ← hfind]
    · rw [mapCall, apply_ite snd]
      exact hm
  | replace key val =>
    obtain ⟨added, d', hrep, hok, hpause, hr⟩ := dictReplace_spec policy h.ok key val
    cases added with
    | true =>
      have hnone : m.lookup key = none := by
        rw [eq_none_iff_forall_ne_some]
        exact fun v hv => hr.1 v ((h.represents key v).mpr hv)
      refine ⟨d', ?_, hok, hpause.trans h.pauserehash, h.represents.insert_new hr.1 hr.2⟩
      rw [call, hrep, mapCall, hnone]
      rfl
    | false =>
      obtain ⟨old, rest, hout, hin⟩ := hr
      have hold : m.lookup key = some old :=
        (h.represents key old).mp (hout.mem_iff.mpr (mem_cons_self ..))
      have hnodup := (hout.map fst).nodup_iff.mp h.ok.keys_nodup
      rw [map_cons, nodup_cons] at hnodup
      refine ⟨d', ?_, hok, hpause.trans h.pauserehash, h.represents.insert ?_ ?_ hin⟩
      · rw [call, hrep, mapCall, hold]
        rfl
      · intro k v hk
        rw [hout.mem_iff]
        simp [hk]
      · exact fun v hmem => hnodup.1 (mem_map.mpr ⟨_, hmem, rfl⟩)
  | find key =>
    obtain ⟨r, d', hfind, hre, hans⟩ := dictFind_spec policy h.ok key
    refine ⟨d', ?_, Rearranged.matches h hre⟩
    rw [call, hfind, h.represents.answers hans]
    rfl
  | delete key =>
    obtain ⟨r, d', hdel, hr⟩ := dictGenericDelete_spec policy h.ok key
    obtain ⟨hm, rfl⟩ := Removed.matches h hr
    refine ⟨d', ?_, hm⟩
    rw [call, dictDelete, hdel, mapCall, ← mapFind_isSome]
    rfl
  | unlink key =>
    obtain ⟨r, d', hdel, hr⟩ := dictGenericDelete_spec policy h.ok key
    obtain ⟨hm, rfl⟩ := Removed.matches h hr
    exact ⟨d', by rw [call, dictUnlink, hdel]; rfl, hm⟩
  | twoPhaseUnlink key between atFree =>
    obtain ⟨r, rs, d', hun, hr, hrs⟩ :=
      dictTwoPhaseUnlink_spec policy atFree h.ok h.pauserehash key between
    obtain ⟨hm, rfl⟩ := Removed.matches h hr
    refine ⟨d', ?_, hm⟩
    rw [call, hun, h.represents.answers_all hrs]
    rfl
  | expand size =>
    obtain ⟨resized, d', heq, hre, _⟩ := dictExpand_spec policy h.ok size
    exact ⟨d', by rw [call, heq]; rfl, Rearranged.matches h hre⟩
  | shrink size =>
    obtain ⟨resized, d', heq, hre⟩ := dictShrink_spec policy h.ok size
    exact ⟨d', by rw [call, heq]; rfl, Rearranged.matches h hre⟩
  | rehash n =>
    obtain ⟨more, d', heq, hre⟩ := dictRehash_spec policy h.ok n
    exact ⟨d', by rw [call, heq]; rfl, Rearranged.matches h hre⟩

lemma matches_create (type : DictType K) : Matches type (∅ : Map K V) dictCreate where
  ok := ⟨tableOk_reset type, tableOk_reset type, nodup_nil, by simp [dictCreate, dictReset],
    by simp [dictCreate, dictReset], by simp [dictCreate], by simp [dictCreate], rfl⟩
  pauserehash := rfl
  represents := by simp [Represents, Dict.entries, HashTable.entries, dictCreate, dictReset]

/-- Any calls, under any policies, on a new dict with any hash function: every
one of them succeeds and answers what it answers on a finite map, and in the

end the tables are in order and hold the entries of that map. -/

theorem dict_refines_map (type : DictType K) (events : List (Policy × Op K V)) :
    ∃ d, run (step type) (dictCreate, []) events = some (d, (events.foldl mapStep (∅, [])).2) ∧
      DictOk type d ∧ Represents (events.foldl mapStep (∅, [])).1 d.entries := by
  have hstep : ∀ (a : Map K V × List (Reply K V)) (s : Dict K V × List (Reply K V)) e,
      (Matches type a.1 s.1 ∧ a.2 = s.2) → ∃ s', step type s e = some s' ∧
        (Matches type (mapStep a e).1 s'.1 ∧ (mapStep a e).2 = s'.2) := by
    rintro ⟨m, replies⟩ ⟨d, _⟩ ⟨policy, op⟩ ⟨hm, rfl⟩
    obtain ⟨d', hcall, hm'⟩ := call_spec hm policy op
    exact ⟨(d', replies ++ [(mapCall m op).1]), by rw [step, hcall]; rfl, hm', rfl⟩
  obtain ⟨⟨d, replies⟩, hrun, hm, hreplies⟩ :=
    run_simulation_total hstep (a := (∅, [])) (s := (dictCreate, []))
      ⟨matches_create type, rfl⟩ events
  exact ⟨d, by rw [hrun, hreplies], hm.ok, hm.represents⟩

end Dice.Ports.DictRefinement
