import Dice.Ports.SkiplistSearch

/-!
# Editing skiplists

Inserting and deleting go level by level: on each level only the links of that
level change, so each level can be looked at on its own.  There the tower that
the search left gets a new link, and the rest of the level stays as it was.
-/

namespace Dice.Ports.SkiplistEdits

open List Verified Run CString Towers Skiplist SkiplistSearch Nat Tower Zskiplist
open Prod (fst)

variable {S : Type}

/-- Only nodes differ. -/
structure SameRecord (zsl zsl' : Zskiplist S) : Prop where
  header : zsl'.header = zsl.header
  tail : zsl'.tail = zsl.tail
  length : zsl'.length = zsl.length
  level : zsl'.level = zsl.level
  fresh : zsl'.fresh = zsl.fresh

/-- Only links differ. -/
structure Frame (zsl zsl' : Zskiplist S) : Prop extends SameRecord zsl zsl' where
  face : ∀ p, face zsl' p = face zsl p

lemma Frame.refl (zsl : Zskiplist S) : Frame zsl zsl := ⟨⟨rfl, rfl, rfl, rfl, rfl⟩, fun _ => rfl⟩

lemma Frame.trans {z1 z2 z3 : Zskiplist S} (h1 : Frame z1 z2) (h2 : Frame z2 z3) : Frame z1 z3 where
  header := h2.header.trans h1.header
  tail := h2.tail.trans h1.tail
  length := h2.length.trans h1.length
  level := h2.level.trans h1.level
  fresh := h2.fresh.trans h1.fresh
  face p := (h2.face p).trans (h1.face p)

variable {zsl : Zskiplist S} {i : Nat} {ts rest as : List (Tower S)} {x : Tower S}
  {update : List (Ptr × Nat)}

lemma setLevel_spec {p : Ptr} {l0 : Link Ptr} (h : zsl.getLevel p i = some l0) (l : Link Ptr) :
    ∃ zsl', zsl.setLevel p i l = some zsl' ∧ Frame zsl zsl' ∧
      ∀ q j, zsl'.getLevel q j = if q = p ∧ j = i then some l else zsl.getLevel q j := by
  obtain ⟨n, hn, hl⟩ := Option.bind_eq_some_iff.mp h
  have hi : i < n.level.length := (List.getElem?_eq_some_iff.mp hl).1
  refine ⟨{ zsl with nodes :=
      Function.update zsl.nodes p (some { n with level := n.level.set i l }) }, ?_,
    ⟨⟨rfl, rfl, rfl, rfl, rfl⟩, ?_⟩, ?_⟩
  · simp [setLevel, hn, hi]
  · intro q
    by_cases hq : q = p
    · subst hq
      simp [face, hn]
    · simp [face, hq]
  intro q j
  by_cases hq : q = p
  · subst hq
    by_cases hj : j = i
    · subst hj
      simp [getLevel, hi]
    · simp [getLevel, hj, hn, getElem?_set_ne (Ne.symm hj)]
  · simp [getLevel, hq]

lemma setBackward_spec {p : Ptr} {f : Face S} (h : face zsl p = some f) (b : Option Ptr) :
    ∃ zsl', zsl.setBackward p b = some zsl' ∧ SameRecord zsl zsl' ∧
    (∀ q j, zsl'.getLevel q j = zsl.getLevel q j) ∧
    ∀ q, face zsl' q =
      if q = p then some { f with backward := b } else face zsl q := by
  obtain ⟨n, hn, rfl⟩ := Option.map_eq_some_iff.mp h
  refine ⟨{ zsl with nodes := Function.update zsl.nodes p (some { n with backward := b }) }, ?_,
    ⟨rfl, rfl, rfl, rfl, rfl⟩, ?_, ?_⟩
  · simp [setBackward, hn]
  · intro q j
    by_cases hq : q = p
    · subst hq
      simp [getLevel, hn]
    · simp [getLevel, hq]
  intro q
  by_cases hq : q = p
  · subst hq
    simp [face]
  · simp [face, hq]

/-- A loop over levels in which each round changes only the links of its level. -/
lemma foldlM_levels {f : Zskiplist S → Nat → Option (Zskiplist S)}
    (Post : Nat → (Ptr → Option (Link Ptr)) → Prop) {levels : List Nat} (hnodup : levels.Nodup)
    (hstep : ∀ z, Frame zsl z → ∀ i ∈ levels, (∀ p, z.getLevel p i = zsl.getLevel p i) →
    ∃ z', f z i = some z' ∧ Frame z z' ∧
      (∀ p, ∀ j ≠ i, z'.getLevel p j = z.getLevel p j) ∧ Post i (z'.getLevel · i)) :
    ∃ z', levels.foldlM f zsl = some z' ∧ Frame zsl z' ∧
    (∀ p, ∀ j ∉ levels, z'.getLevel p j = zsl.getLevel p j) ∧
    ∀ i ∈ levels, Post i (z'.getLevel · i) := by
  induction levels generalizing zsl with
  | nil => exact ⟨zsl, rfl, Frame.refl zsl, fun _ _ _ => rfl, by simp⟩
  | cons i levels ih =>
    rw [nodup_cons] at hnodup
    obtain ⟨z, hz, hframe, hothers, hpost⟩ :=
      hstep zsl (Frame.refl zsl) i (mem_cons_self ..) fun _ => rfl
    have hne : ∀ j ∈ levels, j ≠ i := fun j hj heq => hnodup.1 (heq ▸ hj)
    obtain ⟨z', hz', hframe', hothers', hpost'⟩ := ih hnodup.2 (fun w hw j hj hsame =>
      hstep w (hframe.trans hw) j (mem_cons_of_mem _ hj) fun p =>
        (hsame p).trans (hothers p j (hne j hj)))
    refine ⟨z', by rw [foldlM_cons, hz]; exact hz', hframe.trans hframe', ?_, ?_⟩
    · intro p j hj
      rw [mem_cons, not_or] at hj
      rw [hothers' p j hj.2, hothers p j hj.1]
    intro j hj
    rcases mem_cons.mp hj with rfl | hj
    · have : (fun p => z'.getLevel p j) = fun p => z.getLevel p j :=
        funext fun p => hothers' p j hnodup.1
      rw [this]
      exact hpost
    · exact hpost' j hj

/-! ## The levels of a new tower -/

section Weave

variable {zsl : Zskiplist S} {header : Ptr} {as rest : List (Tower S)} {x : Tower S} {i : Nat}
  {update : List (Ptr × Nat)} {entry : Ptr × Nat}

lemma linkedSpots_congr {link link' : Ptr → Option (Link Ptr)} {ts : List (Tower S)}
    (h : LinkedSpots i link (ts.map spot)) (heq : ∀ t ∈ ts, link' t.ptr = link t.ptr) :
    LinkedSpots i link' (ts.map spot) := by
  apply h.congr
  intro spot hspot _
  obtain ⟨t, ht, rfl⟩ := mem_map.mp hspot
  exact heq t ht

/-- No two of the header and the towers stand at the same place. -/
structure Apart (header : Ptr) (as : List (Tower S)) (x : Tower S) (rest : List (Tower S)) :
    Prop where
  front : ((chain header as).map fst).Nodup
  both : ((chain header (as ++ rest)).map fst).Nodup
  rest_nodup : (rest.map ptr).Nodup
  out : x.ptr ∉ (chain header (as ++ rest)).map fst
  before : ∀ p ∈ (chain header as).map fst, p ≠ x.ptr
  behind : ∀ t ∈ rest, t.ptr ≠ x.ptr
  across : ∀ p ∈ (chain header as).map fst, ∀ t ∈ rest, t.ptr ≠ p

lemma chain_ptrs (header : Ptr) (as rest : List (Tower S)) :
    (chain header (as ++ rest)).map fst = (chain header as).map fst ++ rest.map ptr := by
  rw [chain_append, map_append, map_map]
  rfl

lemma mem_chain (header : Ptr) {t : Tower S} (ht : t ∈ as) : t.ptr ∈ (chain header as).map fst :=
  mem_cons_of_mem _ (mem_map.mpr ⟨t.spot, mem_map_of_mem ht, rfl⟩)

lemma apart (h : ((chain header (as ++ x :: rest)).map fst).Nodup) : Apart header as x rest := by
  rw [chain_ptrs] at h
  have hcons := nodup_cons.mp (perm_middle.nodup_iff.mp h)
  have hboth := nodup_append.mp hcons.2
  rw [← chain_ptrs] at hcons
  refine ⟨hboth.1, hcons.2, hboth.2.1, hcons.1, ?_, ?_, ?_⟩
  · intro p hp heq
    rw [chain_ptrs] at hcons
    exact hcons.1 (heq ▸ mem_append_left _ hp)
  · intro t ht heq
    rw [chain_ptrs] at hcons
    exact hcons.1 (heq ▸ mem_append_right _ (mem_map_of_mem ht))
  · intro p hp t ht heq
    exact hboth.2.2 p hp t.ptr (mem_map_of_mem ht) heq.symm

lemma linkLevel_spec {l : Link Ptr} {u0 : Ptr}
    (hlinks : LinkedSpots i (zsl.getLevel · i) (chain header (as ++ rest)))
    (hnodup : ((chain header (as ++ x :: rest)).map fst).Nodup)
    (hentry0 : update[0]? = some (u0, as.length)) (hentry : update[i]? = some entry)
    (hfinger : Finger header as i entry) (hx : i < x.height)
    (hlevel : zsl.getLevel x.ptr i = some l) :
    ∃ z', linkLevel x.ptr update zsl i = some z' ∧ Frame zsl z' ∧
    (∀ p, ∀ j ≠ i, z'.getLevel p j = zsl.getLevel p j) ∧
    LinkedSpots i (z'.getLevel · i) (chain header (as ++ x :: rest)) := by
  have hapart := apart hnodup
  have hne : entry.1 ≠ x.ptr := hapart.before _ hfinger.mem
  have hlink := hfinger.link_eq hlinks
  obtain ⟨z1, hset1, hframe1, hget1⟩ := setLevel_spec hlevel
    ⟨(above height i rest).map ptr, as.length - entry.2 + dist height i rest -
      (as.length - entry.2)⟩
  have hlink1 : z1.getLevel entry.1 i = some ⟨(above height i rest).map ptr,
    as.length - entry.2 + dist height i rest⟩ := by
    rw [hget1, if_neg fun h => hne h.1]
    exact hlink
  obtain ⟨z2, hset2, hframe2, hget2⟩ := setLevel_spec hlink1 ⟨some x.ptr, as.length - entry.2 + 1⟩
  refine ⟨z2, ?_, hframe1.trans hframe2, ?_, ?_⟩
  · simp only [linkLevel, hentry0, hentry, hlink, some_bind, hset1, hset2]
  · intro p j hj
    rw [hget2, if_neg fun h => hj h.2, hget1, if_neg fun h => hj h.2]
  have hget : ∀ p, z2.getLevel p i = if p = entry.1 then some ⟨some x.ptr, as.length - entry.2 + 1⟩
    else if p = x.ptr then some ⟨(above height i rest).map ptr,
      dist height i rest⟩ else zsl.getLevel p i := by
    simp [hget2, hget1]
  apply hfinger.splice hlinks hapart.front
  · intro p hp hpe
    rw [hget, if_neg hpe, if_neg (hapart.before p hp)]
  · rw [hget, if_pos rfl, above_cons_high hx, dist_cons_high hx]
    rfl
  refine ⟨fun _ => ?_, linkedSpots_congr (linkedSpots_behind hlinks) ?_⟩
  · show z2.getLevel x.ptr i = _
    rw [hget, if_neg hne.symm, if_pos rfl, map_above_spot, dist_spot]
  · intro t ht
    rw [hget, if_neg (hapart.across _ hfinger.mem t ht), if_neg (hapart.behind t ht)]

lemma widenLevel_spec (hlinks : LinkedSpots i (zsl.getLevel · i) (chain header (as ++ rest)))
    (hnodup : ((chain header (as ++ x :: rest)).map fst).Nodup)
    (hentry : update[i]? = some entry) (hfinger : Finger header as i entry)
    (hx : x.height ≤ i) :
    ∃ z', widenLevel update zsl i = some z' ∧ Frame zsl z' ∧
    (∀ p, ∀ j ≠ i, z'.getLevel p j = zsl.getLevel p j) ∧
    LinkedSpots i (z'.getLevel · i) (chain header (as ++ x :: rest)) := by
  have hapart := apart hnodup
  have hlink := hfinger.link_eq hlinks
  obtain ⟨z', hset, hframe, hget⟩ := setLevel_spec hlink
    ⟨(above height i rest).map ptr, as.length - entry.2 + dist height i rest + 1⟩
  refine ⟨z', ?_, hframe, ?_, ?_⟩
  · simp [widenLevel, hentry, hlink, hset]
  · intro p j hj
    rw [hget, if_neg fun h => hj h.2]
  apply hfinger.splice hlinks hapart.front
  · intro p hp hpe
    rw [hget, if_neg fun h => hpe h.1]
  · rw [hget, if_pos ⟨rfl, rfl⟩, above_cons_low hx, dist_cons_low hx, add_assoc]
  refine ⟨fun hhigh => absurd hhigh (not_lt.mpr hx),
    linkedSpots_congr (linkedSpots_behind hlinks) ?_⟩
  intro t ht
  rw [hget, if_neg fun h => hapart.across _ hfinger.mem t ht h.1]

lemma unlinkLevel_spec (hlinks : LinkedSpots i (zsl.getLevel · i) (chain header (as ++ x :: rest)))
    (hnodup : ((chain header (as ++ x :: rest)).map fst).Nodup)
    (hentry : update[i]? = some entry) (hfinger : Finger header as i entry) :
    ∃ z', unlinkLevel x.ptr update zsl i = some z' ∧ Frame zsl z' ∧
    (∀ p, ∀ j ≠ i, z'.getLevel p j = zsl.getLevel p j) ∧
    z'.getLevel x.ptr i = zsl.getLevel x.ptr i ∧
    LinkedSpots i (z'.getLevel · i) (chain header (as ++ rest)) := by
  have hapart := apart hnodup
  have hne : entry.1 ≠ x.ptr := hapart.before _ hfinger.mem
  have hlink := hfinger.link_eq hlinks
  have hbehind := linkedSpots_behind hlinks
  -- The new link of the tower before `x` is the one that the shorter list asks for.
  obtain ⟨z', hset, hframe, hget⟩ := setLevel_spec hlink
    ⟨(above height i rest).map ptr, as.length - entry.2 + dist height i rest⟩
  refine ⟨z', ?_, hframe, ?_, ?_, ?_⟩
  · rcases lt_or_ge i x.height with hx | hx
    · have hlinkx : zsl.getLevel x.ptr i =
        some ⟨(above height i rest).map ptr, dist height i rest⟩ := by
        rw [← map_above_spot, ← dist_spot]
        exact hbehind.1 hx
      rw [above_cons_high hx, dist_cons_high hx] at hlink
      simp [unlinkLevel, hentry, hlink, hlinkx, hset]
    have hforward : (above height i rest).map ptr ≠ some x.ptr := by
      intro heq
      obtain ⟨t, ht, htx⟩ := Option.map_eq_some_iff.mp heq
      obtain ⟨low, rest', rfl, _⟩ := above_eq_some ht
      exact hapart.behind t (by simp) htx
    rw [above_cons_low hx, dist_cons_low hx] at hlink
    simp [unlinkLevel, hentry, hlink, hforward, hset]
  · intro p j hj
    rw [hget, if_neg fun h => hj h.2]
  · rw [hget, if_neg fun h => hne h.1.symm]
  apply hfinger.splice hlinks hapart.front
  · intro p hp hpe
    rw [hget, if_neg fun h => hpe h.1]
  · rw [hget, if_pos ⟨rfl, rfl⟩]
  · apply linkedSpots_congr hbehind.2
    intro t ht
    rw [hget, if_neg fun h => hapart.across _ hfinger.mem t ht h.1]

end Weave

lemma linkedSpots_header {link : Ptr → Option (Link Ptr)} {header : Ptr} (hlow : Low height i ts)
    (hlink : link header = some ⟨none, ts.length⟩) : LinkedSpots i link (chain header ts) := by
  have hspots : Low Prod.snd i (ts.map spot) := by
    intro spot hspot
    obtain ⟨t, ht, rfl⟩ := mem_map.mp hspot
    exact hlow t ht
  refine ⟨fun _ => ?_, ?_⟩
  · rw [map_above_spot, dist_spot, above_of_low hlow, dist_of_low hlow]
    exact hlink
  · rw [← append_nil (ts.map spot)]
    exact (linked_append_low hspots).mpr trivial

lemma openLevel_spec {l : Link Ptr}
    (hlow : Low height i ts) (hl : zsl.getLevel zsl.header i = some l)
    (hend : l.forward = none) (hlength : zsl.length = ts.length) :
    ∃ z', openLevel zsl i = some z' ∧ Frame zsl z' ∧
    (∀ p, ∀ j ≠ i, z'.getLevel p j = zsl.getLevel p j) ∧
    LinkedSpots i (z'.getLevel · i) (chain zsl.header ts) := by
  obtain ⟨z', hset, hframe, hget⟩ := setLevel_spec hl { l with span := zsl.length }
  refine ⟨z', ?_, hframe, ?_, linkedSpots_header hlow ?_⟩
  · simp [openLevel, hl, hset]
  · intro p j hj
    rw [hget, if_neg fun h => hj h.2]
  · rw [hget, if_pos ⟨rfl, rfl⟩, hend, hlength]

lemma raiseLevels_spec (h : Woven zsl ts) {level : Nat} (hle : level ≤ zskiplistMaxlevel) :
    ∃ zsl', raiseLevels zsl level = some zsl' ∧ Woven zsl' ts ∧
    zsl'.level = max zsl.level level ∧ zsl'.header = zsl.header ∧ zsl'.fresh = zsl.fresh := by
  by_cases hlt : level > zsl.level
  · have hnodup : (range' zsl.level (level - zsl.level)).Nodup := nodup_range'
    obtain ⟨z, hz, hframe, hothers, hpost⟩ := foldlM_levels
      (fun i link => LinkedSpots i link (chain zsl.header ts)) hnodup (by
        intro z hz i hi hsame
        rw [mem_range'_1] at hi
        obtain ⟨l, hl, hend⟩ := h.upper i hi.1 (by omega)
        rw [← hsame, ← hz.header] at hl
        rw [← hz.header]
        refine openLevel_spec ?_ hl hend (hz.length.trans h.length)
        intro t ht
        exact le_trans (h.heights t ht).2 hi.1)
    refine ⟨{ z with level := level }, ?_, ?_, (max_eq_right (le_of_lt hlt)).symm,
      hframe.header, hframe.fresh⟩
    · simp [raiseLevels, hlt, hz]
    have hsame : ∀ p, ∀ j ∉ range' zsl.level (level - zsl.level),
      getLevel { z with level := level } p j = zsl.getLevel p j := hothers
    constructor
    case links =>
      intro i hi
      show LinkedSpots i (z.getLevel · i) (chain z.header ts)
      rw [hframe.header]
      rcases lt_or_ge i zsl.level with hold | hnew
      · have : (fun p => z.getLevel p i) = fun p => zsl.getLevel p i := by
          funext p
          exact hothers p i (by rw [mem_range'_1]; omega)
        rw [this]
        exact h.links i hold
      · have hi' : i < level := hi
        exact hpost i (mem_range'_1.mpr ⟨hnew, by omega⟩)
    case upper =>
      intro i hlevel hi
      have hlevel' : level ≤ i := hlevel
      rw [hsame _ _ (by rw [mem_range'_1]; omega)]
      rw [hframe.header]
      exact h.upper i (by omega) hi
    case faces =>
      have : face { z with level := level } = face zsl := funext hframe.face
      rw [this]
      exact h.faces
    case tail => exact hframe.tail.trans h.tail
    case length => exact hframe.length.trans h.length
    case level_pos => exact lt_of_le_of_lt (zero_le _) hlt
    case level_le => exact hle
    case heights => exact fun t ht =>
      ⟨(h.heights t ht).1, le_trans (h.heights t ht).2 (le_of_lt hlt)⟩
    case nodup =>
      rw [hframe.header]
      exact h.nodup
    case fresh =>
      rw [hframe.header, hframe.fresh]
      exact h.fresh
  · refine ⟨zsl, if_neg hlt, h, by omega, rfl, rfl⟩

lemma setBehind_spec {prev : Option Ptr}
    (hfaces : Faces (face zsl) prev rest) (hnodup : (rest.map ptr).Nodup)
    (b : Option Ptr) :
    ∃ z', zsl.setBehind (rest.head?.map ptr) b = some z' ∧
    SameRecord { zsl with tail := if rest = [] then b else zsl.tail } z' ∧
    (∀ q j, z'.getLevel q j = zsl.getLevel q j) ∧
    (∀ q, (∀ t ∈ rest, t.ptr ≠ q) → face z' q = face zsl q) ∧
    Faces (face z') b rest := by
  cases rest with
  | nil =>
    exact ⟨{ zsl with tail := b }, rfl, ⟨rfl, rfl, rfl, rfl, rfl⟩, fun _ _ => rfl,
      fun _ _ => rfl, trivial⟩
  | cons t rest =>
    obtain ⟨z', hset, hrecord, hget, hface⟩ := setBackward_spec hfaces.1 b
    rw [map_cons, nodup_cons] at hnodup
    refine ⟨z', hset, { hrecord with tail := ?_ }, hget, ?_, ?_, hfaces.2.congr ?_⟩
    · rw [hrecord.tail, if_neg (cons_ne_nil _ _)]
    · intro q hq
      rw [hface, if_neg (hq t (mem_cons_self ..)).symm]
    · rw [hface, if_pos rfl]
    intro s hs
    rw [hface, if_neg]
    intro heq
    exact hnodup.1 (heq ▸ mem_map_of_mem hs)

/-! ## Inserting -/

section

variable (zsl : Zskiplist S) (level : Nat) (score : S) (ele : Bytes) (p : Ptr)

lemma zslCreateNode_getLevel (i : Nat) : (zslCreateNode zsl level score ele).2.getLevel p i =
    if p = zsl.fresh then (replicate level ⟨none, 0⟩)[i]? else zsl.getLevel p i := by
  by_cases hp : p = zsl.fresh
  · subst hp
    simp [zslCreateNode, getLevel]
  · simp [zslCreateNode, getLevel, hp]

lemma zslCreateNode_face : face (zslCreateNode zsl level score ele).2 p =
    if p = zsl.fresh then some ⟨ele, score, none, level⟩ else face zsl p := by
  by_cases hp : p = zsl.fresh
  · subst hp
    simp [zslCreateNode, face]
  · simp [zslCreateNode, face, hp]

end

/-- The two loops of `zslInsert` over the levels. -/
lemma weave_spec {u0 : Ptr}
    (hlinks : ∀ i < zsl.level, LinkedSpots i (zsl.getLevel · i) (chain zsl.header (as ++ rest)))
    (hnodup : ((chain zsl.header (as ++ x :: rest)).map fst).Nodup)
    (hentry0 : update[0]? = some (u0, as.length))
    (hfingers : Fingers zsl.header as zsl.level update) (hheight : x.height ≤ zsl.level)
    (hlevels : ∀ i < x.height, ∃ l, zsl.getLevel x.ptr i = some l) :
    ∃ z z', (range x.height).foldlM (linkLevel x.ptr update) zsl = some z ∧
    (range' x.height (z.level - x.height)).foldlM (widenLevel update) z = some z' ∧
    Frame zsl z' ∧
    (∀ i < zsl.level, LinkedSpots i (z'.getLevel · i) (chain zsl.header (as ++ x :: rest))) ∧
    ∀ p, ∀ j ≥ zsl.level, z'.getLevel p j = zsl.getLevel p j := by
  obtain ⟨z, hz, hframe, hothers, hpost⟩ := foldlM_levels (f := linkLevel x.ptr update)
    (fun i link => LinkedSpots i link (chain zsl.header (as ++ x :: rest))) nodup_range (by
      intro z hz i hi hsame
      have hi' : i < x.height := mem_range.mp hi
      obtain ⟨entry, hentry, hfinger⟩ := hfingers i (by omega)
      obtain ⟨l, hl⟩ := hlevels i hi'
      rw [← hsame] at hl
      refine linkLevel_spec ?_ hnodup hentry0 hentry hfinger hi' hl
      simp only [hsame]
      exact hlinks i (by omega))
  obtain ⟨z', hz', hframe', hothers', hpost'⟩ := foldlM_levels (f := widenLevel update)
    (fun i link => LinkedSpots i link (chain zsl.header (as ++ x :: rest)))
    (nodup_range' (s := x.height) (n := z.level - x.height)) (by
      intro z' hz' i hi hsame
      rw [mem_range'_1, hframe.level] at hi
      obtain ⟨entry, hentry, hfinger⟩ := hfingers i (by omega)
      refine widenLevel_spec ?_ hnodup hentry hfinger hi.1
      have hold : ∀ p, z'.getLevel p i = zsl.getLevel p i := fun p =>
        (hsame p).trans (hothers p i (by rw [mem_range]; omega))
      simp only [hold]
      exact hlinks i (by omega))
  refine ⟨z, z', hz, hz', hframe.trans hframe', ?_, ?_⟩
  · intro i hi
    rcases lt_or_ge i x.height with hlow | hhigh
    · have : (fun p => z'.getLevel p i) = fun p => z.getLevel p i := by
        funext p
        exact hothers' p i (by rw [mem_range'_1]; omega)
      rw [this]
      exact hpost i (mem_range.mpr hlow)
    · exact hpost' i (mem_range'_1.mpr ⟨hhigh, by rw [hframe.level]; omega⟩)
  · intro p j hj
    rw [hothers' p j (by rw [mem_range'_1, hframe.level]; omega),
      hothers p j (by rw [mem_range]; omega)]

/-- The backward pointer that `zslInsert` computes. -/
lemma backward_tip {header : Ptr} (hnodup : ((chain header as).map fst).Nodup) :
    (if (tip header as).1 = header then none else some (tip header as).1) = lastPtr none as := by
  rcases eq_nil_or_concat' as with rfl | ⟨as, t, rfl⟩
  · exact if_pos rfl
  have hne : t.ptr ≠ header := by
    intro heq
    rw [chain_ptrs, nodup_append] at hnodup
    exact hnodup.2.2 header (mem_cons_self ..) t.ptr (by simp) heq.symm
  have htip : tip header (as ++ [t]) = t.spot := tip_append_cons header as [] t
  rw [htip, lastPtr_eq, getLast?_concat]
  exact if_neg hne

lemma linkBackward_spec {b : Option Ptr}
    (hlinks : LinkedSpots 0 (zsl.getLevel · 0) (chain zsl.header (as ++ x :: rest)))
    (hnodup : ((chain zsl.header (as ++ x :: rest)).map fst).Nodup)
    (hpos : ∀ t ∈ x :: rest, 0 < t.height)
    (hx : face zsl x.ptr = some ⟨x.ele, x.score, b, x.height⟩)
    (hfaces : Faces (face zsl) none (as ++ rest)) :
    ∃ z', linkBackward zsl x.ptr (tip zsl.header as).1 = some z' ∧
    SameRecord { zsl with tail := if rest = [] then some x.ptr else zsl.tail } z' ∧
    (∀ q j, z'.getLevel q j = zsl.getLevel q j) ∧
    Faces (face z') none (as ++ x :: rest) := by
  have hapart := apart hnodup
  have hlink := link_behind hlinks hpos
  obtain ⟨z1, hset, hrecord, hget, hface⟩ := setBackward_spec hx (lastPtr none as)
  rw [faces_append] at hfaces
  have hrest : Faces (face z1) (lastPtr none as) rest := by
    apply hfaces.2.congr
    intro t ht
    rw [hface, if_neg (hapart.behind t ht)]
  obtain ⟨z2, hbehind, hrecord2, hget2, hfront, hrest'⟩ :=
    setBehind_spec hrest hapart.rest_nodup (some x.ptr)
  refine ⟨z2, ?_, ?_, ?_, ?_⟩
  · simp [linkBackward, backward_tip hapart.front, hset, hget, hlink, hbehind]
  · refine ⟨hrecord2.header.trans hrecord.header, ?_, hrecord2.length.trans hrecord.length,
      hrecord2.level.trans hrecord.level, hrecord2.fresh.trans hrecord.fresh⟩
    rw [hrecord2.tail]
    rw [hrecord.tail]
  · intro q j
    rw [hget2, hget]
  rw [faces_append]
  refine ⟨hfaces.1.congr ?_, ?_, hrest'⟩
  · intro t ht
    have hmem := mem_chain zsl.header ht
    rw [hfront _ (hapart.across _ hmem), hface, if_neg (hapart.before _ hmem)]
  · rw [hfront _ hapart.behind, hface, if_pos rfl]

/-- A node is created and linked behind the towers of `as`. -/
lemma place_spec (h : Woven zsl (as ++ rest)) (hfingers : Fingers zsl.header as zsl.level update)
    (hentry0 : update[0]? = some ((tip zsl.header as).1, as.length)) (score : S) (ele : Bytes)
    {level : Nat} (hpos : 0 < level) (hle : level ≤ zsl.level) :
    ∃ z1 z2 z3, (range level).foldlM (linkLevel zsl.fresh update)
      (zslCreateNode zsl level score ele).2 = some z1 ∧
    (range' level (z1.level - level)).foldlM (widenLevel update) z1 = some z2 ∧
    linkBackward z2 zsl.fresh (tip zsl.header as).1 = some z3 ∧ z3.level = zsl.level ∧
    z3.header = zsl.header ∧
    Woven { z3 with length := z3.length + 1 } (as ++ ⟨zsl.fresh, level, score, ele⟩ :: rest) := by
  obtain ⟨x, hx⟩ : ∃ x : Tower S, x = ⟨zsl.fresh, level, score, ele⟩ := ⟨_, rfl⟩
  obtain ⟨z0, hz0⟩ : ∃ z, z = (zslCreateNode zsl level score ele).2 := ⟨_, rfl⟩
  have hnew : ∀ p ∈ (chain zsl.header (as ++ rest)).map fst, p ≠ zsl.fresh :=
    fun p hp heq => lt_irrefl _ (heq ▸ h.fresh p hp)
  have hget0 : ∀ p i, p ≠ zsl.fresh → z0.getLevel p i = zsl.getLevel p i := by
    intro p i hp
    rw [hz0, zslCreateNode_getLevel, if_neg hp]
  have hheader0 : z0.header = zsl.header := by rw [hz0]; rfl
  have hlevel0 : z0.level = zsl.level := by rw [hz0]; rfl
  have hnodup : ((chain zsl.header (as ++ x :: rest)).map fst).Nodup := by
    rw [chain_ptrs, map_cons, perm_middle.nodup_iff, nodup_cons, ← chain_ptrs]
    exact ⟨fun hmem => hnew _ hmem (by rw [hx]), h.nodup⟩
  have hptr : ∀ t ∈ as ++ rest, t.ptr ≠ zsl.fresh := fun t ht => hnew _ (mem_chain _ ht)
  have hlinks0 : ∀ i < z0.level,
    LinkedSpots i (z0.getLevel · i) (chain z0.header (as ++ rest)) := by
    rw [hheader0, hlevel0]
    intro i hi
    apply (h.links i hi).congr
    intro spot hspot _
    exact hget0 _ _ (hnew _ (mem_map_of_mem hspot))
  have hlevels0 : ∀ i < x.height, ∃ l, z0.getLevel x.ptr i = some l := by
    intro i hi
    rw [hx] at hi ⊢
    refine ⟨⟨none, 0⟩, ?_⟩
    rw [hz0, zslCreateNode_getLevel, if_pos rfl, getElem?_replicate]
    exact if_pos hi
  obtain ⟨z1, z2, hlink, hwiden, hframe, hlinks, hothers⟩ :=
    weave_spec hlinks0 (by rwa [hheader0]) hentry0 (by rwa [hheader0, hlevel0])
      (by rw [hlevel0, hx]; exact hle) hlevels0
  have hheader2 : z2.header = zsl.header := hframe.header.trans hheader0
  have hface2 : ∀ p, face z2 p = if p = zsl.fresh then
    some ⟨ele, score, none, level⟩ else face zsl p := by
    intro p
    rw [hframe.face, hz0, zslCreateNode_face]
  rw [hheader0, hlevel0] at hlinks
  have hheights : ∀ t ∈ as ++ x :: rest, 0 < t.height ∧ t.height ≤ zsl.level := by
    intro t ht
    rcases mem_append.mp ht with ht | ht
    · exact h.heights t (mem_append_left _ ht)
    rcases mem_cons.mp ht with rfl | ht
    · rw [hx]
      exact ⟨hpos, hle⟩
    · exact h.heights t (mem_append_right _ ht)
  obtain ⟨z3, hback, hrecord, hget3, hfaces⟩ := linkBackward_spec
    (by rw [hheader2]; exact hlinks 0 h.level_pos) (by rwa [hheader2])
    (fun t ht => (hheights t (mem_append_right _ ht)).1)
    (by rw [hface2, hx]; exact if_pos rfl)
    (h.faces.congr fun t ht => by rw [hface2, if_neg (hptr t ht)])
  have hlevel3 : z3.level = zsl.level := hrecord.level.trans (hframe.level.trans hlevel0)
  have hheader3 : z3.header = zsl.header := hrecord.header.trans hheader2
  rw [hheader2] at hback
  rw [hx] at hlink hwiden hback
  rw [hz0] at hlink
  refine ⟨z1, z2, z3, hlink, hwiden, hback, hlevel3, hheader3, ?_⟩
  rw [← hx]
  constructor
  case links =>
    show ∀ i < z3.level, LinkedSpots i (z3.getLevel · i) (chain z3.header (as ++ x :: rest))
    rw [hlevel3, hheader3]
    intro i hi
    simp only [hget3]
    exact hlinks i hi
  case upper =>
    show ∀ i, z3.level ≤ i → i < zskiplistMaxlevel →
      ∃ l, z3.getLevel z3.header i = some l ∧ l.forward = none
    rw [hlevel3, hheader3]
    intro i hi hmax
    rw [hget3, hothers _ _ (by rw [hlevel0]; exact hi), hget0 _ _ (hnew _ (mem_cons_self ..))]
    exact h.upper i hi hmax
  case faces => exact hfaces
  case tail =>
    have htail : z2.tail = zsl.tail := hframe.tail.trans (by rw [hz0]; rfl)
    rw [hrecord.tail]
    cases rest with
    | nil => rw [if_pos rfl, getLast?_concat, Option.map_some]
    | cons t rest =>
      rw [if_neg (cons_ne_nil _ _), htail, h.tail, getLast?_append_cons,
        getLast?_append_cons, getLast?_cons_cons]
  case length =>
    have hlength : z3.length = zsl.length :=
      hrecord.length.trans (hframe.length.trans (by rw [hz0]; rfl))
    show z3.length + 1 = _
    rw [hlength, h.length, length_append, length_append, length_cons]
    omega
  case level_pos => exact hlevel3 ▸ h.level_pos
  case level_le => exact hlevel3 ▸ h.level_le
  case heights =>
    rwa [hlevel3]
  case nodup =>
    rwa [hheader3]
  case fresh =>
    have hfresh : z3.fresh = zsl.fresh + 1 :=
      hrecord.fresh.trans (hframe.fresh.trans (by rw [hz0]; rfl))
    rw [hheader3, hfresh, chain_ptrs]
    intro p hp
    rcases mem_cons.mp (perm_middle.mem_iff.mp hp) with rfl | hp
    · rw [hx]
      exact lt_succ_self _
    · rw [← chain_ptrs] at hp
      exact lt_succ_of_lt (h.fresh p hp)

/-- The test of a search, for towers. -/
def onTower (before : Nat → Node S → Bool) (rank : Nat) (t : Tower S) : Bool :=
  before rank ⟨t.ele, t.score, none, []⟩

section Insert

variable [LinearOrder S]

lemma reads_precedes (score : S) (ele : Bytes) :
    Reads (precedes score ele) (onTower (precedes score ele)) := by
  intro rank n t hele hscore
  simp [precedes, onTower, hele, hscore]

/-- `zslInsert` puts a new tower between those that come before it and the others. -/
lemma zslInsert_spec (h : Represents zsl ts) (score : S)
    (ele : Bytes) {level : Nat} (hpos : 0 < level) (hle : level ≤ zskiplistMaxlevel) :
    ∃ as rest zsl', ts = as ++ rest ∧
    zslInsert zsl score ele level = some (zsl', zsl.fresh) ∧ zsl'.header = zsl.header ∧
    Represents zsl' (as ++ ⟨zsl.fresh, level, score, ele⟩ :: rest) ∧
    Reached (onTower (precedes score ele)) as ∧
    ∀ t ∈ rest.head?, onTower (precedes score ele) (as.length + 1) t = false := by
  obtain ⟨as, rest, update, rfl, hsearch, hlen, hfingers, hreached, hstop⟩ :=
    search_spec (reads_precedes score ele) h.toWoven
  obtain ⟨z, hraise, hz, hlevel, hheader, hfresh⟩ := raiseLevels_spec h.toWoven hle
  have hfingers' : Fingers z.header as z.level
    (update ++ replicate (level - zsl.level) (zsl.header, 0)) := by
    intro i hi
    rw [hheader]
    rcases lt_or_ge i zsl.level with hold | hnew
    · rw [getElem?_append_left (by omega)]
      exact hfingers i hold
    refine ⟨(zsl.header, 0), ?_, finger_header (by omega) ?_⟩
    · rw [getElem?_append_right (by omega), getElem?_replicate, if_pos (by omega)]
    · intro t ht
      exact le_trans (h.heights t (mem_append_left _ ht)).2 hnew
  obtain ⟨entry, hentry, hfinger⟩ := hfingers' 0 hz.level_pos
  rw [hfinger.zero fun t ht => (h.heights t (mem_append_left _ ht)).1] at hentry
  obtain ⟨z1, z2, z3, hlink, hwiden, hback, hlevel3, hheader3, hwoven⟩ :=
    place_spec hz hfingers' hentry score ele hpos (by omega)
  rw [hfresh] at hlink hback hwoven
  refine ⟨as, rest, { z3 with length := z3.length + 1 }, rfl, ?_, hheader3.trans hheader,
    ⟨hwoven, ?_⟩, hreached, hstop⟩
  · have hcreate : zslCreateNode z level score ele =
      (zsl.fresh, (zslCreateNode z level score ele).2) := by rw [← hfresh]; rfl
    simp only [zslInsert, hsearch, hraise, some_bind]
    rw [hcreate]
    simp [hlink, hwiden, hentry, hback]
  rw [hlevel3, hlevel]
  rcases lt_or_ge level zsl.level with hlt | hge
  · rw [max_eq_left (le_of_lt hlt)]
    rcases h.level_exact with hone | ⟨t, ht, heq⟩
    · exact .inl hone
    refine .inr ⟨t, ?_, heq⟩
    rcases mem_append.mp ht with ht | ht
    · exact mem_append_left _ ht
    · exact mem_append_right _ (mem_cons_of_mem _ ht)
  · rw [max_eq_right hge]
    exact .inr ⟨⟨zsl.fresh, level, score, ele⟩, by simp, rfl⟩

end Insert

/-- The level becomes the height of the highest tower. -/
lemma lowerLevel_spec {m : Nat} (hpos : 0 < m) (hmax : m ≤ zskiplistMaxlevel)
    (hlinks : ∀ i < m, LinkedSpots i (zsl.getLevel · i) (chain zsl.header ts))
    (hlow : Low height m ts) :
    ∃ m', lowerLevel zsl m = some m' ∧ 0 < m' ∧ m' ≤ m ∧ Low height m' ts ∧
    (m' = 1 ∨ ∃ t ∈ ts, t.height = m') ∧
    ∀ i, m' ≤ i → i < m → ∃ l, zsl.getLevel zsl.header i = some l ∧ l.forward = none := by
  induction m with
  | zero => omega
  | succ m ih =>
    cases m with
    | zero => exact ⟨1, rfl, hpos, le_refl 1, hlow, .inl rfl, fun i _ _ => by omega⟩
    | succ m =>
      have hlink : zsl.getLevel zsl.header (m + 1) =
        some ⟨(above height (m + 1) ts).map ptr, dist height (m + 1) ts⟩ := by
        rw [← map_above_spot, ← dist_spot]
        exact (hlinks (m + 1) (lt_succ_self _)).1 (by show m + 1 < 32; exact hmax)
      have hstep : lowerLevel zsl (m + 2) =
        if (above height (m + 1) ts).map ptr = none
        then lowerLevel zsl (m + 1) else some (m + 2) := by
        simp [lowerLevel, hlink]
      cases habove : above height (m + 1) ts with
      | none =>
        obtain ⟨m', hm', hpos', hle, hlow', hexact, hupper⟩ := ih (succ_pos m)
          (by omega) (fun i hi => hlinks i (by omega)) (above_eq_none habove)
        rw [habove, Option.map_none] at hstep
        refine ⟨m', hstep.trans hm', hpos', by omega, hlow', hexact, ?_⟩
        intro i hi hi'
        rcases lt_or_ge i (m + 1) with hlt | hge
        · exact hupper i hi hlt
        · obtain rfl : i = m + 1 := by omega
          exact ⟨_, hlink, by rw [habove]; rfl⟩
      | some t =>
        obtain ⟨low, rest, rfl, _, hhigh, _⟩ := above_eq_some habove
        rw [habove] at hstep
        refine ⟨m + 2, hstep, hpos, le_refl _, hlow, .inr ⟨t, by simp, ?_⟩,
          fun i _ _ => by omega⟩
        have := hlow t (by simp)
        omega

/-- `zslDeleteNode` takes a tower out; the node stays in memory. -/
lemma zslDeleteNode_spec (h : Woven zsl (as ++ x :: rest))
    (hfingers : Fingers zsl.header as zsl.level update) :
    ∃ zsl', zslDeleteNode zsl x.ptr update = some zsl' ∧ Represents zsl' (as ++ rest) ∧
    zsl'.header = zsl.header ∧ zsl'.fresh = zsl.fresh ∧ zsl'.level ≤ zsl.level := by
  have hapart := apart h.nodup
  have hlink := h.link_zero
  have hfaces := faces_append.mp h.faces
  obtain ⟨z1, hunlink, hframe, hothers, hpost⟩ := foldlM_levels (f := unlinkLevel x.ptr update)
    (fun i link => link x.ptr = zsl.getLevel x.ptr i ∧
      LinkedSpots i link (chain zsl.header (as ++ rest)))
    (nodup_range (n := zsl.level)) (by
      intro z hz i hi hsame
      have hi' := mem_range.mp hi
      obtain ⟨entry, hentry, hfinger⟩ := hfingers i hi'
      rw [← hsame]
      apply unlinkLevel_spec _ h.nodup hentry hfinger
      simp only [hsame]
      exact h.links i hi')
  have hlink1 : z1.getLevel x.ptr 0 = zsl.getLevel x.ptr 0 :=
    (hpost 0 (mem_range.mpr h.level_pos)).1
  obtain ⟨n, hn, hface⟩ := Option.map_eq_some_iff.mp ((hframe.face x.ptr).trans hfaces.2.1)
  have hbackward : n.backward = lastPtr none as := congrArg Face.backward hface
  have hrest : Faces (face z1) (some x.ptr) rest := hfaces.2.2.congr fun t _ => hframe.face t.ptr
  obtain ⟨z2, hbehind, hrecord, hget, hfront, hrest'⟩ :=
    setBehind_spec hrest hapart.rest_nodup (lastPtr none as)
  have hheader2 : z2.header = zsl.header := hrecord.header.trans hframe.header
  have hlevel2 : z2.level = zsl.level := hrecord.level.trans hframe.level
  have hlinks : ∀ i < zsl.level,
    LinkedSpots i (z2.getLevel · i) (chain z2.header (as ++ rest)) := by
    intro i hi
    rw [hheader2]
    simp only [hget]
    exact (hpost i (mem_range.mpr hi)).2
  have hheights : ∀ t ∈ as ++ rest, 0 < t.height ∧ t.height ≤ zsl.level := by
    intro t ht
    apply h.heights
    rcases mem_append.mp ht with ht | ht
    · exact mem_append_left _ ht
    · exact mem_append_right _ (mem_cons_of_mem _ ht)
  obtain ⟨m, hlower, hmpos, hmle, hlow, hexact, hupper⟩ := lowerLevel_spec h.level_pos h.level_le
    hlinks fun t ht => (hheights t ht).2
  refine ⟨{ z2 with level := m, length := z2.length - 1 }, ?_, ⟨?_, hexact⟩, hheader2,
    hrecord.fresh.trans hframe.fresh, hmle⟩
  · simp [zslDeleteNode, hunlink, hn, hlink1, hlink, hbackward, hbehind, hlevel2, hlower]
  constructor
  case links => exact fun i hi => hlinks i (lt_of_lt_of_le hi hmle)
  case upper =>
    intro i hi hmax
    show ∃ l, z2.getLevel z2.header i = some l ∧ l.forward = none
    rcases lt_or_ge i zsl.level with hlt | hge
    · exact hupper i hi hlt
    · rw [hget, hheader2, hothers _ _ (by rw [mem_range]; omega)]
      exact h.upper i hge hmax
  case faces =>
    show Faces (face z2) none (as ++ rest)
    rw [faces_append]
    refine ⟨hfaces.1.congr ?_, hrest'⟩
    intro t ht
    rw [hfront _ (hapart.across _ (mem_chain zsl.header ht)), hframe.face]
  case tail =>
    rw [hrecord.tail]
    cases rest with
    | nil => rw [if_pos rfl, lastPtr_eq, Option.or_none, append_nil]
    | cons t rest =>
      rw [if_neg (cons_ne_nil _ _), hframe.tail, h.tail, getLast?_append_cons,
        getLast?_append_cons, getLast?_cons_cons]
  case length =>
    have hlength : z2.length = zsl.length := hrecord.length.trans hframe.length
    show z2.length - 1 = _
    rw [hlength, h.length, length_append, length_append, length_cons]
    omega
  case level_pos => exact hmpos
  case level_le => exact le_trans hmle h.level_le
  case heights => exact fun t ht => ⟨(hheights t ht).1, hlow t ht⟩
  case nodup =>
    rw [hheader2]
    exact hapart.both
  case fresh =>
    rw [hheader2, hrecord.fresh.trans hframe.fresh, chain_ptrs]
    intro p hp
    apply h.fresh
    rw [chain_ptrs]
    exact perm_middle.mem_iff.mpr (mem_cons_of_mem _ hp)

end Dice.Ports.SkiplistEdits
