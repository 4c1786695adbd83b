import Dice.Verified.SortedList
import Dice.Ports.SkiplistEdits
import Mathlib.Data.Prod.Lex

/-!
# What the operations of a skiplist do

The towers of a skiplist are sorted by score and element.  Inserting puts a pair
at its place, deleting takes it out, changing a score does both or, if the pair
stays where it is, neither, and the range deletions take out what is in the range.
-/

namespace Dice.Ports.SkiplistOperations

open Option Nat

open List Verified Run CString ByteOrder SortedList Towers
open Skiplist SkiplistSearch SkiplistEdits

variable {S : Type}

variable {zsl : Zskiplist S} {as rest ts : List (Tower S)} {update : List (Ptr × Nat)}

section

variable (h : Woven zsl (as ++ rest)) (hfingers : Fingers zsl.header as zsl.level update)

include h hfingers

lemma fingers_first : update[0]? = some ((tip zsl.header as).1, as.length) := by
  obtain ⟨entry, hentry, hfinger⟩ := hfingers 0 h.level_pos
  rw [hentry, hfinger.zero fun t ht => (h.heights t (mem_append_left _ ht)).1]

lemma found_spec : found zsl update = some (rest.head?.map Tower.ptr) := by
  obtain ⟨entry, hentry, hfinger⟩ := hfingers 0 h.level_pos
  have hlink := hfinger.link_eq (h.links 0 h.level_pos)
  rw [above_zero fun t ht => (h.heights t (mem_append_right _ ht)).1] at hlink
  simp [found, hentry, hlink]

end

lemma free_spec (h : Represents zsl ts) {p : Ptr}
    (hp : p ∉ (chain zsl.header ts).map Prod.fst) : Represents (zslFreeNode zsl p) ts := by
  have hnode : ∀ q ∈ (chain zsl.header ts).map Prod.fst,
    (zslFreeNode zsl p).nodes q = zsl.nodes q := by
    intro q hq
    apply Function.update_of_ne
    rintro rfl
    exact hp hq
  have hget : ∀ q ∈ (chain zsl.header ts).map Prod.fst, ∀ i,
    (zslFreeNode zsl p).getLevel q i = zsl.getLevel q i := by
    intro q hq i
    rw [Zskiplist.getLevel, hnode q hq, Zskiplist.getLevel]
  refine ⟨{ h with links := ?_, upper := ?_, faces := ?_ }, h.level_exact⟩
  · intro i hi
    apply (h.links i hi).congr
    intro spot hspot _
    exact hget _ (mem_map_of_mem hspot) i
  · intro i hi hmax
    show ∃ l, (zslFreeNode zsl p).getLevel zsl.header i = some l ∧ l.forward = none
    rw [hget _ (mem_cons_self ..)]
    exact h.upper i hi hmax
  · apply h.faces.congr
    intro t ht
    rw [Zskiplist.face, hnode _ (mem_chain _ ht), Zskiplist.face]

lemma deleteFree_spec {x : Tower S} (h : Represents zsl (as ++ x :: rest))
    (hfingers : Fingers zsl.header as zsl.level update) :
    ∃ z, zslDeleteNode zsl x.ptr update = some z ∧ Represents (zslFreeNode z x.ptr) (as ++ rest) ∧
    Fingers (zslFreeNode z x.ptr).header as (zslFreeNode z x.ptr).level update := by
  obtain ⟨z, hdelete, hz, hheader, _, hlevel⟩ := zslDeleteNode_spec h.toWoven hfingers
  refine ⟨z, hdelete, free_spec hz ?_, ?_⟩
  · rw [hheader]
    exact (apart h.nodup).out
  intro i hi
  show ∃ entry, update[i]? = some entry ∧ Finger z.header as i entry
  rw [hheader]
  exact hfingers i (lt_of_lt_of_le hi hlevel)

/-- Nodes are deleted as long as they are in the range. -/
lemma deleteLoop_spec {inside : Nat → Node S → Bool} {test : Nat → Tower S → Bool}
    (hreads : Reads inside test) (h : Represents zsl (as ++ rest))
    (hfingers : Fingers zsl.header as zsl.level update) (fuel : Nat) (hfuel : rest.length < fuel)
    (traversed : Nat) :
    ∃ cut rest' zsl', rest = cut ++ rest' ∧
    deleteLoop update inside fuel zsl (rest.head?.map Tower.ptr) traversed =
      some (zsl', cut.map Tower.ele) ∧
    Represents zsl' (as ++ rest') ∧
    (∀ k t, cut[k]? = some t → test (traversed + k) t) ∧
    ∀ t ∈ rest'.head?, test (traversed + cut.length) t = false := by
  induction fuel generalizing zsl rest traversed with
  | zero => omega
  | succ fuel ih =>
    cases rest with
    | nil => exact ⟨[], [], zsl, rfl, rfl, h, by simp, by simp⟩
    | cons x rest =>
      have hx : x ∈ as ++ x :: rest := by simp
      obtain ⟨n, hn, hele, hscore, _⟩ := h.node hx
      have hstep : deleteLoop update inside (fuel + 1) zsl (some x.ptr) traversed =
        if test traversed x then do
          let l ← zsl.getLevel x.ptr 0
          let zsl ← zslDeleteNode zsl x.ptr update
          let r ← deleteLoop update inside fuel (zslFreeNode zsl x.ptr) l.forward (traversed + 1)
          some (r.1, x.ele :: r.2)
        else some (zsl, []) := by
        simp [deleteLoop, hn, hreads _ n x hele hscore, hele]
      cases htest : test traversed x with
      | false =>
        refine ⟨[], x :: rest, zsl, rfl, ?_, h, by simp, ?_⟩
        · rw [head?_cons, map_some, hstep, htest]
          rfl
        · rintro _ ⟨⟩
          exact htest
      | true =>
        obtain ⟨z, hdelete, hfree, hfingers'⟩ := deleteFree_spec h hfingers
        obtain ⟨cut, rest', zsl', rfl, hloop, hrep, hcut, hstop⟩ :=
          ih hfree hfingers' (lt_of_succ_lt_succ hfuel) (traversed + 1)
        refine ⟨x :: cut, rest', zsl', rfl, ?_, hrep, ?_, ?_⟩
        · rw [head?_cons, map_some, hstep, htest]
          simp only [if_true, h.link_zero, hdelete, hloop, some_bind, map_cons]
        · intro k t hk
          cases k with
          | zero =>
            cases hk
            exact htest
          | succ k =>
            have := hcut k t hk
            rwa [add_assoc, add_comm 1] at this
        · intro t ht
          have := hstop t ht
          rwa [add_assoc, add_comm 1] at this

lemma deleteRange_spec {before inside : Nat → Node S → Bool}
    {test test' : Nat → Tower S → Bool} (hreads : Reads before test) (hreads' : Reads inside test')
    (h : Represents zsl ts) :
    ∃ as cut rest zsl', ts = as ++ (cut ++ rest) ∧
    deleteRange zsl before inside = some (zsl', cut.map Tower.ele) ∧
    Represents zsl' (as ++ rest) ∧ Reached test as ∧
    (∀ t ∈ (cut ++ rest).head?, test (as.length + 1) t = false) ∧
    (∀ k t, cut[k]? = some t → test' (as.length + 1 + k) t) ∧
    ∀ t ∈ rest.head?, test' (as.length + 1 + cut.length) t = false := by
  obtain ⟨as, rest, update, rfl, hsearch, _, hfingers, hreached, hstop⟩ :=
    search_spec hreads h.toWoven
  obtain ⟨cut, rest', zsl', rfl, hloop, hrep, hcut, hend⟩ := deleteLoop_spec hreads' h hfingers
    (zsl.length + 1) (by rw [h.length, length_append]; omega) (as.length + 1)
  refine ⟨as, cut, rest', zsl', rfl, ?_, hrep, hreached, hstop, hcut, hend⟩
  simp only [deleteRange, hsearch, fingers_first h.toWoven hfingers, found_spec h.toWoven hfingers,
    some_bind, hloop]

/-! ## The order -/

section Order

variable [LinearOrder S]

/-- What the towers are ordered by. -/
def key (t : Tower S) : S ×ₗ Bytes := toLex (t.score, t.ele)

variable {score : S} {ele : Bytes} {as rest ts : List (Tower S)} {zsl : Zskiplist S}

lemma onTower_precedes {rank : Nat} {t : Tower S} :
    onTower (precedes score ele) rank t ↔ key t < toLex (score, ele) := by
  rw [key, Prod.Lex.toLex_lt_toLex, onTower, precedes]
  simp [sdscmp, compareBytes_lt]

lemma cut_towers {test : Nat → Tower S → Bool} {p : S ×ₗ Bytes → Prop}
    (htest : ∀ rank t, test rank t ↔ p (key t))
    (hp : ∀ a ∈ (as ++ rest).map key, ∀ b ∈ (as ++ rest).map key, a < b → p b → p a)
    (h : Sorted ((as ++ rest).map key)) (hreached : Reached test as)
    (hstop : ∀ t ∈ rest.head?, test (as.length + 1) t = false) :
    (∀ t ∈ as, p (key t)) ∧ ∀ t ∈ rest, ¬ p (key t) := by
  rw [map_append] at h hp
  obtain ⟨hfront, hback⟩ := h.cut hp (by
    intro k hk
    rw [getLast?_map] at hk
    obtain ⟨t, ht, rfl⟩ := map_eq_some_iff.mp hk
    exact (htest _ t).mp (hreached t ht)) (by
    intro k hk
    rw [head?_map] at hk
    obtain ⟨t, ht, rfl⟩ := map_eq_some_iff.mp hk
    intro hpk
    have := hstop t ht
    rw [(htest _ t).mpr hpk] at this
    cases this)
  exact ⟨fun t ht => hfront _ (mem_map_of_mem ht), fun t ht => hback _ (mem_map_of_mem ht)⟩

lemma cut_precedes
    (h : Sorted ((as ++ rest).map key)) (hreached : Reached (onTower (precedes score ele)) as)
    (hstop : ∀ t ∈ rest.head?, onTower (precedes score ele) (as.length + 1) t = false) :
    (∀ t ∈ as, key t < toLex (score, ele)) ∧ ∀ t ∈ rest, toLex (score, ele) ≤ key t := by
  obtain ⟨hfront, hback⟩ := cut_towers (p := (· < toLex (score, ele)))
    (fun _ _ => onTower_precedes) (fun _ _ _ _ hab hb => hab.trans hb) h hreached hstop
  exact ⟨hfront, fun t ht => not_lt.mp (hback t ht)⟩

lemma insert_spec (h : Represents zsl ts) (hsorted : Sorted (ts.map key))
    (hnew : toLex (score, ele) ∉ ts.map key) {level : Nat} (hpos : 0 < level)
    (hle : level ≤ zskiplistMaxlevel) :
    ∃ as rest zsl', ts = as ++ rest ∧
    zslInsert zsl score ele level = some (zsl', zsl.fresh) ∧ zsl'.header = zsl.header ∧
    Represents zsl' (as ++ ⟨zsl.fresh, level, score, ele⟩ :: rest) ∧
    (as ++ ⟨zsl.fresh, level, score, ele⟩ :: rest).map key =
      insertKey (toLex (score, ele)) (ts.map key) := by
  obtain ⟨as, rest, zsl', rfl, hinsert, hheader, hrep, hreached, hstop⟩ :=
    zslInsert_spec h score ele hpos hle
  obtain ⟨hfront, hback⟩ := cut_precedes hsorted hreached hstop
  refine ⟨as, rest, zsl', rfl, hinsert, hheader, hrep, ?_⟩
  rw [map_append, map_append, insertKey_append]
  · rfl
  · intro k hk
    obtain ⟨t, ht, rfl⟩ := mem_map.mp hk
    exact hfront t ht
  intro k hk
  obtain ⟨t, ht, rfl⟩ := mem_map.mp hk
  refine lt_of_le_of_ne (hback t ht) ?_
  intro heq
  apply hnew
  rw [heq]
  exact mem_map_of_mem (mem_append_right _ ht)

/-- The search for a pair that is there ends in front of it. -/
lemma search_mem (h : Woven zsl ts) (hsorted : Sorted (ts.map key))
    (hmem : toLex (score, ele) ∈ ts.map key) :
    ∃ as x rest update, ts = as ++ x :: rest ∧ search zsl (precedes score ele) = some update ∧
    Fingers zsl.header as zsl.level update ∧ x.score = score ∧ x.ele = ele := by
  obtain ⟨as, rest, update, rfl, hsearch, _, hfingers, hreached, hstop⟩ :=
    search_spec (reads_precedes score ele) h
  obtain ⟨hfront, hback⟩ := cut_precedes hsorted hreached hstop
  obtain ⟨t, ht, hkey⟩ := mem_map.mp hmem
  have htrest : t ∈ rest := by
    rcases mem_append.mp ht with ht | ht
    · exact absurd hkey (hfront t ht).ne
    · exact ht
  cases rest with
  | nil => simp at htrest
  | cons x rest =>
    refine ⟨as, x, rest, update, rfl, hsearch, hfingers, ?_⟩
    have hx : key x = toLex (score, ele) := by
      apply le_antisymm _ (hback x (mem_cons_self ..))
      rw [← hkey]
      rcases mem_cons.mp htrest with rfl | ht
      · exact le_refl _
      · rw [map_append] at hsorted
        have := pairwise_cons.mp (pairwise_append.mp hsorted).2.1
        exact le_of_lt (this.1 _ (mem_map_of_mem ht))
    exact ⟨congrArg (fun k => (ofLex k).1) hx, congrArg (fun k => (ofLex k).2) hx⟩

lemma zslDelete_spec (h : Represents zsl ts)
    (hsorted : Sorted (ts.map key)) (score : S) (ele : Bytes) :
    ∃ zsl', zslDelete zsl score ele = some (zsl', decide (toLex (score, ele) ∈ ts.map key)) ∧
    Represents zsl' (ts.filter (key · ≠ toLex (score, ele))) := by
  by_cases hmem : toLex (score, ele) ∈ ts.map key
  · obtain ⟨as, x, rest, update, rfl, hsearch, hfingers, rfl, rfl⟩ :=
      search_mem h.toWoven hsorted hmem
    obtain ⟨n, hn, hele, hscore, _⟩ := h.node (t := x) (by simp)
    obtain ⟨z, hdelete, hfree, _⟩ := deleteFree_spec h hfingers
    refine ⟨zslFreeNode z x.ptr, ?_, ?_⟩
    · simp only [zslDelete, hsearch, found_spec h.toWoven hfingers, head?_cons,
        map_some, hn, hele, hscore, sdscmp, compareBytes_eq.mpr rfl, and_self, if_true,
        hdelete, hmem, some_bind, decide_true]
    · rw [hsorted.filter_ne (p := (key · ≠ toLex (x.score, x.ele))) fun _ => decide_eq_true_iff]
      exact hfree
  obtain ⟨as, rest, update, rfl, hsearch, _, hfingers, _⟩ :=
    search_spec (reads_precedes score ele) h.toWoven
  refine ⟨zsl, ?_, ?_⟩
  · simp only [zslDelete, hsearch, found_spec h.toWoven hfingers, some_bind, hmem]
    cases rest with
    | nil => rfl
    | cons x rest =>
      obtain ⟨n, hn, hele, hscore, _⟩ := h.node (t := x) (by simp)
      have hne : ¬ (score = n.score ∧ sdscmp n.ele ele = 0) := by
        rintro ⟨rfl, hcmp⟩
        rw [sdscmp, compareBytes_eq] at hcmp
        apply hmem
        rw [← hcmp, hele, hscore]
        exact mem_map_of_mem (f := key) (by simp)
      simp [hn, hne]
  rw [filter_eq_self.mpr]
  · exact h
  intro t ht
  apply decide_eq_true
  intro heq
  exact hmem (heq ▸ mem_map_of_mem ht)

omit [LinearOrder S] in
lemma setScore_spec {p : Ptr} {f : Face S} (h : Zskiplist.face zsl p = some f) (score : S) :
    ∃ zsl', zsl.setScore p score = some zsl' ∧ SameRecord zsl zsl' ∧
    (∀ q j, zsl'.getLevel q j = zsl.getLevel q j) ∧
    ∀ q, Zskiplist.face zsl' q =
      if q = p then some { f with score := score } else Zskiplist.face zsl q := by
  obtain ⟨n, hn, rfl⟩ := map_eq_some_iff.mp h
  refine ⟨{ zsl with nodes := Function.update zsl.nodes p (some { n with score := score }) }, ?_,
    ⟨rfl, rfl, rfl, rfl, rfl⟩, ?_, ?_⟩
  · simp [Zskiplist.setScore, hn]
  · intro q j
    by_cases hq : q = p
    · subst hq
      simp [Zskiplist.getLevel, hn]
    · simp [Zskiplist.getLevel, hq]
  intro q
  by_cases hq : q = p
  · subst hq
    simp [Zskiplist.face]
  · simp [Zskiplist.face, hq]

omit [LinearOrder S] in
lemma rescore_spec {x : Tower S} (h : Represents zsl (as ++ x :: rest)) (score : S) :
    ∃ zsl', zsl.setScore x.ptr score = some zsl' ∧
    Represents zsl' (as ++ { x with score := score } :: rest) := by
  have hapart := apart h.nodup
  have hfaces := faces_append.mp h.faces
  obtain ⟨z, hset, hrecord, hget, hface⟩ := setScore_spec hfaces.2.1 score
  have hchain : chain z.header (as ++ { x with score := score } :: rest) =
    chain zsl.header (as ++ x :: rest) := by
    rw [hrecord.header, chain_append, chain_append]
    rfl
  have hheights : (as ++ { x with score := score } :: rest).map Tower.height =
    (as ++ x :: rest).map Tower.height := by simp
  have hptrs : (as ++ { x with score := score } :: rest).map Tower.ptr =
    (as ++ x :: rest).map Tower.ptr := by simp
  refine ⟨z, hset, ⟨⟨?_, ?_, ?_, ?_, ?_, ?_, ?_, ?_, ?_, ?_⟩, ?_⟩⟩
  · rw [hrecord.level, hchain]
    simp only [hget]
    exact h.links
  · rw [hrecord.level, hrecord.header]
    simp only [hget]
    exact h.upper
  · rw [faces_append]
    refine ⟨hfaces.1.congr ?_, ?_, hfaces.2.2.congr ?_⟩
    · intro t ht
      rw [hface, if_neg (hapart.before _ (mem_chain _ ht))]
    · rw [hface, if_pos rfl]
    · intro t ht
      rw [hface, if_neg (hapart.behind t ht)]
  · rw [hrecord.tail, h.tail, ← getLast?_map, ← getLast?_map, hptrs]
  · rw [hrecord.length, h.length]
    simp
  · rw [hrecord.level]
    exact h.level_pos
  · rw [hrecord.level]
    exact h.level_le
  · intro t ht
    have hmem := mem_map_of_mem (f := Tower.height) ht
    rw [hheights] at hmem
    obtain ⟨s, hs, heq⟩ := mem_map.mp hmem
    rw [hrecord.level, ← heq]
    exact h.heights s hs
  · rw [hchain]
    exact h.nodup
  · rw [hchain, hrecord.fresh]
    exact h.fresh
  rw [hrecord.level]
  rcases h.level_exact with hone | ⟨t, ht, heq⟩
  · exact .inl hone
  have hmem := mem_map_of_mem (f := Tower.height) ht
  rw [← hheights] at hmem
  obtain ⟨s, hs, heq'⟩ := mem_map.mp hmem
  exact .inr ⟨s, hs, heq'.trans heq⟩

omit [LinearOrder S] in
lemma neighbour_spec (h : Woven zsl ts)
    {o : Option (Tower S)} (ho : ∀ t ∈ o, t ∈ ts) (ok : S → Bool) :
    zsl.neighbour (o.map Tower.ptr) ok = some (decide (∀ t ∈ o, ok t.score)) := by
  cases o with
  | none => simp [Zskiplist.neighbour]
  | some t =>
    obtain ⟨m, hm, _, hscore, _⟩ := h.node (ho t rfl)
    simp [Zskiplist.neighbour, hm, hscore]

lemma keepsPlace_spec {x : Tower S}
    (h : Woven zsl (as ++ x :: rest)) {n : Node S} (hn : zsl.nodes x.ptr = some n) (newscore : S) :
    keepsPlace zsl n (rest.head?.map Tower.ptr) newscore =
    some (decide ((∀ t ∈ as.getLast?, t.score < newscore) ∧
      ∀ t ∈ rest.head?, newscore < t.score)) := by
  have hface := (faces_append.mp h.faces).2.1
  have hbackward : n.backward = as.getLast?.map Tower.ptr := by
    rw [Zskiplist.face, hn, map_some, some.injEq] at hface
    rw [← Option.or_none (o := Option.map _ _), ← lastPtr_eq]
    exact congrArg Face.backward hface
  have hleft := neighbour_spec h (o := as.getLast?) (fun t ht =>
    mem_append_left _ (mem_of_getLast? ht)) (· < newscore)
  have hright := neighbour_spec h (o := rest.head?) (fun t ht =>
    mem_append_right _ (mem_cons_of_mem _ (mem_of_mem_head? ht))) (· > newscore)
  simp [keepsPlace, hbackward, hleft, hright]

lemma fst_le_of_lt {a b : S ×ₗ Bytes} (h : a < b) : (ofLex a).1 ≤ (ofLex b).1 := by
  rcases Prod.Lex.lt_iff.mp h with h | h
  · exact le_of_lt h
  · exact le_of_eq h.1

/-- A pair whose new score lies between those of its neighbours stays where it is. -/
lemma insertKey_between {newscore : S} (ele : Bytes)
    (hsorted : Sorted ((as ++ rest).map key)) (hleft : ∀ t ∈ as.getLast?, t.score < newscore)
    (hright : ∀ t ∈ rest.head?, newscore < t.score) :
    insertKey (toLex (newscore, ele)) ((as ++ rest).map key) =
    as.map key ++ toLex (newscore, ele) :: rest.map key := by
  rw [map_append] at hsorted ⊢
  have hpair := pairwise_append.mp hsorted
  have hfront := (Sorted.cut (p := fun k => (ofLex k).1 < newscore)
    (show Sorted (as.map key ++ []) by rw [append_nil]; exact hpair.1)
    (fun a _ b _ hab hb => lt_of_le_of_lt (fst_le_of_lt hab) hb) (by
      intro k hk
      rw [getLast?_map] at hk
      obtain ⟨t, ht, rfl⟩ := map_eq_some_iff.mp hk
      exact hleft t ht) (by simp)).1
  have hback := (Sorted.cut (p := fun k => (ofLex k).1 ≤ newscore)
    (show Sorted ([] ++ rest.map key) from hpair.2.1)
    (fun a _ b _ hab hb => le_trans (fst_le_of_lt hab) hb) (by simp) (by
      intro k hk
      rw [head?_map] at hk
      obtain ⟨t, ht, rfl⟩ := map_eq_some_iff.mp hk
      exact not_le.mpr (hright t ht))).2
  apply insertKey_append
  · exact fun k hk => Prod.Lex.lt_iff.mpr (.inl (hfront k hk))
  · exact fun k hk => Prod.Lex.lt_iff.mpr (.inl (not_le.mp (hback k hk)))

/-- The pair of an element gets another score; all other nodes stay. -/
lemma zslUpdateScore_spec (h : Represents zsl ts)
    (hsorted : Sorted (ts.map key)) (hunique : (ts.map Tower.ele).Nodup) {curscore : S}
    (hmem : toLex (curscore, ele) ∈ ts.map key) (newscore : S) {level : Nat}
    (hpos : 0 < level) (hle : level ≤ zskiplistMaxlevel) :
    ∃ as x rest as' p height rest' zsl', ts = as ++ x :: rest ∧ x.score = curscore ∧
    x.ele = ele ∧ as ++ rest = as' ++ rest' ∧
    zslUpdateScore zsl curscore ele newscore level = some (zsl', p) ∧
    Represents zsl' (as' ++ ⟨p, height, newscore, ele⟩ :: rest') ∧
    (as' ++ ⟨p, height, newscore, ele⟩ :: rest').map key =
      insertKey (toLex (newscore, ele)) ((as ++ rest).map key) := by
  obtain ⟨as, x, rest, update, rfl, hsearch, hfingers, rfl, rfl⟩ :=
    search_mem h.toWoven hsorted hmem
  obtain ⟨n, hn, hele, hscore, _⟩ := h.node (t := x) (by simp)
  have hsorted' : Sorted ((as ++ rest).map key) := by
    apply List.Pairwise.sublist _ hsorted
    exact ((sublist_cons_self x rest).append_left as).map key
  have hstep : zslUpdateScore zsl x.score x.ele newscore level =
    (if (∀ t ∈ as.getLast?, t.score < newscore) ∧ ∀ t ∈ rest.head?, newscore < t.score then do
      let zsl ← zsl.setScore x.ptr newscore
      some (zsl, x.ptr)
    else do
      let zsl ← zslDeleteNode zsl x.ptr update
      let r ← zslInsert zsl newscore x.ele level
      some (zslFreeNode r.1 x.ptr, r.2)) := by
    simp [zslUpdateScore, hsearch, found_spec h.toWoven hfingers, hn, hele, hscore, sdscmp,
      compareBytes_eq.mpr rfl, h.link_zero, keepsPlace_spec h.toWoven hn]
  refine ⟨as, x, rest, ?_⟩
  by_cases hkeep : (∀ t ∈ as.getLast?, t.score < newscore) ∧ ∀ t ∈ rest.head?, newscore < t.score
  · obtain ⟨z, hset, hz⟩ := rescore_spec h newscore
    refine ⟨as, x.ptr, x.height, rest, z, rfl, rfl, rfl, rfl, ?_, hz, ?_⟩
    · rw [hstep, if_pos hkeep, hset]
      rfl
    · rw [insertKey_between x.ele hsorted' hkeep.1 hkeep.2, map_append]
      rfl
  obtain ⟨z, hdelete, hz, hheader, hfresh, _⟩ := zslDeleteNode_spec h.toWoven hfingers
  have hnew : toLex (newscore, x.ele) ∉ (as ++ rest).map key := by
    intro hin
    obtain ⟨t, ht, heq⟩ := mem_map.mp hin
    have htele : t.ele = x.ele := congrArg (fun k => (ofLex k).2) heq
    rw [map_append, map_cons, perm_middle.nodup_iff, nodup_cons, ← map_append] at hunique
    exact hunique.1 (htele ▸ mem_map_of_mem ht)
  obtain ⟨as', rest', z', heq, hinsert, hheader', hz', hkeys⟩ :=
    insert_spec hz hsorted' hnew hpos hle
  refine ⟨as', z.fresh, level, rest', zslFreeNode z' x.ptr, rfl, rfl, rfl, heq, ?_, ?_, hkeys⟩
  · rw [hstep, if_neg hkeep]
    simp [hdelete, hinsert]
  apply free_spec hz'
  -- The old node is neither in the list any more nor where the new one is.
  rw [chain_ptrs, map_cons, perm_middle.mem_iff, mem_cons, ← chain_ptrs, ← heq,
    hheader', hheader, not_or]
  refine ⟨?_, (apart h.nodup).out⟩
  rw [hfresh]
  exact (h.fresh _ (mem_chain _ (by simp))).ne

/-- A range between two bounds that respect the order of the keys in the list. -/
lemma deleteRange_filter {before inside : Nat → Node S → Bool} (gte lte : S ×ₗ Bytes → Bool)
    (hreads : Reads before fun _ t => !gte (key t)) (hreads' : Reads inside fun _ t => lte (key t))
    (h : Represents zsl ts) (hsorted : Sorted (ts.map key))
    (hgte : ∀ a ∈ ts.map key, ∀ b ∈ ts.map key, a < b → gte a → gte b)
    (hlte : ∀ a ∈ ts.map key, ∀ b ∈ ts.map key, a < b → lte b → lte a) :
    ∃ zsl', deleteRange zsl before inside =
      some (zsl', (ts.filter fun t => gte (key t) && lte (key t)).map Tower.ele) ∧
    Represents zsl' (ts.filter fun t => !(gte (key t) && lte (key t))) := by
  obtain ⟨as, cut, rest, zsl', rfl, hdelete, hrep, hreached, hstop, hcut, hend⟩ :=
    deleteRange_spec hreads hreads' h
  obtain ⟨hfront, hback⟩ := cut_towers (p := fun k => gte k = false) (fun _ _ => by simp) (by
    intro a ha b hb hab hgb
    by_contra hga
    rw [hgte a ha b hb hab (Bool.not_eq_false _ ▸ hga)] at hgb
    cases hgb) hsorted hreached hstop
  have hrest : ∀ t ∈ rest, ¬ lte (key t) := by
    have hsub : rest.Sublist (as ++ (cut ++ rest)) :=
      (sublist_append_right cut rest).trans (sublist_append_right as _)
    have hreached' : Reached (fun _ t => lte (key t)) ([] : List (Tower S)) := by simp [Reached]
    have hsorted' : Sorted (([] ++ rest).map key) := hsorted.sublist (hsub.map key)
    refine (cut_towers (p := (lte ·)) (fun _ _ => Iff.rfl) ?_ hsorted' hreached' hend).2
    intro a ha b hb
    exact hlte a ((hsub.map key).subset ha) b ((hsub.map key).subset hb)
  have has : ∀ t ∈ as, (gte (key t) && lte (key t)) = false := by
    intro t ht
    rw [hfront t ht, Bool.false_and]
  have hcut' : ∀ t ∈ cut, (gte (key t) && lte (key t)) := by
    intro t ht
    obtain ⟨k, hk⟩ := mem_iff_getElem?.mp ht
    rw [hcut k t hk, Bool.and_true]
    exact Bool.not_eq_false _ ▸ hback t (mem_append_left _ ht)
  have hrest' : ∀ t ∈ rest, (gte (key t) && lte (key t)) = false := by
    intro t ht
    rw [Bool.eq_false_iff.mpr (hrest t ht), Bool.and_false]
  obtain ⟨hin, hout⟩ := filter_middle has hcut' hrest'
  rw [hin, hout]
  exact ⟨zsl', hdelete, hrep⟩

/-- Is a score in the range? -/
def inScoreRange (range : RangeSpec S) (score : S) : Bool :=
  zslValueGteMin score range && zslValueLteMax score range

lemma zslDeleteRangeByScore_spec
    (h : Represents zsl ts) (hsorted : Sorted (ts.map key)) (range : RangeSpec S) :
    ∃ zsl', zslDeleteRangeByScore zsl range =
      some (zsl', (ts.filter fun t => inScoreRange range t.score).map Tower.ele) ∧
    Represents zsl' (ts.filter fun t => !inScoreRange range t.score) := by
  apply deleteRange_filter (fun k => zslValueGteMin (ofLex k).1 range)
    (fun k => zslValueLteMax (ofLex k).1 range) _ _ h hsorted
  · intro a _ b _ hab
    have hle := fst_le_of_lt hab
    simp only [zslValueGteMin]
    split
    · simpa using fun h => lt_of_lt_of_le h hle
    · simpa using fun h => le_trans h hle
  · intro a _ b _ hab
    have hle := fst_le_of_lt hab
    simp only [zslValueLteMax]
    split
    · simpa using fun h => lt_of_le_of_lt hle h
    · simpa using fun h => le_trans hle h
  · intro rank n t _ hscore
    simp only [hscore]
    rfl
  · intro rank n t _ hscore
    simp only [hscore]
    rfl

/-- Is an element in the range? -/
def inLexRange (range : LexRangeSpec) (ele : Bytes) : Bool :=
  zslLexValueGteMin ele range && zslLexValueLteMax ele range

lemma sdscmplex_mono {a b : Bytes} (hab : a < b) (bound : LexBound) :
    (0 ≤ sdscmplex a bound → 0 < sdscmplex b bound) ∧
    (sdscmplex b bound ≤ 0 → sdscmplex a bound < 0) := by
  cases bound with
  | minstring => simp [sdscmplex]
  | maxstring => simp [sdscmplex]
  | str s =>
    constructor
    · intro h
      have hsa : s ≤ a := not_lt.mp fun hlt => absurd (compareBytes_lt.mpr hlt) (not_lt.mpr h)
      exact compareBytes_pos.mpr (lt_of_le_of_lt hsa hab)
    · intro h
      have hbs : b ≤ s := not_lt.mp fun hlt => absurd (compareBytes_pos.mpr hlt) (not_lt.mpr h)
      exact compareBytes_lt.mpr (lt_of_lt_of_le hab hbs)

lemma zslDeleteRangeByLex_spec (h : Represents zsl ts) (hsorted : Sorted (ts.map key))
    (hscores : ∀ t ∈ ts, ∀ t' ∈ ts, t.score = t'.score) (range : LexRangeSpec) :
    ∃ zsl', zslDeleteRangeByLex zsl range =
      some (zsl', (ts.filter fun t => inLexRange range t.ele).map Tower.ele) ∧
    Represents zsl' (ts.filter fun t => !inLexRange range t.ele) := by
  have hlt : ∀ a ∈ ts.map key, ∀ b ∈ ts.map key, a < b → (ofLex a).2 < (ofLex b).2 := by
    intro a ha b hb hab
    obtain ⟨t, ht, rfl⟩ := mem_map.mp ha
    obtain ⟨t', ht', rfl⟩ := mem_map.mp hb
    rcases Prod.Lex.lt_iff.mp hab with hlt | heq
    · exact absurd (hscores t ht t' ht') hlt.ne
    · exact heq.2
  apply deleteRange_filter (fun k => zslLexValueGteMin (ofLex k).2 range)
    (fun k => zslLexValueLteMax (ofLex k).2 range) _ _ h hsorted
  · intro a ha b hb hab
    have hmono := (sdscmplex_mono (hlt a ha b hb hab) range.min).1
    simp only [zslLexValueGteMin]
    split <;> simp only [decide_eq_true_eq] <;> omega
  · intro a ha b hb hab
    have hmono := (sdscmplex_mono (hlt a ha b hb hab) range.max).2
    simp only [zslLexValueLteMax]
    split <;> simp only [decide_eq_true_eq] <;> omega
  · intro rank n t hele _
    simp only [hele]
    rfl
  · intro rank n t hele _
    simp only [hele]
    rfl

end Order

/-- The ranks from `start` to `stop` are taken out. -/
lemma zslDeleteRangeByRank_spec (h : Represents zsl ts) (start stop : Nat) :
    ∃ zsl' removed, zslDeleteRangeByRank zsl start stop = some (zsl', removed) ∧
    Represents zsl' (ts.take (start - 1) ++ ts.drop (max stop (start - 1))) := by
  have hreads : Reads (S := S) (fun rank _ => rank < start) (fun rank _ => rank < start) :=
    fun _ _ _ _ _ => rfl
  have hreads' : Reads (S := S) (fun rank _ => rank ≤ stop) (fun rank _ => rank ≤ stop) :=
    fun _ _ _ _ _ => rfl
  obtain ⟨as, cut, rest, zsl', rfl, hdelete, hrep, hreached, hstop, hcut, hend⟩ :=
    deleteRange_spec hreads hreads' h
  refine ⟨zsl', cut.map Tower.ele, hdelete, ?_⟩
  have has : as.length ≤ start - 1 := by
    rcases eq_nil_or_concat' as with rfl | ⟨as, t, rfl⟩
    · exact zero_le _
    · have := of_decide_eq_true (hreached t (by simp))
      omega
  have hfront : cut ++ rest ≠ [] → as.length = start - 1 := by
    intro hne
    obtain ⟨t, ts, heq⟩ := exists_cons_of_ne_nil hne
    have := of_decide_eq_false (hstop t (by rw [heq]; rfl))
    omega
  have hcut' : cut ≠ [] → as.length + cut.length ≤ stop := by
    intro hne
    obtain ⟨cut, t, rfl⟩ := (eq_nil_or_concat' cut).resolve_left hne
    have := of_decide_eq_true (hcut cut.length t (by simp))
    rw [length_append, length_singleton]
    omega
  have hend' : rest ≠ [] → stop ≤ as.length + cut.length := by
    intro hne
    obtain ⟨t, ts, rfl⟩ := exists_cons_of_ne_nil hne
    have := of_decide_eq_false (hend t rfl)
    omega
  have htake : (as ++ (cut ++ rest)).take (start - 1) = as := by
    by_cases hne : cut ++ rest = []
    · rw [hne, append_nil, take_of_length_le has]
    · rw [← hfront hne, take_left]
  have hdrop : (as ++ (cut ++ rest)).drop (max stop (start - 1)) = rest := by
    have hcutlen : cut = [] ∨ as.length + cut.length ≤ stop := by
      by_cases hne : cut = []
      · exact .inl hne
      · exact .inr (hcut' hne)
    rw [← append_assoc]
    by_cases hne : rest = []
    · subst hne
      apply drop_of_length_le
      rw [append_nil, length_append]
      rcases hcutlen with rfl | hle
      · exact le_trans has (le_max_right ..)
      · exact le_trans hle (le_max_left ..)
    have hfront' := hfront (append_ne_nil_of_right_ne_nil cut hne)
    have hlen : max stop (start - 1) = (as ++ cut).length := by
      have := hend' hne
      rw [length_append]
      rcases hcutlen with rfl | hle
      · rw [length_nil] at this ⊢
        omega
      · omega
    rw [hlen, drop_left]
  rwa [htake, hdrop]

end Dice.Ports.SkiplistOperations
