import Dice.Ports.SkiplistOperations

/-!
# Skiplists stay well formed

Every sequence of calls leaves a skiplist whose lists, spans, backward pointers
and counters are what they should be, and which holds the pairs that were
inserted and not removed again.
-/

namespace Dice.Ports.SkiplistRuns

open Nat
open Prod (fst)

open List Verified CString Run SortedList Towers Skiplist SkiplistSearch
open SkiplistEdits SkiplistOperations

variable {S : Type}

/-! ## Well-formed skiplists -/

/-- The nodes that follow `p` on level `i`. -/
def forwards (zsl : Zskiplist S) (i : Nat) : Nat → Ptr → Option (List Ptr)
  | 0, _ => none
  | fuel + 1, p => do
      let l ← zsl.getLevel p i
      match l.forward with
      | none => some []
      | some q => (forwards zsl i fuel q).map (q :: ·)

/-- The nodes from `p` on in the direction of the backward pointers. -/
def backwards (zsl : Zskiplist S) : Nat → Option Ptr → Option (List Ptr)
  | 0, _ => none
  | _ + 1, none => some []
  | fuel + 1, some p => do
      let n ← zsl.nodes p
      (backwards zsl fuel n.backward).map (p :: ·)

/-- The number of levels that a node has. -/
def heightAt (zsl : Zskiplist S) (p : Ptr) : Nat := (zsl.nodes p).elim 0 fun n => n.level.length

def pairAt (zsl : Zskiplist S) (p : Ptr) : Option (S ×ₗ Bytes) :=
  (zsl.nodes p).map fun n => toLex (n.score, n.ele)

/-- The skiplist of some pairs, whose nodes are at `ptrs`. -/
structure WellFormed [LinearOrder S] (zsl : Zskiplist S) (pairs : List (S ×ₗ Bytes))
    (ptrs : List Ptr) : Prop where
  nodes : forwards zsl 0 (zsl.length + 1) zsl.header = some ptrs
  contents : ptrs.map (pairAt zsl) = pairs.map some
  sorted : Sorted pairs
  levels : ∀ i < zskiplistMaxlevel, forwards zsl i (zsl.length + 1) zsl.header =
    some (ptrs.filter (i < heightAt zsl ·))
  spans : ∀ i < zskiplistMaxlevel, ∀ p ∈ zsl.header :: ptrs, ∀ l q,
    zsl.getLevel p i = some l → l.forward = some q →
      (zsl.header :: ptrs).idxOf q = (zsl.header :: ptrs).idxOf p + l.span
  backward : backwards zsl (zsl.length + 1) zsl.tail = some ptrs.reverse
  length : zsl.length = ptrs.length
  heights : ∀ p ∈ ptrs, heightAt zsl p ≤ zsl.level
  level : zsl.level = 1 ∨ ∃ p ∈ ptrs, heightAt zsl p = zsl.level

section WellFormed

variable {zsl : Zskiplist S} {ts : List (Tower S)}

lemma heightAt_tower (h : Woven zsl ts) {t : Tower S} (ht : t ∈ ts) :
    heightAt zsl t.ptr = t.height := by
  obtain ⟨n, hn, _, _, hheight⟩ := h.node ht
  rw [heightAt, hn]
  exact hheight

lemma pairAt_tower (h : Woven zsl ts) {t : Tower S} (ht : t ∈ ts) :
    pairAt zsl t.ptr = some (key t) := by
  obtain ⟨n, hn, hele, hscore, _⟩ := h.node ht
  rw [pairAt, hn, Option.map_some, hele, hscore]
  rfl

variable {i : Nat}

lemma forwards_spec {as rest : List (Tower S)} (h : Woven zsl (as ++ rest))
    (hi : i < zsl.level) (htip : i < (tip zsl.header as).2) {fuel : Nat}
    (hfuel : rest.length < fuel) :
    forwards zsl i fuel (tip zsl.header as).1 =
    some ((rest.filter (i < Tower.height ·)).map Tower.ptr) := by
  induction fuel generalizing as rest with
  | zero => omega
  | succ fuel ih =>
    have hlink := h.link_tip hi htip
    cases habove : above Tower.height i rest with
    | none =>
      have hlow := above_eq_none habove
      have hnil : rest.filter (i < Tower.height ·) = [] := by
        apply filter_eq_nil_iff.mpr
        intro t ht
        have := hlow t ht
        simpa using this
      rw [forwards, hlink, habove, hnil]
      rfl
    | some t =>
      obtain ⟨low, rest', rfl, hlow, ht, _⟩ := above_eq_some habove
      have hassoc : as ++ (low ++ t :: rest') = as ++ (low ++ [t]) ++ rest' := by simp
      have htip' : tip zsl.header (as ++ (low ++ [t])) = t.spot := tip_append_cons ..
      have hrec := ih (hassoc ▸ h) (by rw [htip']; exact ht) (by
        rw [length_append, length_cons] at hfuel
        omega)
      have hlow' : low.filter (i < Tower.height ·) = [] := by
        apply filter_eq_nil_iff.mpr
        intro s hs
        have := hlow s hs
        simpa using this
      rw [htip'] at hrec
      have hstep : forwards zsl i (fuel + 1) (tip zsl.header as).1 =
        (forwards zsl i fuel t.ptr).map (t.ptr :: ·) := by
        simp [forwards, hlink, habove]
      rw [hstep, show t.ptr = t.spot.1 from rfl, hrec, filter_append, hlow',
        filter_cons_of_pos (by simpa using ht)]
      rfl

lemma backwards_spec (as : List (Tower S)) (hfaces : Faces (Zskiplist.face zsl) none as)
    {fuel : Nat} (hfuel : as.length < fuel) :
    backwards zsl fuel (lastPtr none as) = some (as.map Tower.ptr).reverse := by
  induction fuel generalizing as with
  | zero => omega
  | succ fuel ih =>
    rcases eq_nil_or_concat' as with rfl | ⟨as, t, rfl⟩
    · rfl
    obtain ⟨hfront, hface, _⟩ := faces_append.mp hfaces
    obtain ⟨n, hn, heq⟩ := Option.map_eq_some_iff.mp hface
    have hbackward : n.backward = lastPtr none as := congrArg Face.backward heq
    have hlast : lastPtr none (as ++ [t]) = some t.ptr := by
      rw [lastPtr_eq, getLast?_concat]
      rfl
    have hrec := ih as hfront (by
      rw [length_append, length_singleton] at hfuel
      omega)
    simp [hlast, backwards, hn, hbackward, hrec]

/-- A spot with a link to another one reaches the level of the link. -/
lemma reaches_of_link (h : Woven zsl ts) (hi : i < zskiplistMaxlevel) {u : Ptr × Nat}
    (hu : u ∈ chain zsl.header ts) {l : Link Ptr} (hl : zsl.getLevel u.1 i = some l)
    (hnext : l.forward ≠ none) : i < zsl.level ∧ i < u.2 := by
  rcases mem_cons.mp hu with rfl | hu
  · refine ⟨?_, hi⟩
    by_contra hge
    obtain ⟨l', hl', hend⟩ := h.upper i (not_lt.mp hge) hi
    rw [hl, Option.some.injEq] at hl'
    exact hnext (hl' ▸ hend)
  obtain ⟨t, ht, rfl⟩ := mem_map.mp hu
  obtain ⟨n, hn, _, _, hheight⟩ := h.node ht
  have hlt : i < t.height := by
    rw [Zskiplist.getLevel, show t.spot.1 = t.ptr from rfl, hn] at hl
    rw [← hheight]
    exact (getElem?_eq_some_iff.mp hl).1
  exact ⟨lt_of_lt_of_le hlt (h.heights t ht).2, hlt⟩

lemma idxOf_of_nodup {xs ys : List Ptr} {x : Ptr} (h : (xs ++ x :: ys).Nodup) :
    (xs ++ x :: ys).idxOf x = xs.length := by
  have hx : x ∉ xs := fun hmem => (nodup_append.mp h).2.2 x hmem x (by simp) rfl
  rw [idxOf_append_of_notMem hx, idxOf_cons_self, add_zero]

lemma span_spec (h : Woven zsl ts) (hi : i < zskiplistMaxlevel) {p : Ptr}
    (hp : p ∈ (chain zsl.header ts).map fst) {l : Link Ptr} {q : Ptr}
    (hl : zsl.getLevel p i = some l) (hq : l.forward = some q) :
    ((chain zsl.header ts).map fst).idxOf q =
    ((chain zsl.header ts).map fst).idxOf p + l.span := by
  have hnodup := h.nodup
  obtain ⟨u, hu, rfl⟩ := mem_map.mp hp
  obtain ⟨hlevel, hreach⟩ := reaches_of_link h hi hu hl (by simp [hq])
  obtain ⟨cs, ds, hchain⟩ := append_of_mem hu
  have hlinks := h.links i hlevel
  rw [hchain] at hlinks hnodup ⊢
  have hlink := hlinks.link_eq hreach
  rw [hl, Option.some.injEq] at hlink
  rw [hlink] at hq
  obtain ⟨y, habove, rfl⟩ := Option.map_eq_some_iff.mp hq
  obtain ⟨low, rest, rfl, _, _, hdist⟩ := above_eq_some habove
  have hsplit : (cs ++ u :: (low ++ y :: rest)).map fst =
    (cs ++ u :: low).map fst ++ y.1 :: rest.map fst := by simp
  have hidx : ((cs ++ u :: (low ++ y :: rest)).map fst).idxOf y.1 =
    cs.length + (low.length + 1) := by
    rw [hsplit] at hnodup ⊢
    rw [idxOf_of_nodup hnodup, length_map, length_append, length_cons]
  rw [hidx, hlink, hdist]
  rw [map_append, map_cons] at hnodup ⊢
  rw [idxOf_of_nodup hnodup, length_map]

lemma wellFormed_of_represents [LinearOrder S] (h : Represents zsl ts)
    (hsorted : Sorted (ts.map key)) : WellFormed zsl (ts.map key) (ts.map Tower.ptr) := by
  have hptrs : (chain zsl.header ts).map fst = zsl.header :: ts.map Tower.ptr := by
    rw [← nil_append ts, chain_ptrs]
    rfl
  have hlevels : ∀ i < zskiplistMaxlevel, forwards zsl i (zsl.length + 1) zsl.header =
    some ((ts.filter (i < Tower.height ·)).map Tower.ptr) := by
    intro i hi
    rcases lt_or_ge i zsl.level with hlt | hge
    · apply forwards_spec (show Woven zsl ([] ++ ts) from h.toWoven) hlt hi
      rw [h.length]
      exact lt_succ_self _
    obtain ⟨l, hl, hend⟩ := h.upper i hge hi
    have hnil : ts.filter (i < Tower.height ·) = [] := by
      apply filter_eq_nil_iff.mpr
      intro t ht
      have := (h.heights t ht).2
      simp only [decide_eq_true_eq]
      omega
    simp [forwards, hl, hend, hnil]
  constructor
  case nodes =>
    rw [hlevels 0 (by decide), filter_eq_self.mpr]
    intro t ht
    exact decide_eq_true (h.heights t ht).1
  case contents =>
    rw [map_map, map_map]
    exact map_congr_left fun t ht => pairAt_tower h.toWoven ht
  case sorted => exact hsorted
  case levels =>
    intro i hi
    rw [hlevels i hi, filter_map]
    congr 2
    apply filter_congr
    intro t ht
    rw [Function.comp_apply, heightAt_tower h.toWoven ht]
  case spans =>
    rw [← hptrs]
    intro i hi p hp l q hl hq
    exact span_spec h.toWoven hi hp hl hq
  case backward =>
    rw [h.tail]
    have hback := backwards_spec ts h.faces (lt_succ_self ts.length)
    rw [lastPtr_eq, Option.or_none] at hback
    rw [h.length]
    exact hback
  case length => rw [h.length, length_map]
  case heights =>
    intro p hp
    obtain ⟨t, ht, rfl⟩ := mem_map.mp hp
    rw [heightAt_tower h.toWoven ht]
    exact (h.heights t ht).2
  case level =>
    rcases h.level_exact with hone | ⟨t, ht, heq⟩
    · exact .inl hone
    · exact .inr ⟨t.ptr, mem_map_of_mem ht, by rw [heightAt_tower h.toWoven ht, heq]⟩

end WellFormed

/-! ## Runs -/

/-- A call of one of the functions that change a skiplist.  A level stands for the
number one greater, which is what `zslRandomLevel` returns. -/
inductive Call (S : Type)
  | insert (score : S) (ele : Bytes) (level : Fin zskiplistMaxlevel)
  | delete (score : S) (ele : Bytes)
  | updateScore (curscore : S) (ele : Bytes) (newscore : S) (level : Fin zskiplistMaxlevel)
  | deleteRangeByScore (range : RangeSpec S)
  | deleteRangeByLex (range : LexRangeSpec)
  | deleteRangeByRank (start stop : Nat)

/-- A skiplist, and the pairs that were inserted and not removed. -/
structure State (S : Type) where
  zsl : Zskiplist S
  pairs : List (S ×ₗ Bytes)

variable [LinearOrder S]

/-- What a range of elements takes out.  The elements are in order if all scores are
equal; otherwise it is what the function says that it removed. -/
def lexRemoves (pairs : List (S ×ₗ Bytes)) (range : LexRangeSpec) (removed : List Bytes)
    (k : S ×ₗ Bytes) : Bool :=
  if ∀ a ∈ pairs, ∀ b ∈ pairs, (ofLex a).1 = (ofLex b).1 then inLexRange range (ofLex k).2
  else (ofLex k).2 ∈ removed

/-- One call.  Inserting an element that is there and updating a pair that is not are
calls that are not made. -/
def step (s : State S) : Call S → Option (State S)
  | .insert score ele level =>
    if ele ∈ s.pairs.map (fun k => (ofLex k).2) then some s
    else do
      let (zsl, _) ← zslInsert s.zsl score ele (level + 1)
      some ⟨zsl, insertKey (toLex (score, ele)) s.pairs⟩
  | .delete score ele => do
      let (zsl, _) ← zslDelete s.zsl score ele
      some ⟨zsl, s.pairs.filter (· ≠ toLex (score, ele))⟩
  | .updateScore curscore ele newscore level =>
    if toLex (curscore, ele) ∈ s.pairs then do
      let (zsl, _) ← zslUpdateScore s.zsl curscore ele newscore (level + 1)
      some ⟨zsl, insertKey (toLex (newscore, ele))
        (s.pairs.filter (· ≠ toLex (curscore, ele)))⟩
    else some s
  | .deleteRangeByScore range => do
      let (zsl, _) ← zslDeleteRangeByScore s.zsl range
      some ⟨zsl, s.pairs.filter fun k => !inScoreRange range (ofLex k).1⟩
  | .deleteRangeByLex range => do
      let (zsl, removed) ← zslDeleteRangeByLex s.zsl range
      some ⟨zsl, s.pairs.filter fun k => !lexRemoves s.pairs range removed k⟩
  | .deleteRangeByRank start stop => do
      let (zsl, _) ← zslDeleteRangeByRank s.zsl start stop
      some ⟨zsl, s.pairs.take (start - 1) ++ s.pairs.drop (max stop (start - 1))⟩

/-- What holds between calls. -/
structure Holds (s : State S) (ts : List (Tower S)) : Prop where
  represents : Represents s.zsl ts
  sorted : Sorted (ts.map key)
  unique : (ts.map Tower.ele).Nodup
  pairs : s.pairs = ts.map key

lemma holds_create (zero : S) : Holds (⟨zslCreate zero, []⟩ : State S) [] := by
  have hheader : ∀ i < zskiplistMaxlevel,
    (zslCreate zero).getLevel (zslCreate zero).header i = some ⟨none, 0⟩ := by
    intro i hi
    simp [zslCreate, Zskiplist.getLevel, hi]
  refine ⟨⟨⟨?_, ?_, trivial, rfl, rfl, Nat.one_pos, by show 1 ≤ 32; decide, by simp,
    by simp [chain], by simp [chain, zslCreate]⟩, .inl rfl⟩, List.Pairwise.nil, nodup_nil, rfl⟩
  · intro i hi
    exact ⟨fun hmax => hheader i hmax, trivial⟩
  · exact fun i _ hmax => ⟨_, hheader i hmax, rfl⟩

variable {s : State S} {ts : List (Tower S)}

/-- Taking towers out keeps what holds between calls. -/
lemma Holds.sublist {ts' : List (Tower S)} (h : Holds s ts)
    (hsub : ts'.Sublist ts) {zsl : Zskiplist S} (hrep : Represents zsl ts')
    {pairs : List (S ×ₗ Bytes)} (hpairs : pairs = ts'.map key) : Holds ⟨zsl, pairs⟩ ts' where
  represents := hrep
  sorted := h.sorted.sublist (hsub.map key)
  unique := h.unique.sublist (hsub.map Tower.ele)
  pairs := hpairs

omit [LinearOrder S] in
lemma unique_middle {as rest : List (Tower S)} {x : Tower S} :
    ((as ++ x :: rest).map Tower.ele).Nodup ↔
    x.ele ∉ (as ++ rest).map Tower.ele ∧ ((as ++ rest).map Tower.ele).Nodup := by
  rw [map_append, map_cons, perm_middle.nodup_iff, nodup_cons, ← map_append]

lemma insert_holds (h : Holds s ts) (score : S) (ele : Bytes) (level : Fin zskiplistMaxlevel) :
    ∃ s' ts', step s (.insert score ele level) = some s' ∧ Holds s' ts' := by
  have heles : s.pairs.map (fun k => (ofLex k).2) = ts.map Tower.ele := by
    rw [h.pairs, map_map]
    rfl
  by_cases hmem : ele ∈ ts.map Tower.ele
  · exact ⟨s, ts, by rw [step, heles, if_pos hmem], h⟩
  have hnew : toLex (score, ele) ∉ ts.map key := by
    intro hin
    obtain ⟨t, ht, heq⟩ := mem_map.mp hin
    exact hmem (mem_map.mpr ⟨t, ht, congrArg (fun k => (ofLex k).2) heq⟩)
  obtain ⟨as, rest, zsl', rfl, hinsert, _, hrep, hkeys⟩ :=
    insert_spec h.represents h.sorted hnew (succ_pos level) level.isLt
  refine ⟨⟨zsl', insertKey (toLex (score, ele)) s.pairs⟩, _, ?_, hrep, ?_, ?_, ?_⟩
  · rw [step, heles, if_neg hmem, hinsert]
    rfl
  · rw [hkeys]
    exact h.sorted.insertKey
  · exact unique_middle.mpr ⟨hmem, h.unique⟩
  · rw [hkeys, h.pairs]

lemma updateScore_holds (h : Holds s ts) (curscore : S)
    (ele : Bytes) (newscore : S) (level : Fin zskiplistMaxlevel) :
    ∃ s' ts', step s (.updateScore curscore ele newscore level) = some s' ∧ Holds s' ts' := by
  by_cases hmem : toLex (curscore, ele) ∈ ts.map key
  · obtain ⟨as, x, rest, as', p, height, rest', zsl', rfl, rfl, rfl, heq, hupdate, hrep, hkeys⟩ :=
      zslUpdateScore_spec h.represents h.sorted h.unique hmem newscore (succ_pos level)
        level.isLt
    have hunique := unique_middle.mp h.unique
    have hfilter : ((as ++ x :: rest).map key).filter (· ≠ toLex (x.score, x.ele)) =
      (as ++ rest).map key := by
      rw [filter_map, h.sorted.filter_ne (p := (· ≠ toLex (x.score, x.ele)) ∘ key)
        fun _ => decide_eq_true_iff]
    refine ⟨⟨zsl', insertKey (toLex (newscore, x.ele))
      (s.pairs.filter (· ≠ toLex (x.score, x.ele)))⟩, _, ?_, hrep, ?_, ?_, ?_⟩
    · simp only [step, h.pairs, if_pos hmem, hupdate, some_bind]
    · rw [hkeys]
      have hsub := ((sublist_cons_self x rest).append_left as).map key
      exact Sorted.insertKey (h.sorted.sublist hsub)
    · rw [heq] at hunique
      exact unique_middle.mpr hunique
    · rw [hkeys, h.pairs, hfilter]
  · exact ⟨s, ts, by rw [step, h.pairs, if_neg hmem], h⟩

lemma deleteRangeByLex_holds (h : Holds s ts) (range : LexRangeSpec) :
    ∃ s' ts', step s (.deleteRangeByLex range) = some s' ∧ Holds s' ts' := by
  have hscores : (∀ a ∈ s.pairs, ∀ b ∈ s.pairs, (ofLex a).1 = (ofLex b).1) ↔
    ∀ t ∈ ts, ∀ t' ∈ ts, t.score = t'.score := by
    rw [h.pairs]
    simp only [forall_mem_map]
    rfl
  by_cases hequal : ∀ t ∈ ts, ∀ t' ∈ ts, t.score = t'.score
  · obtain ⟨zsl', hdelete, hrep⟩ := zslDeleteRangeByLex_spec h.represents h.sorted hequal range
    refine ⟨⟨zsl', _⟩, _, by rw [step, hdelete]; rfl, h.sublist filter_sublist hrep ?_⟩
    simp only [lexRemoves, if_pos (hscores.mpr hequal)]
    rw [h.pairs, filter_map]
    rfl
  have hreads : Reads (S := S) (fun _ n => !zslLexValueGteMin n.ele range)
    (fun _ t => !zslLexValueGteMin t.ele range) := fun _ _ _ hele _ => by simp [hele]
  have hreads' : Reads (S := S) (fun _ n => zslLexValueLteMax n.ele range)
    (fun _ t => zslLexValueLteMax t.ele range) := fun _ _ _ hele _ => by simp [hele]
  obtain ⟨as, cut, rest, zsl', rfl, hdelete, hrep, _⟩ :=
    deleteRange_spec hreads hreads' h.represents
  have hsub : (as ++ rest).Sublist (as ++ (cut ++ rest)) :=
    (sublist_append_right cut rest).append_left as
  refine ⟨⟨zsl', _⟩, _, by rw [step, zslDeleteRangeByLex, hdelete]; rfl, h.sublist hsub hrep ?_⟩
  have hunique := h.unique
  rw [map_append, map_append] at hunique
  obtain ⟨_, hright, hacross⟩ := nodup_append.mp hunique
  have hmiddle := filter_middle (p := fun t : Tower S => decide (t.ele ∈ cut.map Tower.ele))
    (fun t ht => decide_eq_false fun hmem => hacross _ (mem_map_of_mem ht) _
      (mem_append_left _ hmem) rfl)
    (fun t (ht : t ∈ cut) => decide_eq_true (mem_map_of_mem ht))
    (fun t ht => decide_eq_false fun hmem => (nodup_append.mp hright).2.2 _ hmem _
      (mem_map_of_mem ht) rfl)
  simp only [lexRemoves, if_neg fun heq => hequal (hscores.mp heq)]
  rw [h.pairs, filter_map, ← hmiddle.2]
  rfl

/-- What holds between calls is kept by every call, and no call fails. -/
lemma step_holds (h : Holds s ts) (call : Call S) :
    ∃ s' ts', step s call = some s' ∧ Holds s' ts' := by
  cases call with
  | insert score ele level => exact insert_holds h score ele level
  | updateScore curscore ele newscore level => exact updateScore_holds h curscore ele newscore level
  | delete score ele =>
    obtain ⟨zsl', hdelete, hrep⟩ := zslDelete_spec h.represents h.sorted score ele
    refine ⟨⟨zsl', _⟩, _, by rw [step, hdelete]; rfl, h.sublist filter_sublist hrep ?_⟩
    rw [h.pairs, filter_map]
    rfl
  | deleteRangeByScore range =>
    obtain ⟨zsl', hdelete, hrep⟩ := zslDeleteRangeByScore_spec h.represents h.sorted range
    refine ⟨⟨zsl', _⟩, _, by rw [step, hdelete]; rfl, h.sublist filter_sublist hrep ?_⟩
    rw [h.pairs, filter_map]
    rfl
  | deleteRangeByLex range => exact deleteRangeByLex_holds h range
  | deleteRangeByRank start stop =>
    obtain ⟨zsl', removed, hdelete, hrep⟩ := zslDeleteRangeByRank_spec h.represents start stop
    refine ⟨⟨zsl', _⟩, _, by rw [step, hdelete]; rfl, h.sublist ?_ hrep ?_⟩
    · conv_rhs => rw [← take_append_drop (start - 1) ts]
      apply List.Sublist.append_left
      exact drop_sublist_drop_left ts (le_max_right ..)
    · rw [h.pairs, map_append, map_take, map_drop]

/-- After every sequence of calls the skiplist is well formed and holds the pairs that
were inserted and not removed. -/
theorem zskiplist_wellFormed (zero : S) (calls : List (Call S)) :
    ∃ s ptrs, run step ⟨zslCreate zero, []⟩ calls = some s ∧ WellFormed s.zsl s.pairs ptrs := by
  obtain ⟨s, hrun, ts, h⟩ := run_total' (I := fun s => ∃ ts, Holds s ts) (fun s call ⟨ts, h⟩ => by
      obtain ⟨s', ts', hstep, h'⟩ := step_holds h call
      exact ⟨s', hstep, ts', h'⟩) ⟨[], holds_create zero⟩ calls
  refine ⟨s, ts.map Tower.ptr, hrun, ?_⟩
  rw [h.pairs]
  exact wellFormed_of_represents h.represents h.sorted

end Dice.Ports.SkiplistRuns
