import Dice.Ports.RadixIteratorSteps
import Dice.Ports.RadixTreeRefinement

/-!
# Seeking

A string divides the keys of the tree into those before it, itself and those
behind it.  Wherever the walk stops, the seek goes on to the last of the ones
before or to the first of the ones behind; from there the iterator moves along
the list of the keys.
-/

namespace Dice.Ports.RadixIteratorSeek

open Option
open Prod (fst)

open List Verified CString Run SortedList PrefixTree ArrayStack
open RadixTree RadixTreeWalk RadixTreeInsert RadixTreeRefinement RadixIterator RadixIteratorSteps

variable {V : Type}

/-! ## Before, at and behind a string -/

structure Split (es : List (Bytes × Option V)) (s : Bytes)
    (pre here post : List (Bytes × Option V)) : Prop where
  eq : es = pre ++ (here ++ post)
  pre_lt : ∀ e ∈ pre, e.1 < s
  here_eq : ∀ e ∈ here, e.1 = s
  lt_post : ∀ e ∈ post, s < e.1

/-- Where a seek leads. -/
def Sought (rt : Rax V) (it : Iterator V) : Option (Bytes × Option V) → Prop
  | none => it.eof = true
  | some (k, v) => On it k v ∧ it.rt = rt ∧ it.eof = false ∧ it.justSeeked = true

/-- The iterator is at a node, ready for a step. -/
structure Ready (it : Iterator V) (n : Node V) (way : Way V) : Prop where
  place : At it n way
  numnodes : it.rt.numnodes = count it.rt.head
  eof : it.eof = false
  justSeeked : it.justSeeked = true

variable {it it' : Iterator V} {n : Node V} {way : Way V} {r : Option (Bytes × Option V)}
  {header : Header V} {left right : List (Bytes × Node V)} {c d : UInt8}
  {pre post es : List (Bytes × Option V)} {l ele : Bytes} {e : Bytes × Option V} {j : Nat}
  {rax : Rax V} {pos : Option Nat}

lemma le_turns (h : At it n way) (hnodes : it.rt.numnodes = count it.rt.head) :
    way.length + 2 + count (plug n way) ≤ turns it := by
  have hcount := count_le_plug n way
  rw [turns, hnodes, ← h.tree]
  omega

lemma Ready.le_turns (h : Ready it n way) : way.length + 2 + count (plug n way) ≤ turns it :=
  RadixIteratorSeek.le_turns h.place h.numnodes

lemma Ready.unflag (h : Ready it n way) : At { it with justSeeked := false } n way :=
  { h.place with }

lemma lands_sought (heof : it.eof = false) (h : Lands { it with justSeeked := false } it' r) :
    Sought it.rt { it' with justSeeked := true } r := by
  cases r with
  | none =>
    obtain rfl : it' = _ := h
    rfl
  | some e =>
    obtain ⟨⟨n, way, hat, hon⟩, hsame⟩ := h
    exact ⟨⟨n, way, { hat with }, hon⟩, hsame.rt, hsame.eof.trans heof, rfl⟩

lemma stepFor_next {noup : Bool} (heof : it.eof = false)
    (hloop : nextLoop (turns it) { it with justSeeked := false } { it with justSeeked := false }
    noup false = some it') (hlands : Lands { it with justSeeked := false } it' r) :
    ∃ it', stepFor true it noup = some it' ∧ Sought it.rt it' r := by
  refine ⟨_, ?_, lands_sought heof hlands⟩
  rw [stepFor, if_pos rfl, raxIteratorNextStep, if_neg (by simp [heof])]
  exact congrArg _ hloop

lemma stepFor_prev {noup : Bool} (heof : it.eof = false)
    (hloop : prevLoop (turns it) { it with justSeeked := false } { it with justSeeked := false }
    noup = some it') (hlands : Lands { it with justSeeked := false } it' r) :
    ∃ it', stepFor false it noup = some it' ∧ Sought it.rt it' r := by
  refine ⟨_, ?_, lands_sought heof hlands⟩
  rw [stepFor, if_neg Bool.false_ne_true, raxIteratorPrevStep, if_neg (by simp [heof]),
    if_neg Bool.false_ne_true]
  exact congrArg _ hloop

lemma Ready.next (h : Ready it n way) : ∃ it', stepFor true it false = some it' ∧ Sought it.rt it'
    ((edgesEntries keyData n.edges).map (prepend (path way)) ++ behind keyData way).head? := by
  obtain ⟨it', hloop, hlands⟩ := nextLoop_spec h.unflag h.le_turns
  exact stepFor_next h.eof hloop hlands

lemma Ready.prev (h : Ready it n way) :
    ∃ it', stepFor false it false = some it' ∧ Sought it.rt it' (before keyData way).getLast? := by
  have hturns := h.le_turns
  obtain ⟨it', hloop, hlands⟩ := prevLoop_up way h.unflag (Popped.refl _)
    (show way.length + 1 ≤ turns it by omega)
  exact stepFor_prev h.eof hloop hlands

section

variable (h : Ready it (.node header (left ++ right)) way) {extra : Bytes}
  (hc : extra.getLast? = some c)
  (hlen : extra.length = if header.iscompr then size (.node header (left ++ right)) else 1)

include h hc hlen

/-- To the first key below the children to the right, or behind the node. -/
lemma Ready.nextRight (hscan : (if mayScan (.node header (left ++ right)) true then
    (left ++ right).find? fun e => [c] < e.1 else none) = right.head?) :
    ∃ it', stepFor true { it with key := it.key.push extra } true = some it' ∧ Sought it.rt it'
    ((edgesEntries keyData right).map (prepend (path way)) ++ behind keyData way).head? := by
  obtain ⟨it', hloop, hlands⟩ := nextLoop_noup h.unflag hc hlen hscan h.le_turns rfl
  exact stepFor_next (show ({ it with key := it.key.push extra } : Iterator V).eof = false
    from h.eof) hloop hlands

/-- To the last key below the children to the left, or to the node or before it. -/
lemma Ready.prevLeft (hscan : (if mayScan (.node header (left ++ right)) true then
    (left ++ right).reverse.find? fun e => e.1 < [c] else none) = left.getLast?) :
    ∃ it', stepFor false { it with key := it.key.push extra } true = some it' ∧
    Sought it.rt it' (before keyData way ++
      (own keyData header ++ edgesEntries keyData left).map (prepend (path way))).getLast? := by
  have hturns := h.le_turns
  obtain ⟨it', hloop, hlands⟩ := prevLoop_noup h.unflag hc hlen hscan
    (show way.length + 2 ≤ turns it by omega) rfl
  exact stepFor_prev (show ({ it with key := it.key.push extra } : Iterator V).eof = false
    from h.eof) hloop hlands

end

lemma Ready.greatest (h : Ready it n way) (hne : contents n ≠ []) :
    ∃ it' m, raxSeekGreatest n it = it' ∧ it'.node = some m ∧ m.info.iskey ∧
    Sought it.rt { it' with data := raxGetData m.info }
      ((contents n).map (prepend (path way))).getLast? := by
  obtain ⟨m, way', hat, hkey, hlast, hsame⟩ := raxSeekGreatest_spec n h.place hne
  refine ⟨_, m, rfl, hat.node, hkey, ?_⟩
  rw [hlast]
  exact ⟨⟨m, way', { hat with }, hkey, rfl,
    rfl, rfl⟩, hsame.rt, hsame.eof.trans h.eof, hsame.justSeeked.trans h.justSeeked⟩

lemma Ready.here (h : Ready it n way) (hkey : n.info.iskey) :
    Sought it.rt { it with data := raxGetData n.info } (some (path way, raxGetData n.info)) :=
  ⟨⟨n, way, { h.place with }, hkey, rfl, rfl, rfl⟩, rfl, h.eof, h.justSeeked⟩

/-! ## Where the walk stopped -/

/-- What divides the keys of a subtree divides all the keys. -/
lemma Split.place {s : Bytes}
    {here : List (Bytes × Option V)} (h : Split (contents n) s pre here post)
    (hway : AllWay NodeOk way) :
    Split (contents (plug n way)) (path way ++ s)
    (before keyData way ++ pre.map (prepend (path way))) (here.map (prepend (path way)))
    (post.map (prepend (path way)) ++ behind keyData way) := by
  have hord := hway.mono fun _ _ _ hok => hok.ordered
  refine ⟨?_, ?_, ?_, ?_⟩
  · rw [contents, entries_plug, show entries keyData n = _ from h.eq]
    simp
  · intro e he
    rcases mem_append.mp he with he | he
    · exact before_lt hord s he
    · obtain ⟨y, hy, rfl⟩ := mem_map.mp he
      exact append_lt_append.mpr (h.pre_lt y hy)
  · intro e he
    obtain ⟨y, hy, rfl⟩ := mem_map.mp he
    rw [prepend, h.here_eq y hy]
  intro e he
  rcases mem_append.mp he with he | he
  · obtain ⟨y, hy, rfl⟩ := mem_map.mp he
    exact append_lt_append.mpr (h.lt_post y hy)
  · exact lt_behind hord s he

lemma split_atNode {edges : List (Bytes × Node V)} {root : Bool}
    (hok : Shaped root (.node header edges)) :
    Split (contents (.node header edges)) [] [] (own keyData header)
    (edgesEntries keyData edges) := by
  refine ⟨by rw [contents]; rfl, by simp, ?_, ?_⟩
  · intro e he
    rw [own, List.mem_map] at he
    obtain ⟨_, _, rfl⟩ := he
    rfl
  intro e he
  obtain ⟨e', he', y, _, rfl⟩ := mem_edgesEntries.mp he
  have hne := (all_node.mp hok).1.ordered.1 e'.1 (mem_map_of_mem he')
  obtain ⟨a, l, hl⟩ := exists_cons_of_ne_nil hne
  rw [hl]
  exact nil_lt_cons ..

/-- The children before and behind a string that is none of their labels. -/
lemma split_edges {s : Bytes} (hs : s ≠ []) (hleft : ∀ e ∈ edgesEntries keyData left, e.1 < s)
    (hright : ∀ e ∈ edgesEntries keyData right, s < e.1) :
    Split (contents (.node header (left ++ right))) s
    (own keyData header ++ edgesEntries keyData left) [] (edgesEntries keyData right) := by
  refine ⟨?_, ?_, by simp, hright⟩
  · rw [contents, entries, edgesEntries_append, nil_append, append_assoc]
  intro e he
  rcases mem_append.mp he with he | he
  · exact own_lt hs he
  · exact hleft e he

/-- The edges before and behind a byte that has none. -/
lemma exists_split_edges {edges : List (Bytes × Node V)}
    (hone : ∀ l ∈ edges.map fst, l.length = 1) (hord : (edges.map fst).Pairwise HeadLt)
    (hfree : [c] ∉ edges.map fst) :
    ∃ left right, edges = left ++ right ∧ (∀ e ∈ left, HeadLt e.1 [c]) ∧
    ∀ e ∈ right, HeadLt [c] e.1 := by
  obtain ⟨left, right, heq, _, hleft, hright⟩ := insertEdge_spec c raxNewNode hone hord hfree
  exact ⟨left, right, heq, hleft, hright⟩

lemma mem_single {t : Node V} :
    e ∈ edgesEntries keyData [(l, t)] ↔ ∃ y ∈ contents t, prepend l y = e := by
  rw [edgesEntries_cons, edgesEntries, append_nil, List.mem_map]

/-- What a seek beside the string finds, in both directions. -/
structure Beside (it : Iterator V) (n : Node V) (j : Nat) (rest : Bytes)
    (pre post : List (Bytes × Option V)) : Prop where
  gt : ∃ it', seekBeside true it n j rest = some it' ∧ Sought it.rt it' post.head?
  lt : ∃ it', seekBeside false it n j rest = some it' ∧ Sought it.rt it' pre.getLast?

lemma beside_atNode (h : Ready it n way) : Beside it n 0 [] (before keyData way)
    ((edgesEntries keyData n.edges).map (prepend (path way)) ++ behind keyData way) := by
  constructor
  · rw [seekBeside, if_neg (by simp)]
    exact h.next
  · rw [seekBeside, if_neg (by simp)]
    exact h.prev

lemma beside_noEdge (h : Ready it (.node header (left ++ right)) way)
    (hnormal : header.iscompr = false) (cs : Bytes)
    (hleft : ∀ e ∈ left, HeadLt e.1 [c]) (hright : ∀ e ∈ right, HeadLt [c] e.1) :
    Beside it (.node header (left ++ right)) 0 (c :: cs)
    (before keyData way ++
      (own keyData header ++ edgesEntries keyData left).map (prepend (path way)))
    ((edgesEntries keyData right).map (prepend (path way)) ++ behind keyData way) := by
  have hlen : [c].length =
    if header.iscompr then size (.node header (left ++ right)) else 1 := by
    rw [hnormal]
    rfl
  have hnone : ∀ {xs : List (Bytes × Node V)}, (left ++ right).length ≤ 0 →
    xs.Sublist (left ++ right) → xs = [] := by
    intro xs hle hsub
    exact length_eq_zero_iff.mp (Nat.le_zero.mp (hsub.length_le.trans hle))
  constructor
  · rw [seekBeside, if_pos (by simp [Tree.info, hnormal])]
    refine h.nextRight rfl hlen (scan_right hnormal rfl (fun e he => lt_asymm (hleft e he).lt)
      (fun e he => (hright e he).lt) fun hle => hnone hle (sublist_append_right ..))
  · rw [seekBeside, if_pos (by simp [Tree.info, hnormal])]
    refine h.prevLeft rfl hlen (scan_left hnormal rfl (fun e he => (hleft e he).lt)
      (fun e he => lt_asymm (hright e he).lt) fun hle => hnone hle (sublist_append_left ..))

section

variable {next : Node V} (h : Ready it (.node header [(l, next)]) way) (hcompr : header.iscompr)

include h hcompr

lemma beside_inside (hj : j ≠ 0) : Beside it (.node header [(l, next)]) j []
    (before keyData way ++ (own keyData header ++ []).map (prepend (path way)))
    ((edgesEntries keyData [(l, next)]).map (prepend (path way)) ++ behind keyData way) := by
  constructor
  · rw [seekBeside, if_neg (by simp)]
    exact h.next
  rw [append_nil]
  cases hkey : header.iskey with
  | true =>
    rw [seekBeside, if_pos (by simp [Tree.info, hcompr, hkey, hj]), own_of_iskey hkey,
      getLast?_append_of_ne_nil _ (by simp)]
    refine ⟨_, rfl, ?_⟩
    have hhere := h.here hkey
    rw [← append_nil (path way)] at hhere
    exact hhere
  | false =>
    rw [seekBeside, if_neg (by simp [Tree.info, hkey]), own_of_not_iskey hkey, map_nil, append_nil]
    exact h.prev

omit h hcompr in
lemma seekBeside_compressed (next : Node V)
    (hcompr : header.iscompr) (hd : l[j]? = some d) (gt : Bool)
    (it : Iterator V) (c : UInt8) (cs : Bytes) :
    seekBeside gt it (.node header [(l, next)]) j (c :: cs) =
    if gt then
      if c < d then stepFor true it false else stepFor true { it with key := it.key.push l } true
    else
      if d < c then
        (raxSeekGreatest (.node header [(l, next)]) it).node.bind fun greatest =>
          some { raxSeekGreatest (.node header [(l, next)]) it with
            data := raxGetData greatest.info }
      else stepFor false { it with key := it.key.push l } true := by
  simp only [seekBeside, Tree.info, Tree.edges, hcompr, flatMap_cons, flatMap_nil, append_nil, hd]
  rfl

omit h hcompr in
lemma leave_compressed (hcompr : header.iscompr) (hd : l[j]? = some d) (next : Node V) :
    ∃ b, l.getLast? = some b ∧
    l.length = (if header.iscompr then size (.node header [(l, next)]) else 1) ∧
    ∀ noup, mayScan (.node header [(l, next)]) noup = false := by
  have hne : l ≠ [] := by
    rintro rfl
    simp at hd
  obtain ⟨b, hb⟩ := ne_none_iff_exists'.mp (mt getLast?_eq_none_iff.mp hne)
  refine ⟨b, hb, ?_, not_mayScan hcompr⟩
  rw [if_pos hcompr, size, Tree.info, if_pos hcompr]
  simp [Tree.edges]

/-- The string leaves a compressed node for a smaller byte. -/
lemma beside_less (cs : Bytes) (hd : l[j]? = some d) (hlt : c < d) :
    Beside it (.node header [(l, next)]) j (c :: cs)
    (before keyData way ++ (own keyData header ++ []).map (prepend (path way)))
    ((edgesEntries keyData [(l, next)]).map (prepend (path way)) ++ behind keyData way) := by
  constructor
  · rw [seekBeside_compressed next hcompr hd, if_pos hlt]
    exact h.next
  rw [seekBeside_compressed next hcompr hd, if_neg (lt_asymm hlt)]
  obtain ⟨b, hb, hlen, hscan⟩ := leave_compressed hcompr hd next
  have hat : Ready it (.node header ([] ++ [(l, next)])) way := h
  refine hat.prevLeft hb hlen ?_
  rw [nil_append, hscan]
  rfl

/-- The string leaves a compressed node for a greater byte. -/
lemma beside_greater (cs : Bytes) (hd : l[j]? = some d) (hlt : d < c) :
    Beside it (.node header [(l, next)]) j (c :: cs)
    (before keyData way ++
      (own keyData header ++ edgesEntries keyData [(l, next)]).map (prepend (path way)))
    (behind keyData way) := by
  constructor
  · rw [seekBeside_compressed next hcompr hd, if_neg (lt_asymm hlt)]
    obtain ⟨b, hb, hlen, hscan⟩ := leave_compressed hcompr hd next
    have hat : Ready it (.node header ([(l, next)] ++ [])) way := h
    refine hat.nextRight hb hlen ?_
    rw [append_nil, hscan]
    rfl
  rw [seekBeside_compressed next hcompr hd, if_pos hlt]
  have hchild : Shaped false next := (all_node.mp h.place.shaped).2 (l, next) (by simp)
  have hne : contents (.node header [(l, next)]) ≠ [] := by
    rw [contents_single]
    simp [contents_ne_nil hchild]
  obtain ⟨it', m, heq, hnode, _, hsought⟩ := h.greatest hne
  rw [heq, hnode]
  refine ⟨_, rfl, ?_⟩
  rw [getLast?_append_of_ne_nil _ (by simpa [entries] using hne)]
  exact hsought

end

/-- The keys before, at and behind the string, and what the two directions find. -/
lemma stop_beside {done rest : Bytes} (h : Ready it n way) (hstop : Stop n done j rest) :
    ∃ pre here post, Split (contents it.rt.head) (path way ++ (done ++ rest)) pre here post ∧
    Beside it n j rest pre post ∧
    here = if rest = [] ∧ (n.info.iscompr = false ∨ j = 0) ∧ n.info.iskey then
      [(path way, raxGetData n.info)] else [] := by
  rw [← h.place.tree]
  have hnode := h.place.shaped
  cases hstop with
  | atNode =>
    obtain ⟨header, edges⟩ := n
    have hsplit := (split_atNode hnode).place h.place.wayShaped
    rw [map_nil, append_nil (before keyData way)] at hsplit
    refine ⟨_, _, _, hsplit, beside_atNode h, ?_⟩
    cases hkey : header.iskey with
    | true => simp [own_of_iskey hkey, prepend, Tree.info, hkey]
    | false => simp [own_of_not_iskey hkey, Tree.info, hkey]
  | noEdge hnormal hfree =>
    rename_i header edges c cs
    obtain ⟨hok, _⟩ := all_node.mp hnode
    obtain ⟨left, right, rfl, hleft, hright⟩ :=
      exists_split_edges (hok.normal hnormal) hok.ordered.2 hfree
    refine ⟨_, _, _, (split_edges (cons_ne_nil c cs) ?_ ?_).place h.place.wayShaped,
      beside_noEdge h hnormal cs hleft hright, ?_⟩
    · exact fun e he => edgesEntries_lt hleft cs he
    · exact fun e he => lt_edgesEntries hright cs he
    · rfl
  | inside hcompr hdone =>
    rename_i header d ds next
    rw [append_nil]
    have hj : done.length ≠ 0 := fun hj => hdone (length_eq_zero_iff.mp hj)
    have hsplit : Split (contents (.node header ([] ++ [(done ++ d :: ds, next)]))) done
      (own keyData header ++ edgesEntries keyData []) []
      (edgesEntries keyData [(done ++ d :: ds, next)]) := by
      refine split_edges hdone (by simp [edgesEntries]) ?_
      intro e he
      obtain ⟨y, _, rfl⟩ := mem_single.mp he
      have hlt : done ++ [] < done ++ (d :: ds ++ y.1) := append_lt_append.mpr (nil_lt_cons ..)
      rwa [append_nil, ← append_assoc] at hlt
    refine ⟨_, _, _, hsplit.place h.place.wayShaped, beside_inside h hcompr hj, ?_⟩
    rw [if_neg (by simp [Tree.info, hcompr, hdone])]
    rfl
  | mismatch hcompr hne =>
    rename_i header d ds next c cs
    have hd : (done ++ d :: ds)[done.length]? = some d := by
      rw [getElem?_append_right (le_refl _), Nat.sub_self, getElem?_cons_zero]
    have hs : done ++ c :: cs ≠ [] := by simp
    have hhere : ([] : List (Bytes × Option V)).map (prepend (path way)) =
      if c :: cs = [] ∧ (header.iscompr = false ∨ done.length = 0) ∧ header.iskey then
        [(path way, raxGetData header)] else [] := by
      rfl
    rcases lt_or_gt_of_ne hne with hlt | hlt
    · have hsplit : Split (contents (.node header ([(done ++ d :: ds, next)] ++ [])))
        (done ++ c :: cs)
        (own keyData header ++ edgesEntries keyData [(done ++ d :: ds, next)]) []
        (edgesEntries keyData []) := by
        refine split_edges hs ?_ (by simp [edgesEntries])
        intro e he
        obtain ⟨y, _, rfl⟩ := mem_single.mp he
        rw [prepend, append_assoc]
        exact append_lt_append.mpr (cons_lt_cons_iff.mpr (.inl hlt))
      exact ⟨_, _, _, hsplit.place h.place.wayShaped, beside_greater h hcompr cs hd hlt, hhere⟩
    have hsplit : Split (contents (.node header ([] ++ [(done ++ d :: ds, next)])))
      (done ++ c :: cs) (own keyData header ++ edgesEntries keyData []) []
      (edgesEntries keyData [(done ++ d :: ds, next)]) := by
      refine split_edges hs (by simp [edgesEntries]) ?_
      intro e he
      obtain ⟨y, _, rfl⟩ := mem_single.mp he
      rw [prepend, append_assoc]
      exact append_lt_append.mpr (cons_lt_cons_iff.mpr (.inl hlt))
    exact ⟨_, _, _, hsplit.place h.place.wayShaped, beside_less h hcompr cs hd hlt, hhere⟩

lemma seekKey_eq {rest : Bytes}
    (hw : raxLowWalk it.rt.head ele [] = ⟨rest, n, way, j⟩) (lt gt eq : Bool) :
    seekKey it lt gt eq ele =
    if eq ∧ rest = [] ∧ (n.info.iscompr = false ∨ j = 0) ∧ n.info.iskey then
      some { it with
        node := some n
        stack := it.stack.push (parents n way)
        key := it.key.push ele
        data := raxGetData n.info }
    else if (lt || gt) then
      seekBeside gt { it with
        node := some n
        stack := it.stack.push (parents n way)
        key := it.key.push (ele.take (ele.length - rest.length - j)) } n j rest
    else some { it with
      node := some n
      stack := it.stack.push (parents n way)
      eof := true } := by
  rw [seekKey, hw]
  simp only [Bool.and_eq_true, List.isEmpty_iff, Bool.or_eq_true, Bool.not_eq_true', beq_iff_eq,
    and_assoc]

/-- What looking a string up leads to, for the flags of each operator. -/
structure Looks (it : Iterator V) (ele : Bytes) (pre here post : List (Bytes × Option V)) :
    Prop where
  lt : ∃ it', seekKey it true false false ele = some it' ∧ Sought it.rt it' pre.getLast?
  le : ∃ it', seekKey it true false true ele = some it' ∧ Sought it.rt it' (pre ++ here).getLast?
  eq : ∃ it', seekKey it false false true ele = some it' ∧ Sought it.rt it' here.head?
  ge : ∃ it', seekKey it false true true ele = some it' ∧ Sought it.rt it' (here ++ post).head?
  gt : ∃ it', seekKey it false true false ele = some it' ∧ Sought it.rt it' post.head?

/-- Looking a string up: the keys before, at and behind it, and what is found. -/
lemma seekKey_spec (it : Iterator V) (hv : Valid it.rt) (hstack : it.stack.used = [])
    (hkey : it.key.used = []) (heof : it.eof = false) (hseek : it.justSeeked)
    (ele : Bytes) :
    ∃ pre here post, Split (contents it.rt.head) ele pre here post ∧
    Looks it ele pre here post := by
  generalize hw : raxLowWalk it.rt.head ele [] = w
  obtain ⟨rest, n, way, j⟩ := w
  obtain ⟨done, hplug, hshape, hway, hele, hstop⟩ := raxLowWalk_head hv.shaped hw
  have hpath : ele.take (ele.length - rest.length - j) = path way := by
    rw [hstop.splitpos_eq, hele]
    simp only [length_append]
    rw [show (path way).length + (done.length + rest.length) - rest.length - done.length =
      (path way).length by omega, take_left]
  generalize hready : ({ it with
    node := some n
    stack := it.stack.push (parents n way)
    key := it.key.push (path way) } : Iterator V) = it1
  have hrt : it1.rt = it.rt := by rw [← hready]
  have h : Ready it1 n way := by
    subst hready
    refine ⟨⟨rfl, ?_, ?_, hplug, hshape, hway⟩, hv.numnodes, heof, hseek⟩
    · show it.stack.used ++ parents n way = _
      rw [hstack]
      rfl
    · show it.key.used ++ path way = _
      rw [hkey]
      rfl
  obtain ⟨pre, here, post, hsplit, hbeside, hhere⟩ := stop_beside h hstop
  rw [hrt, ← hele] at hsplit
  refine ⟨pre, here, post, hsplit, ?_⟩
  obtain ⟨hgt, hlt⟩ := hbeside
  rw [hrt] at hgt hlt
  have heq := seekKey_eq hw
  rw [hpath, hready] at heq
  by_cases hfound : rest = [] ∧ (n.info.iscompr = false ∨ j = 0) ∧ n.info.iskey
  · rw [if_pos hfound] at hhere
    simp only [hfound] at heq
    obtain ⟨rfl, hj, hnkey⟩ := hfound
    obtain rfl : ele = path way := by
      rw [hele, hstop.done_eq_nil hj, nil_append, append_nil]
    have hhit : Sought it.rt { it1 with data := raxGetData n.info }
      (some (path way, raxGetData n.info)) := by
      rw [← hrt]
      exact h.here hnkey
    have hdata : ({ it with
      node := some n
      stack := it.stack.push (parents n way)
      key := it.key.push (path way)
      data := raxGetData n.info } : Iterator V) = { it1 with data := raxGetData n.info } := by
      rw [← hready]
    rw [hdata] at heq
    rw [hhere]
    refine ⟨?_, ?_, ?_, ?_, ?_⟩
    · rw [heq]
      exact hlt
    · rw [heq, getLast?_append_of_ne_nil _ (by simp)]
      exact ⟨_, rfl, hhit⟩
    · rw [heq]
      exact ⟨_, rfl, hhit⟩
    · rw [heq]
      exact ⟨_, rfl, hhit⟩
    · rw [heq]
      exact hgt
  · rw [if_neg hfound] at hhere
    simp only [hfound] at heq
    rw [hhere]
    refine ⟨?_, ?_, ?_, ?_, ?_⟩
    · rw [heq]
      exact hlt
    · rw [heq, append_nil]
      exact hlt
    · rw [heq]
      exact ⟨_, rfl, rfl⟩
    · rw [heq]
      exact hgt
    · rw [heq]
      exact hgt

/-- The relation of a key to the string that an operator asks for. -/
def rel (op : Op) (ele : Bytes) (k : Bytes) : Prop :=
  match op with
  | .lt => k < ele
  | .le => k ≤ ele
  | .eq => k = ele
  | .ge => ele ≤ k
  | .gt => ele < k
  | .first | .last => True

/-- Is the least key wanted? -/
def forward : Op → Bool
  | .eq | .ge | .gt | .first => true
  | .lt | .le | .last => false

/-- The least or the greatest key in the relation, or none if there is none. -/
def IsSought (op : Op) (ele : Bytes) (es : List (Bytes × Option V)) :
    Option (Bytes × Option V) → Prop
  | none => ∀ e ∈ es, ¬ rel op ele e.1
  | some x => x ∈ es ∧ rel op ele x.1 ∧
      ∀ e ∈ es, rel op ele e.1 → if forward op then x.1 ≤ e.1 else e.1 ≤ x.1

section

variable (h : Sorted (es.map fst)) {x : Bytes × Option V}

include h

lemma head_le (hx : es.head? = some x) (he : e ∈ es) : x.1 ≤ e.1 := by
  cases es with
  | nil => cases hx
  | cons y es =>
    cases hx
    rw [Sorted, map_cons, pairwise_cons] at h
    rcases mem_cons.mp he with rfl | he
    · exact le_refl _
    · exact le_of_lt (h.1 _ (mem_map_of_mem he))

lemma le_getLast (hx : es.getLast? = some x) (he : e ∈ es) : e.1 ≤ x.1 := by
  rcases eq_nil_or_concat' es with rfl | ⟨es, y, rfl⟩
  · cases hx
  rw [getLast?_concat] at hx
  cases hx
  rw [Sorted, map_append, pairwise_append] at h
  rcases mem_append.mp he with he | he
  · exact le_of_lt (h.2.2 _ (mem_map_of_mem he) _ (by simp))
  · rw [mem_singleton.mp he]

end

lemma isSought_middle {op : Op} {xs ys zs : List (Bytes × Option V)}
    (hsorted : Sorted (es.map fst)) (heq : es = xs ++ (ys ++ zs))
    (hxs : ∀ e ∈ xs, ¬ rel op ele e.1) (hys : ∀ e ∈ ys, rel op ele e.1)
    (hzs : ∀ e ∈ zs, ¬ rel op ele e.1) :
    IsSought op ele es (if forward op then ys.head? else ys.getLast?) := by
  have hmem : ∀ e ∈ es, rel op ele e.1 → e ∈ ys := by
    intro e he hrel
    rw [heq, mem_append, mem_append] at he
    rcases he with he | he | he
    · exact absurd hrel (hxs e he)
    · exact he
    · exact absurd hrel (hzs e he)
  have hin : ∀ e ∈ ys, e ∈ es := by
    intro e he
    rw [heq]
    exact mem_append_right _ (mem_append_left _ he)
  have hsub : Sorted (ys.map fst) := by
    rw [heq, map_append, map_append] at hsorted
    exact (pairwise_append.mp (pairwise_append.mp hsorted).2.1).1
  have hnil : ys = [] → ∀ e ∈ es, ¬ rel op ele e.1 := by
    rintro rfl e he hrel
    cases hmem e he hrel
  cases hforward : forward op with
  | true =>
    cases hhead : ys.head? with
    | none => exact hnil (head?_eq_none_iff.mp hhead)
    | some x =>
      have hx := mem_of_head? hhead
      refine ⟨hin x hx, hys x hx, fun e he hrel => ?_⟩
      rw [hforward]
      exact head_le hsub hhead (hmem e he hrel)
  | false =>
    cases hlast : ys.getLast? with
    | none => exact hnil (getLast?_eq_none_iff.mp hlast)
    | some x =>
      have hx := mem_of_getLast? hlast
      refine ⟨hin x hx, hys x hx, fun e he hrel => ?_⟩
      rw [hforward]
      exact le_getLast hsub hlast (hmem e he hrel)

/-- The key that an operator asks for, in terms of the keys before, at and behind. -/
def target (pre here post : List (Bytes × Option V)) : Op → Option (Bytes × Option V)
  | .lt => pre.getLast?
  | .le => (pre ++ here).getLast?
  | .eq => here.head?
  | .ge => (here ++ post).head?
  | .gt => post.head?
  | .first => (pre ++ (here ++ post)).head?
  | .last => (pre ++ (here ++ post)).getLast?

lemma Split.isSought {here : List (Bytes × Option V)}
    (h : Split es ele pre here post) (hsorted : Sorted (es.map fst)) (op : Op) :
    IsSought op ele es (target pre here post op) := by
  have hassoc : es = [] ++ ((pre ++ here) ++ post) := by rw [h.eq, append_assoc]; rfl
  have hassoc' : es = (pre ++ here) ++ (post ++ []) := by rw [h.eq, append_assoc, append_nil]
  have hlast : es = pre ++ ((here ++ post) ++ []) := by rw [h.eq, append_nil]
  have hnone : ∀ e ∈ ([] : List (Bytes × Option V)), ¬ rel op ele e.1 := by simp
  have hle : ∀ e ∈ pre ++ here, e.1 ≤ ele := by
    intro e he
    rcases mem_append.mp he with he | he
    · exact le_of_lt (h.pre_lt e he)
    · exact le_of_eq (h.here_eq e he)
  have hge : ∀ e ∈ here ++ post, ele ≤ e.1 := by
    intro e he
    rcases mem_append.mp he with he | he
    · exact le_of_eq (h.here_eq e he).symm
    · exact le_of_lt (h.lt_post e he)
  cases op with
  | lt => exact isSought_middle hsorted h.eq hnone h.pre_lt fun e he => not_lt.mpr (hge e he)
  | le => exact isSought_middle hsorted hassoc hnone hle fun e he => not_le.mpr (h.lt_post e he)
  | eq =>
    exact isSought_middle hsorted h.eq (fun e he => ne_of_lt (h.pre_lt e he)) h.here_eq
      fun e he => ne_of_gt (h.lt_post e he)
  | ge => exact isSought_middle hsorted hlast (fun e he => not_le.mpr (h.pre_lt e he)) hge hnone
  | gt => exact isSought_middle hsorted hassoc' (fun e he => not_lt.mpr (hle e he)) h.lt_post hnone
  | first =>
    exact isSought_middle hsorted (show es = [] ++ ((pre ++ (here ++ post)) ++ []) by
      rw [h.eq, append_nil]; rfl) hnone (fun _ _ => trivial) hnone
  | last =>
    exact isSought_middle hsorted (show es = [] ++ ((pre ++ (here ++ post)) ++ []) by
      rw [h.eq, append_nil]; rfl) hnone (fun _ _ => trivial) hnone

lemma Split.pre_eq_nil {here : List (Bytes × Option V)}
    (h : Split es [] pre here post) : pre = [] := by
  apply eq_nil_iff_forall_not_mem.mpr
  intro e he
  exact not_lt_nil _ (h.pre_lt e he)

lemma seekOp_last (hv : Valid it.rt) (hne : contents it.rt.head ≠ [])
    (hstack : it.stack.used = []) (hkey : it.key.used = []) (heof : it.eof = false)
    (hseek : it.justSeeked) (ele : Bytes) :
    ∃ it', seekOp it ele .last = some it' ∧ Sought it.rt it' (contents it.rt.head).getLast? := by
  have h : Ready { it with node := some it.rt.head } it.rt.head [] :=
    ⟨⟨rfl, hstack, hkey, rfl, hv.shaped, trivial⟩, hv.numnodes, heof, hseek⟩
  obtain ⟨it', m, heq, hnode, hmkey, hsought⟩ := h.greatest hne
  refine ⟨{ it' with data := raxGetData m.info }, ?_, ?_⟩
  · simp [seekOp, heq, hnode, hmkey]
  · have hmap := map_prepend_nil (contents it.rt.head)
    rw [path, hmap] at hsought
    exact hsought

lemma raxSeek_spec (hv : Valid it.rt) (op : Op) (ele : Bytes) :
    ∃ it' r, raxSeek it op ele = some it' ∧ IsSought op ele (contents it.rt.head) r ∧
    Sought it.rt it' r := by
  have hsorted := sorted_contents hv.shaped
  rw [raxSeek]
  split
  next hnone =>
    have hes : contents it.rt.head = [] := length_eq_zero_iff.mp (hv.numele.symm.trans hnone)
    refine ⟨_, none, rfl, ?_, rfl⟩
    rw [hes]
    simp [IsSought]
  next hsome =>
    have hne : contents it.rt.head ≠ [] := by
      intro hes
      rw [hv.numele, hes] at hsome
      exact hsome rfl
    obtain ⟨pre, here, post, hsplit, hlooks⟩ := seekKey_spec (reset it) hv rfl rfl rfl rfl ele
    have hseek : ∃ it', seekOp (reset it) ele op = some it' ∧
      Sought it.rt it' (target pre here post op) := by
      cases op with
      | lt => exact hlooks.lt
      | le => exact hlooks.le
      | eq => exact hlooks.eq
      | ge => exact hlooks.ge
      | gt => exact hlooks.gt
      | first =>
        obtain ⟨pre', here', post', hsplit', hlooks'⟩ :=
          seekKey_spec (reset (reset it)) hv rfl rfl rfl rfl []
        have heq := hsplit'.eq
        rw [hsplit'.pre_eq_nil, nil_append] at heq
        rw [target, ← hsplit.eq]
        have hge := hlooks'.ge
        rw [← heq] at hge
        exact hge
      | last =>
        rw [target, ← hsplit.eq]
        exact seekOp_last (show Valid (reset it).rt from hv) hne rfl rfl rfl rfl ele
    obtain ⟨it', heq, hfound⟩ := hseek
    exact ⟨it', _, heq, hsplit.isSought hsorted op, hfound⟩

/-! ## Moving along the keys -/

inductive Move
  | next
  | prev

/-- `raxNext` or `raxPrev`. -/
def move (it : Iterator V) : Move → Option (Iterator V × Option (Bytes × Option V))
  | .next => raxNext it
  | .prev => raxPrev it

/-- Moves one after the other: what they return. -/
def moves (it : Iterator V) : List Move → Option (List (Option (Bytes × Option V)))
  | [] => some []
  | m :: ms => do
      let (it, r) ← move it m
      let rs ← moves it ms
      some (r :: rs)

/-- One position on or back in a list of that length; there is no way back from its ends. -/
def moved (len : Nat) (pos : Option Nat) : Move → Option Nat
  | .next => pos.bind fun i => if i + 1 < len then some (i + 1) else none
  | .prev => pos.bind fun i => if 0 < i then some (i - 1) else none

/-- The element at a position. -/
def element (es : List (Bytes × Option V)) (pos : Option Nat) : Option (Bytes × Option V) :=
  pos.bind fun i => es[i]?

/-- What moves along a list return. -/
def trail (es : List (Bytes × Option V)) (pos : Option Nat) :
    List Move → List (Option (Bytes × Option V))
  | [] => []
  | m :: ms => element es (moved es.length pos m) :: trail es (moved es.length pos m) ms

/-- The iterator is at a position. -/
def Tracks (rax : Rax V) (it : Iterator V) (pos : Option Nat) : Prop :=
  match pos with
  | none => it.eof = true
  | some i => ∃ k v, (contents rax.head)[i]? = some (k, v) ∧ On it k v ∧ it.rt = rax ∧
      it.eof = false

lemma Tracks.outcome (h : Tracks rax it pos) : outcome it = element (contents rax.head) pos := by
  cases pos with
  | none =>
    have heof : it.eof := h
    rw [RadixIterator.outcome, if_pos heof]
    rfl
  | some i =>
    obtain ⟨k, v, hget, ⟨n, way, hat, _, hk, _, hdata⟩, _, heof⟩ := h
    rw [RadixIterator.outcome, if_neg (by simp [heof]), hat.key, hk, hdata]
    exact hget.symm

/-- A key and what surrounds it in the list of the keys. -/
lemma on_split (hv : Valid rax)
    (hat : At it n way) (hkey : n.info.iskey) (hrt : it.rt = rax) {i : Nat}
    (hget : (contents rax.head)[i]? = some (path way, raxGetData n.info)) :
    i = (before keyData way).length ∧
    contents rax.head = before keyData way ++ (path way, raxGetData n.info) ::
      ((edgesEntries keyData n.edges).map (prepend (path way)) ++ behind keyData way) := by
  have heq : contents rax.head = before keyData way ++ (path way, raxGetData n.info) ::
    ((edgesEntries keyData n.edges).map (prepend (path way)) ++ behind keyData way) := by
    rw [← hrt, ← hat.tree, contents, entries_plug]
    obtain ⟨header, edges⟩ := n
    rw [entries, own_of_iskey (show header.iskey from hkey)]
    simp [prepend, Tree.info, Tree.edges]
  refine ⟨?_, heq⟩
  have hnodup : (contents rax.head).Nodup :=
    .of_map fst ((sorted_contents hv.shaped).imp fun hlt => ne_of_lt hlt)
  have hlen : i < (contents rax.head).length := (List.getElem?_eq_some_iff.mp hget).1
  apply (getElem?_inj hlen hnodup).mp
  rw [hget, heq, getElem?_append_right (le_refl _), Nat.sub_self, getElem?_cons_zero]

section

variable (xs ys : List (Bytes × Option V)) (x : Bytes × Option V)

lemma element_next :
    element (xs ++ x :: ys) (moved (xs ++ x :: ys).length (some xs.length) .next) = ys.head? := by
  cases ys with
  | nil =>
    rw [moved, bind_some, if_neg (by simp)]
    rfl
  | cons y ys =>
    rw [moved, bind_some, if_pos (by simp), element, bind_some]
    simp

lemma element_prev : element (xs ++ x :: ys) (moved (xs ++ x :: ys).length (some xs.length) .prev) =
    xs.getLast? := by
  rcases eq_nil_or_concat' xs with rfl | ⟨xs, y, rfl⟩
  · rfl
  · rw [moved, bind_some, if_pos (by simp), element, bind_some, append_assoc]
    simp

end

lemma moved_lt {len i : Nat} (hpos : ∀ i ∈ pos, i < len) (m : Move)
    (h : i ∈ moved len pos m) : i < len := by
  cases pos with
  | none => cases m <;> cases h
  | some j =>
    have hj := hpos j rfl
    cases m with
    | next =>
      rw [moved, bind_some] at h
      split at h
      · cases h
        assumption
      · cases h
    | prev =>
      rw [moved, bind_some] at h
      split at h
      · cases h
        omega
      · cases h

lemma lands_tracks (hpos : ∀ i ∈ pos, i < (contents rax.head).length) (hrt : it.rt = rax)
    (heof : it.eof = false) (h : Lands it it' (element (contents rax.head) pos)) :
    Tracks rax it' pos ∧ (it'.justSeeked = it.justSeeked) := by
  cases pos with
  | none =>
    obtain rfl : it' = { it with eof := true } := h
    exact ⟨rfl, rfl⟩
  | some i =>
    obtain ⟨⟨k, v⟩, hget⟩ := isSome_iff_exists.mp
      (show (contents rax.head)[i]?.isSome from by simp [hpos i rfl])
    rw [element, bind_some, hget] at h
    obtain ⟨hon, hsame⟩ := h
    exact ⟨⟨k, v, hget, hon, hsame.rt.trans hrt, hsame.eof.trans heof⟩, hsame.justSeeked⟩

lemma move_eof (heof : it.eof) (m : Move) : move it m = some (it, none) := by
  have hout : outcome it = none := if_pos heof
  cases m with
  | next => rw [move, raxNext, raxIteratorNextStep, if_pos heof, map_some, hout]
  | prev => rw [move, raxPrev, raxIteratorPrevStep, if_pos heof, map_some, hout]

/-- The first move after a seek stays where the seek led to. -/
lemma move_fresh (h : Tracks rax it pos) (hfresh : it.justSeeked ∨ pos = none) (m : Move) :
    ∃ it', move it m = some (it', element (contents rax.head) pos) ∧ Tracks rax it' pos ∧
    (it'.justSeeked = false ∨ pos = none) := by
  cases pos with
  | none => exact ⟨it, move_eof h m, h, .inr rfl⟩
  | some i =>
    have hseek := hfresh.resolve_right (by simp)
    obtain ⟨k, v, hget, ⟨n, way, hat, hon⟩, hrt, heof⟩ := h
    have htracks : Tracks rax { it with justSeeked := false } (some i) :=
      ⟨k, v, hget, ⟨n, way, { hat with }, hon⟩, hrt, heof⟩
    refine ⟨{ it with justSeeked := false }, ?_, htracks, .inl rfl⟩
    rw [← htracks.outcome]
    cases m with
    | next =>
      rw [move, raxNext, raxIteratorNextStep, if_neg (by simp [heof]), if_pos hseek]
      rfl
    | prev =>
      rw [move, raxPrev, raxIteratorPrevStep, if_neg (by simp [heof]), if_pos hseek]
      rfl

/-- A move goes to the next or the previous position. -/
lemma move_spec (hv : Valid rax)
    (h : Tracks rax it pos) (hpos : ∀ i ∈ pos, i < (contents rax.head).length)
    (hfresh : it.justSeeked = false ∨ pos = none) (m : Move) :
    ∃ it', move it m =
      some (it', element (contents rax.head) (moved (contents rax.head).length pos m)) ∧
    Tracks rax it' (moved (contents rax.head).length pos m) ∧
    (it'.justSeeked = false ∨ moved (contents rax.head).length pos m = none) := by
  cases pos with
  | none =>
    have hnone : moved (contents rax.head).length none m = none := by cases m <;> rfl
    rw [hnone]
    exact ⟨it, move_eof h m, h, .inr rfl⟩
  | some i =>
    have hseek := hfresh.resolve_right (by simp)
    obtain ⟨k, v, hget, ⟨n, way, hat, hkey, rfl, rfl, _⟩, hrt, heof⟩ := h
    obtain ⟨rfl, heq⟩ := on_split hv hat hkey hrt hget
    have hturns := le_turns hat (hrt ▸ hv.numnodes)
    have hlt := fun j => moved_lt hpos m (i := j)
    -- Where the loop lands is the element of the new position.
    have hland : ∃ it', (match m with
      | .next => raxIteratorNextStep it false
      | .prev => raxIteratorPrevStep it false) = some it' ∧
      Lands it it' (element (contents rax.head)
        (moved (contents rax.head).length (some (before keyData way).length) m)) := by
      cases m with
      | next =>
        rw [raxIteratorNextStep, if_neg (by simp [heof]), if_neg (by simp [hseek]), heq,
          element_next]
        exact nextLoop_spec hat hturns
      | prev =>
        rw [raxIteratorPrevStep, if_neg (by simp [heof]), if_neg (by simp [hseek]), heq,
          element_prev]
        exact prevLoop_up way hat (Popped.refl it) (by omega)
    obtain ⟨it', hstep, hlands⟩ := hland
    obtain ⟨htracks, hflag⟩ := lands_tracks hlt hrt heof hlands
    refine ⟨it', ?_, htracks, .inl (hflag.trans hseek)⟩
    rw [← htracks.outcome]
    cases m with
    | next => exact congrArg (Option.map _) hstep
    | prev => exact congrArg (Option.map _) hstep

lemma moves_spec (hv : Valid rax) (ms : List Move) (h : Tracks rax it pos)
    (hpos : ∀ i ∈ pos, i < (contents rax.head).length)
    (hfresh : it.justSeeked = false ∨ pos = none) :
    moves it ms = some (trail (contents rax.head) pos ms) := by
  induction ms generalizing it pos with
  | nil => rfl
  | cons m ms ih =>
    obtain ⟨it', hmove, htracks, hfresh'⟩ := move_spec hv h hpos hfresh m
    have hrest := ih htracks (fun i hi => moved_lt hpos m hi) hfresh'
    rw [moves, hmove]
    simp [hrest, trail]

lemma sought_tracks {op : Op} (hr : IsSought op ele (contents rax.head) r) (h : Sought rax it r) :
    ∃ pos, (∀ i ∈ pos, i < (contents rax.head).length) ∧ element (contents rax.head) pos = r ∧
    Tracks rax it pos ∧ (it.justSeeked ∨ pos = none) := by
  cases r with
  | none => exact ⟨none, by simp, rfl, h, .inr rfl⟩
  | some x =>
    obtain ⟨k, v⟩ := x
    obtain ⟨hon, hrt, heof, hseek⟩ := h
    obtain ⟨i, hget⟩ := mem_iff_getElem?.mp hr.1
    refine ⟨some i, ?_, hget, ⟨k, v, hget, hon, hrt, heof⟩, .inl hseek⟩
    intro j hj
    cases hj
    exact (List.getElem?_eq_some_iff.mp hget).1

/-- Any calls make a radix tree; its keys are in the order of the list `es`.  A seek with
any iterator on the tree leads to the least or the greatest key in the relation of its
operator.  The first move returns that key, whatever its direction, and the moves that
follow go through the list, one position each time, until they reach an end of it. -/
theorem raxSeek_moves (calls : List (Call V)) (it : Iterator V) (op : Op) (ele : Bytes) :
    ∃ rax replies, run step (raxNew, []) calls = some (rax, replies) ∧
      ∃ es : List (Bytes × Option V), Sorted (es.map fst) ∧
        (∀ s v, (s, v) ∈ es ↔ raxFind rax s = ⟨true, some v⟩) ∧
      ∃ pos, (∀ i ∈ pos, i < es.length) ∧ IsSought op ele es (element es pos) ∧
      ∃ it', raxSeek { it with rt := rax } op ele = some it' ∧
        ∀ m ms, moves it' (m :: ms) = some (element es pos :: trail es pos ms) := by
  obtain ⟨rax, hrun, hm⟩ := run_matches calls
  obtain ⟨it', r, hseek, hr, hsought⟩ :=
    raxSeek_spec (show Valid ({ it with rt := rax } : Iterator V).rt from hm.valid) op ele
  obtain ⟨pos, hpos, rfl, htracks, hfresh⟩ := sought_tracks hr hsought
  refine ⟨rax, _, hrun, contents rax.head, sorted_contents hm.valid.shaped, ?_, pos, hpos, hr, it',
    hseek, ?_⟩
  · intro s v
    rw [hm.represents s v, hm.find s]
    cases hlook : (calls.foldl mapStep (∅, [])).1.lookup s <;> simp
  intro m ms
  obtain ⟨it₁, hmove, htracks₁, hfresh₁⟩ := move_fresh htracks hfresh m
  rw [moves, hmove]
  simp [moves_spec hm.valid ms htracks₁ hpos hfresh₁]

end Dice.Ports.RadixIteratorSeek
