import Dice.Verified.Run
import Dice.Ports.RadixIterator
import Dice.Ports.RadixTreeWalk

/-!
# Steps of the iterator

An iterator at a node of the tree goes to the first key of what follows, or to
the last key of what comes before.  If there is none it stays as it was, up to
the flag.
-/

namespace Dice.Ports.RadixIteratorSteps

open List hiding count
open Verified Run CString PrefixTree ArrayStack RadixTree RadixTreeWalk
open RadixIterator

variable {V : Type}

/-! ## Where an iterator is -/

/-- The iterator is at a node of its tree. -/
structure At (it : Iterator V) (n : Node V) (way : Way V) : Prop where
  node : it.node = some n
  stack : it.stack.used = parents n way
  key : it.key.used = path way
  tree : plug n way = it.rt.head
  shaped : Shaped way.isEmpty n
  wayShaped : AllWay NodeOk way

/-- The iterator is at a key. -/
def On (it : Iterator V) (k : Bytes) (v : Option V) : Prop :=
  ∃ n way, At it n way ∧ n.info.iskey = true ∧ path way = k ∧ raxGetData n.info = v ∧ it.data = v

/-- The same tree and flags. -/
structure Same (orig it : Iterator V) : Prop where
  rt : it.rt = orig.rt
  eof : it.eof = orig.eof
  justSeeked : it.justSeeked = orig.justSeeked

/-- Where a step leads: to a key, or to the end with everything else as before. -/
def Lands (orig it : Iterator V) : Option (Bytes × Option V) → Prop
  | none => it = { orig with eof := true }
  | some (k, v) => On it k v ∧ Same orig it

/-- Only going up has happened. -/
structure Popped (orig it : Iterator V) : Prop where
  rest : it = { orig with node := it.node, key := it.key, stack := it.stack }
  key : it.key.cells = orig.key.cells
  stack : it.stack.cells = orig.stack.cells

lemma Popped.refl (it : Iterator V) : Popped it it := ⟨rfl, rfl, rfl⟩

lemma Popped.trans {a b c : Iterator V} (h : Popped a b) (h' : Popped b c) : Popped a c := by
  refine ⟨?_, h'.key.trans h.key, h'.stack.trans h.stack⟩
  rw [h'.rest, h.rest]

variable {orig it : Iterator V} {f : Frame UInt8 (Header V)} {way : Way V} {header : Header V}
  {fuel : Nat} {n : Node V} {left right : List (Bytes × Node V)} {c : UInt8} {noup : Bool}
  {extra : Bytes}

lemma Popped.same (h : Popped orig it) : Same orig it := by
  rw [h.rest]
  exact ⟨rfl, rfl, rfl⟩

lemma Same.enter (h : Same orig it) (n : Node V) (e : Bytes × Node V) :
    Same orig (enter it n e) := { h with }

lemma endAt_eq (h : Popped orig it) : endAt orig it = { orig with eof := true } := by
  rw [endAt, Stack.resize_eq h.key, Stack.resize_eq h.stack, h.rest]

lemma At.enter {t : Node V}
    (h : At it (f.fill t) way) : At (enter it (f.fill t) (f.label, t)) t (f :: way) := by
  obtain ⟨ht, hway⟩ := allWay_cons h.shaped h.wayShaped
  refine ⟨rfl, ?_, ?_, h.tree, ht, hway⟩
  · show it.stack.used ++ [f.fill t] = _
    rw [h.stack]
    rfl
  · show it.key.used ++ f.label = _
    rw [h.key]
    rfl

lemma contents_ne_nil {t : Node V} (h : Shaped false t) : contents t ≠ [] := by
  induction t using Tree.induction with
  | h header edges ih =>
    obtain ⟨hnode, hbelow⟩ := all_node.mp h
    rw [contents, entries]
    rcases hnode.alive.resolve_left Bool.false_ne_true with hkey | hlabels
    · rw [own_of_iskey hkey]
      simp
    cases edges with
    | nil => exact absurd rfl hlabels
    | cons e edges =>
      have hne := ih e (mem_cons_self ..) (hbelow e (mem_cons_self ..))
      rw [edgesEntries_cons e.1 e.2]
      simp [hne]

lemma nextLoop_down {l : Bytes} {u : Node V}
    {edges : List (Bytes × Node V)} (hnode : it.node = some (.node header ((l, u) :: edges)))
    (fuel : Nat) (orig : Iterator V) :
    nextLoop (fuel + 1) orig it false false =
    if u.info.iskey then
      some { enter it (.node header ((l, u) :: edges)) (l, u) with data := raxGetData u.info }
    else nextLoop fuel orig (enter it (.node header ((l, u) :: edges)) (l, u)) false false := by
  simp [nextLoop, hnode, Tree.edges]

/-- A child is entered, and below it the first children until there is a key. -/
lemma visit_spec (t : Node V)
    (h : At it (f.fill t) way) (hsame : Same orig it) (hfuel : count t ≤ fuel) :
    ∃ it', (if t.info.iskey then
      some { enter it (f.fill t) (f.label, t) with data := raxGetData t.info }
    else nextLoop fuel orig (enter it (f.fill t) (f.label, t)) false false) = some it' ∧
    Lands orig it' ((contents t).map (prepend (path (f :: way)))).head? := by
  induction t using Tree.induction generalizing f it way fuel with
  | h header edges ih =>
  have hat := h.enter
  cases hkey : header.iskey with
  | true =>
    refine ⟨_, if_pos hkey, ?_⟩
    rw [contents, entries, own_of_iskey hkey]
    refine ⟨⟨_, _, { hat with node := rfl }, hkey, ?_,
      rfl, rfl⟩, hsame.rt, hsame.eof, hsame.justSeeked⟩
    rw [append_nil]
  | false =>
    rw [if_neg (by simp [Tree.info, hkey])]
    have halive := (all_node.mp hat.shaped).1.alive
    cases edges with
    | nil => simp [hkey] at halive
    | cons e edges =>
      obtain ⟨l, u⟩ := e
      have hcount : count u < count (.node header ((l, u) :: edges)) :=
        count_lt_fill ⟨header, [], l, edges⟩ u
      obtain ⟨k, rfl⟩ := Nat.exists_eq_add_of_lt (Nat.lt_of_lt_of_le hcount hfuel)
      have hne := contents_ne_nil ((all_node.mp hat.shaped).2 (l, u) (mem_cons_self ..))
      obtain ⟨it', hloop, hlands⟩ := ih (l, u) (mem_cons_self ..)
        (f := ⟨header, [], l, edges⟩) hat (hsame.enter _ _)
        (show count u ≤ count u + k from Nat.le_add_right _ _)
      refine ⟨it', ?_, ?_⟩
      · exact hloop
      rw [contents, entries, own_of_not_iskey hkey, nil_append, edgesEntries_cons,
        map_append, head?_append_of_ne_nil _ (by simpa using hne),
        ← map_prepend_append]
      exact hlands

lemma length_label {root : Bool} (hf : f.All NodeOk root)
    (t : Node V) : (if f.info.iscompr then size (f.fill t) else 1) = f.label.length := by
  obtain ⟨header, left, l, right⟩ := f
  cases hcompr : header.iscompr with
  | true =>
    obtain ⟨rfl, rfl⟩ : left = [] ∧ right = [] := frame_compressed hf hcompr
    rw [size, Frame.fill, Tree.info, if_pos hcompr]
    simp [Tree.edges]
  | false => exact (hf.1.normal hcompr l (by simp)).symm

lemma climb_spec (h : At it n (f :: way)) :
    ∃ c it', climb it false = some (c, it') ∧ f.label.getLast? = some c ∧
    At it' (f.fill n) way ∧ Popped it it' := by
  have hf := h.wayShaped.1
  have hne : f.label ≠ [] := hf.1.ordered.1 _ (by simp)
  obtain ⟨c, hc⟩ := Option.ne_none_iff_exists'.mp (mt getLast?_eq_none_iff.mp hne)
  have hlast : it.key.used.getLast? = some c := by
    rw [h.key, path, getLast?_append, hc]
    rfl
  have htop : it.stack.used.getLast? = some (f.fill n) := by rw [h.stack, parents, getLast?_concat]
  obtain ⟨stack, hdrop, hstack, hcells⟩ :=
    Stack.drop_append (show it.stack.used = parents (f.fill n) way ++ [f.fill n] from h.stack)
  obtain ⟨key, hkdrop, hkey, hkcells⟩ :=
    Stack.drop_append (show it.key.used = path way ++ f.label from h.key)
  refine ⟨c, { it with stack := stack, node := some (f.fill n), key := key }, ?_, hc,
    ⟨rfl, hstack, hkey, h.tree, all_fill.mpr ⟨h.shaped, hf⟩, h.wayShaped.2⟩,
    ⟨rfl, hkcells, hcells⟩⟩
  have hpop : popNode it = some { it with stack := stack, node := some (f.fill n) } := by
    rw [popNode, htop, ← length_singleton (a := f.fill n), hdrop]
    rfl
  rw [climb, hlast, hpop]
  simp only [some_bind]
  rw [show (f.fill n).info = f.info from rfl, length_label hf n, hkdrop]
  rfl

lemma find?_right {α : Type} {p : α → Bool} {left right : List α}
    (hleft : ∀ x ∈ left, p x = false) (hright : ∀ x ∈ right, p x) :
    (left ++ right).find? p = right.head? := by
  rw [find?_append, find?_eq_none.mpr fun x hx => by simp [hleft x hx], Option.none_or]
  cases right with
  | nil => rfl
  | cons x right => rw [find?_cons_of_pos (hright x (mem_cons_self ..)), head?_cons]

section

variable (hcompr : n.info.iscompr = false) (hedges : n.edges = left ++ right)

include hcompr hedges

lemma scan_right (hleft : ∀ e ∈ left, ¬ [c] < e.1) (hright : ∀ e ∈ right, [c] < e.1)
    (hsize : n.edges.length ≤ (if noup then 0 else 1) → right = []) :
    (if mayScan n noup then n.edges.find? fun e => [c] < e.1 else none) = right.head? := by
  have hn : size n = n.edges.length := by rw [size, hcompr]; rfl
  split
  next =>
    rw [hedges]
    exact find?_right (by simpa using hleft) (by simpa using hright)
  next hscan =>
    rw [mayScan, hcompr, Bool.not_false, Bool.true_and, decide_eq_true_eq] at hscan
    rw [hsize (by omega)]
    rfl

lemma scan_left (hleft : ∀ e ∈ left, e.1 < [c]) (hright : ∀ e ∈ right, ¬ e.1 < [c])
    (hsize : n.edges.length ≤ (if noup then 0 else 1) → left = []) :
    (if mayScan n noup then n.edges.reverse.find? fun e => e.1 < [c] else none) =
    left.getLast? := by
  have hn : size n = n.edges.length := by rw [size, hcompr]; rfl
  split
  next =>
    rw [hedges, reverse_append, ← head?_reverse]
    exact find?_right (by simpa using hright) (by simpa using hleft)
  next hscan =>
    rw [mayScan, hcompr, Bool.not_false, Bool.true_and, decide_eq_true_eq] at hscan
    rw [hsize (by omega)]
    rfl

end

lemma not_mayScan (hcompr : n.info.iscompr) (noup : Bool) : mayScan n noup = false := by
  rw [mayScan, hcompr]
  rfl

/-- The children beside the one that the way comes from. -/
lemma scan_frame {root : Bool} (hf : f.All NodeOk root)
    (t : Node V) (hc : f.label.getLast? = some c) :
    (if mayScan (f.fill t) false then (f.fill t).edges.find? fun e => [c] < e.1 else none) =
      f.right.head? ∧
    (if mayScan (f.fill t) false then (f.fill t).edges.reverse.find? fun e => e.1 < [c]
      else none) = f.left.getLast? := by
  cases hcompr : f.info.iscompr with
  | true =>
    obtain ⟨hleft, hright⟩ := frame_compressed hf hcompr
    rw [not_mayScan (show (f.fill t).info.iscompr from hcompr), hleft, hright]
    exact ⟨rfl, rfl⟩
  | false =>
    obtain ⟨_, hleft, hright⟩ := Frame.ordered hf.1.ordered
    obtain ⟨b, hb⟩ := length_eq_one_iff.mp (hf.1.normal hcompr f.label (by simp))
    rw [hb] at hc hleft hright
    obtain rfl : b = c := by simpa using hc
    have hedges : (f.fill t).edges = f.left ++ ([b], t) :: f.right := by
      rw [Frame.fill, Tree.edges, hb]
    have hedges' : (f.fill t).edges = (f.left ++ [([b], t)]) ++ f.right := by
      rw [hedges, append_assoc, singleton_append]
    have hone : (f.fill t).edges.length ≤ 1 → f.left = [] ∧ f.right = [] := by
      intro hle
      rw [hedges, length_append, length_cons] at hle
      exact ⟨length_eq_zero_iff.mp (by omega), length_eq_zero_iff.mp (by omega)⟩
    constructor
    · refine scan_right hcompr hedges' ?_ (fun e he => (hright e he).lt) ?_
      · intro e he
        rcases mem_append.mp he with he | he
        · exact lt_asymm (hleft e he).lt
        · rw [mem_singleton.mp he]
          exact lt_irrefl _
      · exact fun hle => (hone hle).2
    refine scan_left hcompr hedges (fun e he => (hleft e he).lt) ?_ ?_
    · intro e he
      rcases mem_cons.mp he with rfl | he
      · exact lt_irrefl _
      · exact lt_asymm (hright e he).lt
    · exact fun hle => (hone hle).1

lemma stack_ne_nil (h : At it n (f :: way)) : it.stack.used ≠ [] := by
  rw [h.stack, parents]
  simp

lemma not_at_head (h : noup ∨ it.stack.used ≠ []) : (!noup && it.stack.used.isEmpty) = false := by
  rcases h with rfl | hne
  · rfl
  · rw [isEmpty_eq_false_iff.mpr hne, Bool.and_false]

/-- One turn that goes up, or stays at the node if `noup` is set. -/
lemma nextLoop_climb {it' : Iterator V} {m : Node V} {up : Bool}
    (hnode : it.node = some n) (hup : (noup || up))
    (hhead : noup ∨ it.stack.used ≠ []) (hclimb : climb it noup = some (c, it'))
    (hnode' : it'.node = some m) (fuel : Nat) (orig : Iterator V) :
    nextLoop (fuel + 1) orig it noup up =
    (if mayScan m noup then m.edges.find? fun e => [c] < e.1 else none).elim
      (nextLoop fuel orig it' false true) fun e =>
        if e.2.info.iskey then some { enter it' m e with data := raxGetData e.2.info }
        else nextLoop fuel orig (enter it' m e) false false := by
  have hnotHead := not_at_head hhead
  cases hscan : if mayScan m noup then m.edges.find? fun e => [c] < e.1 else none with
  | none => simp [nextLoop, hnode, hup, hnotHead, hclimb, hnode', hscan]
  | some e => simp [nextLoop, hnode, hup, hnotHead, hclimb, hnode', hscan]

/-- The children to the right are visited, or else the search goes on further up. -/
lemma turn_right (h : At it (.node header (left ++ right)) way)
    (hsame : Same orig it) (hfuel : count (plug (.node header (left ++ right)) way) ≤ fuel)
    (hup : ∃ it', nextLoop fuel orig it false true = some it' ∧
    Lands orig it' (behind keyData way).head?) :
    ∃ it', (right.head?.elim (nextLoop fuel orig it false true) fun e =>
      if e.2.info.iskey then
        some { enter it (.node header (left ++ right)) e with data := raxGetData e.2.info }
      else nextLoop fuel orig (enter it (.node header (left ++ right)) e) false false) = some it' ∧
    Lands orig it'
      ((edgesEntries keyData right).map (prepend (path way)) ++ behind keyData way).head? := by
  cases right with
  | nil => exact hup
  | cons e right =>
    obtain ⟨l, t⟩ := e
    have hcount := count_le_plug t (⟨header, left, l, right⟩ :: way)
    have hplug : count (plug t (⟨header, left, l, right⟩ :: way)) ≤ fuel := hfuel
    have hat : At it (Frame.fill ⟨header, left, l, right⟩ t) way := h
    have hne := contents_ne_nil hat.enter.shaped
    obtain ⟨it', hloop, hlands⟩ := visit_spec t hat hsame (show count t ≤ fuel by omega)
    refine ⟨it', hloop, ?_⟩
    rw [edgesEntries_cons, map_append, append_assoc,
      head?_append_of_ne_nil _ (by simpa using hne), ← map_prepend_append]
    exact hlands

/-- Going up to the first node with another child behind. -/
lemma nextLoop_up (way : Way V) (h : At it n way) (hpop : Popped orig it)
    (hfuel : way.length + 1 + count (plug n way) ≤ fuel) :
    ∃ it', nextLoop fuel orig it false true = some it' ∧
    Lands orig it' (behind keyData way).head? := by
  induction way generalizing n it fuel with
  | nil =>
    obtain _ | k := fuel
    · omega
    refine ⟨{ orig with eof := true }, ?_, rfl⟩
    have hstack : it.stack.used = [] := h.stack
    simp [nextLoop, h.node, hstack, endAt_eq hpop]
  | cons f way ih =>
    obtain _ | k := fuel
    · omega
    obtain ⟨c, it1, hclimb, hc, hat, hpop1⟩ := climb_spec h
    rw [length_cons, plug] at hfuel
    rw [nextLoop_climb h.node rfl (.inr (stack_ne_nil h)) hclimb hat.node k orig,
      (scan_frame h.wayShaped.1 n hc).1]
    have hup := ih hat (hpop.trans hpop1) (show _ ≤ k by omega)
    obtain ⟨header, left, l, right⟩ := f
    have hfill : Frame.fill ⟨header, left, l, right⟩ n =
      .node header ((left ++ [(l, n)]) ++ right) := by
      rw [Frame.fill, append_assoc, singleton_append]
    rw [hfill] at hat hfuel ⊢
    have hcount : count (plug (.node header ((left ++ [(l, n)]) ++ right)) way) ≤ k := by omega
    exact turn_right hat (hpop.trans hpop1).same hcount hup

/-- The key ends with bytes that lead to no child of the node. -/
lemma climb_noup (h : At it n way) (hc : extra.getLast? = some c)
    (hlen : extra.length = if n.info.iscompr then size n else 1) :
    ∃ it', climb { it with key := it.key.push extra } true = some (c, it') ∧ At it' n way ∧
    Popped { it with key := it.key.push extra } it' := by
  have hlast : (it.key.used ++ extra).getLast? = some c := by
    rw [getLast?_append, hc]
    rfl
  obtain ⟨key, hdrop, hkey, hcells⟩ :=
    Stack.drop_append (show (it.key.push extra).used = it.key.used ++ extra from rfl)
  refine ⟨{ it with key := key }, ?_, { h with key := hkey.trans h.key }, ⟨rfl, hcells, rfl⟩⟩
  rw [climb]
  simp only [Stack.used_push, hlast, some_bind, h.node]
  rw [← hlen, hdrop]
  rfl

/-- The first key behind a byte that leads to no child. -/
lemma nextLoop_noup (h : At it (.node header (left ++ right)) way) (hc : extra.getLast? = some c)
    (hlen : extra.length =
    if header.iscompr then size (.node header (left ++ right)) else 1)
    (hscan : (if mayScan (.node header (left ++ right)) true then
    (left ++ right).find? fun e => [c] < e.1 else none) = right.head?)
    (hfuel : way.length + 2 + count (plug (.node header (left ++ right)) way) ≤ fuel)
    (horig : orig = { it with key := it.key.push extra }) :
    ∃ it', nextLoop fuel orig orig true false = some it' ∧ Lands orig it'
    ((edgesEntries keyData right).map (prepend (path way)) ++ behind keyData way).head? := by
  obtain _ | k := fuel
  · omega
  obtain ⟨it1, hclimb, hat, hpop⟩ := climb_noup h hc hlen
  rw [← horig] at hclimb hpop
  have hnode : orig.node = some (.node header (left ++ right)) := by
    rw [horig]
    exact h.node
  rw [nextLoop_climb hnode rfl (.inl rfl) hclimb hat.node k orig]
  simp only [Tree.edges, hscan]
  exact turn_right hat hpop.same (by omega) (nextLoop_up way hat hpop (by omega))

lemma nextLoop_spec (h : At it n way) (hfuel : way.length + 2 + count (plug n way) ≤ fuel) :
    ∃ it', nextLoop fuel it it false false = some it' ∧ Lands it it'
    ((edgesEntries keyData n.edges).map (prepend (path way)) ++ behind keyData way).head? := by
  obtain ⟨header, edges⟩ := n
  obtain _ | k := fuel
  · omega
  cases edges with
  | nil =>
    obtain ⟨it', hloop, hlands⟩ := nextLoop_up way h (Popped.refl it) (show _ ≤ k + 1 by omega)
    refine ⟨it', ?_, hlands⟩
    rw [← hloop, nextLoop, nextLoop]
    simp [h.node, Tree.edges]
  | cons e edges =>
    obtain ⟨l, t⟩ := e
    rw [nextLoop_down h.node]
    have hat : At it (.node header ([] ++ (l, t) :: edges)) way := h
    have hcount : count (plug (.node header ([] ++ (l, t) :: edges)) way) ≤ k := by
      show count (plug (.node header ((l, t) :: edges)) way) ≤ k
      omega
    exact turn_right hat (Popped.refl it).same hcount
      (nextLoop_up way h (Popped.refl it) (by omega))

lemma raxSeekGreatest_leaf (header : Header V) (it : Iterator V) :
    raxSeekGreatest (.node header []) it = it := by
  rw [raxSeekGreatest]
  rfl

lemma raxSeekGreatest_concat (header : Header V) (edges : List (Bytes × Node V))
    (e : Bytes × Node V) (it : Iterator V) :
    raxSeekGreatest (.node header (edges ++ [e])) it =
    raxSeekGreatest e.2 (enter it (.node header (edges ++ [e])) e) := by
  have hlast : (Tree.edges (.node header (edges ++ [e]) : Node V)).getLast? = some e :=
    getLast?_concat
  conv_lhs => unfold raxSeekGreatest
  split
  next hnone =>
    rw [hlast] at hnone
    cases hnone
  next e' hsome =>
    rw [hlast] at hsome
    cases hsome
    rfl

lemma raxSeekGreatest_spec (t : Node V) (h : At it t way) (hne : contents t ≠ []) :
    ∃ n way', At (raxSeekGreatest t it) n way' ∧ n.info.iskey ∧
    ((contents t).map (prepend (path way))).getLast? = some (path way', raxGetData n.info) ∧
    Same it (raxSeekGreatest t it) := by
  induction t using Tree.induction generalizing it way with
  | h header edges ih =>
  rcases eq_nil_or_concat' edges with rfl | ⟨edges, e, rfl⟩
  · have hkey : header.iskey := by
      rw [contents, entries, edgesEntries, append_nil] at hne
      by_contra hkey
      exact hne (own_of_not_iskey (by simpa using hkey))
    rw [raxSeekGreatest_leaf]
    refine ⟨_, way, h, hkey, ?_, rfl, rfl, rfl⟩
    rw [contents, entries, own_of_iskey hkey]
    simp [edgesEntries, prepend, Tree.info]
  obtain ⟨l, u⟩ := e
  have hat : At it (Frame.fill ⟨header, edges, l, []⟩ u) way := h
  have hne' := contents_ne_nil hat.enter.shaped
  rw [raxSeekGreatest_concat]
  obtain ⟨n, way', hat', hkey, hlast, hsame⟩ := ih (l, u) (by simp) hat.enter hne'
  refine ⟨n, way', hat', hkey, ?_, hsame.rt, hsame.eof, hsame.justSeeked⟩
  rw [← hlast, contents, entries, edgesEntries_append, edgesEntries_cons, edgesEntries,
    append_nil, ← append_assoc, map_append,
    getLast?_append_of_ne_nil _ (by simpa using hne'), ← map_prepend_append]
  rfl

/-- The end of a turn of `raxIteratorPrevStep`. -/
def settle (fuel : Nat) (orig it : Iterator V) : Option (Iterator V) :=
  it.node.bind fun node =>
    if node.info.iskey then some { it with data := raxGetData node.info }
    else prevLoop fuel orig it false

lemma prevLoop_climb {it' : Iterator V} {m : Node V}
    (hhead : noup ∨ it.stack.used ≠ []) (hclimb : climb it noup = some (c, it'))
    (hnode' : it'.node = some m) (fuel : Nat) (orig : Iterator V) :
    prevLoop (fuel + 1) orig it noup = settle fuel orig
    ((if mayScan m noup then m.edges.reverse.find? fun e => e.1 < [c] else none).elim it'
      fun e => raxSeekGreatest e.2 (enter it' m e)) := by
  have hnotHead := not_at_head hhead
  cases hscan : if mayScan m noup then m.edges.reverse.find? fun e => e.1 < [c] else none with
  | none => simp [prevLoop, hnotHead, hclimb, hnode', hscan, settle]
  | some e =>
    simp only [prevLoop, some_bind, hnotHead, hclimb, hnode', hscan]
    rfl

/-- The greatest key below the children to the left, or the node itself, or else the
search goes on further up. -/
lemma turn_left (h : At it (.node header (left ++ right)) way) (hsame : Same orig it)
    (hup : ∃ it', prevLoop fuel orig it false = some it' ∧
    Lands orig it' (before keyData way).getLast?) :
    ∃ it', settle fuel orig (left.getLast?.elim it fun e =>
      raxSeekGreatest e.2 (enter it (.node header (left ++ right)) e)) = some it' ∧
    Lands orig it' (before keyData way ++
      (own keyData header ++ edgesEntries keyData left).map (prepend (path way))).getLast? := by
  rcases eq_nil_or_concat' left with rfl | ⟨left, e, rfl⟩
  · rw [getLast?_nil, Option.elim_none, settle, h.node, Option.bind_some]
    cases hkey : header.iskey with
    | true =>
      refine ⟨_, if_pos hkey, ?_⟩
      rw [own_of_iskey hkey, edgesEntries, getLast?_append_of_ne_nil _ (by simp)]
      refine ⟨⟨_, way, { h with node := rfl }, hkey, ?_, rfl,
        rfl⟩, hsame.rt, hsame.eof, hsame.justSeeked⟩
      rw [append_nil]
    | false =>
      rw [own_of_not_iskey hkey, edgesEntries, if_neg (by simp [Tree.info, hkey])]
      rw [append_nil, map_nil, append_nil]
      exact hup
  obtain ⟨l, t⟩ := e
  have hat : At it (Frame.fill ⟨header, left, l, right⟩ t) way := by
    rw [Frame.fill]
    simpa using h
  have hne := contents_ne_nil hat.enter.shaped
  obtain ⟨n, way', hat', hkey, hlast, hsame'⟩ := raxSeekGreatest_spec t hat.enter hne
  have hfill : Frame.fill ⟨header, left, l, right⟩ t =
    .node header ((left ++ [(l, t)]) ++ right) := by
    rw [Frame.fill, append_assoc, singleton_append]
  rw [hfill] at hat' hsame'
  rw [getLast?_concat, Option.elim_some, settle, hat'.node, Option.bind_some, if_pos hkey]
  refine ⟨_, rfl, ?_⟩
  rw [edgesEntries_append, edgesEntries_cons, edgesEntries, append_nil, ← append_assoc,
    map_append, ← append_assoc, getLast?_append_of_ne_nil _ (by simpa using hne),
    ← map_prepend_append]
  have hpath : path (⟨header, left, l, right⟩ :: way) = path way ++ l := rfl
  rw [← hpath, hlast]
  exact ⟨⟨n, way', { hat' with node := rfl }, hkey, rfl,
    rfl, rfl⟩, hsame'.rt.trans hsame.rt, hsame'.eof.trans hsame.eof,
    hsame'.justSeeked.trans hsame.justSeeked⟩

/-- Going up to the first node that is a key or has another child before. -/
lemma prevLoop_up (way : Way V)
    (h : At it n way) (hpop : Popped orig it) (hfuel : way.length + 1 ≤ fuel) :
    ∃ it', prevLoop fuel orig it false = some it' ∧
    Lands orig it' (before keyData way).getLast? := by
  induction way generalizing n it fuel with
  | nil =>
    obtain _ | k := fuel
    · omega
    refine ⟨{ orig with eof := true }, ?_, rfl⟩
    have hstack : it.stack.used = [] := h.stack
    simp [prevLoop, hstack, endAt_eq hpop]
  | cons f way ih =>
    obtain _ | k := fuel
    · omega
    obtain ⟨c, it1, hclimb, hc, hat, hpop1⟩ := climb_spec h
    rw [prevLoop_climb (.inr (stack_ne_nil h)) hclimb hat.node k orig,
      (scan_frame h.wayShaped.1 n hc).2]
    rw [length_cons] at hfuel
    exact turn_left hat (hpop.trans hpop1).same (ih hat (hpop.trans hpop1) (by omega))

/-- The last key before a byte that leads to no child. -/
lemma prevLoop_noup (h : At it (.node header (left ++ right)) way) (hc : extra.getLast? = some c)
    (hlen : extra.length =
    if header.iscompr then size (.node header (left ++ right)) else 1)
    (hscan : (if mayScan (.node header (left ++ right)) true then
    (left ++ right).reverse.find? fun e => e.1 < [c] else none) = left.getLast?)
    (hfuel : way.length + 2 ≤ fuel) (horig : orig = { it with key := it.key.push extra }) :
    ∃ it', prevLoop fuel orig orig true = some it' ∧ Lands orig it' (before keyData way ++
    (own keyData header ++ edgesEntries keyData left).map (prepend (path way))).getLast? := by
  obtain _ | k := fuel
  · omega
  obtain ⟨it1, hclimb, hat, hpop⟩ := climb_noup h hc hlen
  rw [← horig] at hclimb hpop
  rw [prevLoop_climb (.inl rfl) hclimb hat.node k orig]
  simp only [Tree.edges, hscan]
  exact turn_left hat hpop.same (prevLoop_up way hat hpop (by omega))

end Dice.Ports.RadixIteratorSteps
