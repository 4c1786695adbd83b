import Dice.Verified.SortedList
import Mathlib.Data.List.Lex

/-!
# Prefix trees

Trees whose edges are labelled with strings: a node stands for the string that is
read on the way to it.  Some nodes carry a value; listing them from left to
right, a node before the nodes below it, gives the strings in order if the
labels of the edges of every node are in order.

A place in a tree is a subtree together with the nodes on the way to it, each
with what lies to the left and to the right of the way.
-/

namespace Dice.Verified.PrefixTree

open List SortedList
open Prod (fst)

variable {α ι β : Type}

inductive Tree (α ι : Type) : Type
  | node (info : ι) (edges : List (List α × Tree α ι))

def Tree.info : Tree α ι → ι
  | .node info _ => info

def Tree.edges : Tree α ι → List (List α × Tree α ι)
  | .node _ edges => edges

lemma Tree.induction {P : Tree α ι → Prop}
    (h : ∀ info edges, (∀ e ∈ edges, P e.2) → P (.node info edges)) (t : Tree α ι) : P t := by
  refine @Tree.rec α ι P (fun edges => ∀ e ∈ edges, P e.2) (fun e => P e.2) h ?_ ?_ ?_ t
  · simp
  · intro e edges he hedges e' he'
    rcases mem_cons.mp he' with rfl | he'
    · exact he
    · exact hedges e' he'
  · exact fun _ _ ht => ht

def prepend (l : List α) (e : List α × β) : List α × β := (l ++ e.1, e.2)

/-- What the node itself stands for. -/
def own (val : ι → Option β) (info : ι) : List (List α × β) :=
  (val info).toList.map fun b => ([], b)

mutual

/-- The strings with a value, from left to right. -/
def entries (val : ι → Option β) : Tree α ι → List (List α × β)
  | .node info edges => own val info ++ edgesEntries val edges

def edgesEntries (val : ι → Option β) : List (List α × Tree α ι) → List (List α × β)
  | [] => []
  | e :: edges => edgeEntries val e ++ edgesEntries val edges

def edgeEntries (val : ι → Option β) : List α × Tree α ι → List (List α × β)
  | (l, t) => (entries val t).map (prepend l)

end

/-- The number of nodes. -/
def count (t : Tree α ι) : Nat := (entries some t).length

section Entries

variable {val : ι → Option β}

@[simp] lemma length_own_some (info : ι) : (own some info : List (List α × ι)).length = 1 := rfl

lemma map_prepend_nil (es : List (List α × β)) : es.map (prepend []) = es := map_id' es

@[simp] lemma prepend_nil (e : List α × β) : prepend [] e = e := rfl

lemma prepend_append (l l' : List α) (e : List α × β) :
    prepend (l ++ l') e = prepend l (prepend l' e) := by
  rw [prepend, prepend, prepend, append_assoc]

lemma map_prepend_append (l l' : List α) (es : List (List α × β)) :
    es.map (prepend (l ++ l')) = (es.map (prepend l')).map (prepend l) := by
  rw [map_map]
  exact map_congr_left fun e _ => prepend_append l l' e

lemma edgesEntries_append (xs ys : List (List α × Tree α ι)) :
    edgesEntries val (xs ++ ys) = edgesEntries val xs ++ edgesEntries val ys := by
  induction xs with
  | nil => rfl
  | cons e xs ih => rw [cons_append, edgesEntries, ih, edgesEntries, append_assoc]

lemma edgesEntries_cons (l : List α) (t : Tree α ι) (edges : List (List α × Tree α ι)) :
    edgesEntries val ((l, t) :: edges) =
    (entries val t).map (prepend l) ++ edgesEntries val edges := by
  rw [edgesEntries, edgeEntries]

/-- A node with one child. -/
theorem entries_single (info : ι) (l : List α) (t : Tree α ι) :
    entries val (.node info [(l, t)]) = own val info ++ (entries val t).map (prepend l) := by
  rw [entries, edgesEntries_cons, edgesEntries, append_nil]

lemma count_single (info : ι) (l : List α) (t : Tree α ι) :
    count (.node info [(l, t)]) = count t + 1 := by
  rw [count, entries_single, length_append, length_map, Nat.add_comm]
  rfl

lemma count_info (info info' : ι) (edges : List (List α × Tree α ι)) :
    count (.node info edges) = count (.node info' edges) := by
  rfl

/-- A node with and without a value. -/
theorem adds_own {info info' : ι} {b : β} (h : val info = some b) (h' : val info' = none)
    (edges : List (List α × Tree α ι)) :
    Adds ([], b) (entries val (.node info' edges)) (entries val (.node info edges)) := by
  refine ⟨[], edgesEntries val edges, ?_, ?_⟩
  · rw [entries, own, h']
    rfl
  · rw [entries, own, h]
    rfl

lemma mem_edgesEntries {edges : List (List α × Tree α ι)} {x : List α × β} :
    x ∈ edgesEntries val edges ↔ ∃ e ∈ edges, ∃ y ∈ entries val e.2, x = prepend e.1 y := by
  induction edges with
  | nil => simp [edgesEntries]
  | cons e edges ih =>
    obtain ⟨l, t⟩ := e
    rw [edgesEntries_cons, mem_append, ih, mem_map]
    simp only [mem_cons, exists_eq_or_imp, eq_comm]

end Entries

/-! ## Places -/

/-- A node on the way to a place. -/
structure Frame (α ι : Type) where
  info : ι
  left : List (List α × Tree α ι)
  label : List α
  right : List (List α × Tree α ι)

def Frame.fill (f : Frame α ι) (t : Tree α ι) : Tree α ι :=
  .node f.info (f.left ++ (f.label, t) :: f.right)

/-- The whole tree; the way is given from the place upwards. -/
def plug : Tree α ι → List (Frame α ι) → Tree α ι
  | t, [] => t
  | t, f :: way => plug (f.fill t) way

/-- The string that is read on the way. -/
def path : List (Frame α ι) → List α
  | [] => []
  | f :: way => path way ++ f.label

/-- The strings before those of the place. -/
def before (val : ι → Option β) : List (Frame α ι) → List (List α × β)
  | [] => []
  | f :: way => before val way ++
      (own val f.info ++ edgesEntries val f.left).map (prepend (path way))

/-- The strings behind those of the place. -/
def behind (val : ι → Option β) : List (Frame α ι) → List (List α × β)
  | [] => []
  | f :: way => (edgesEntries val f.right).map (prepend (path way)) ++ behind val way

lemma entries_plug (val : ι → Option β) (t : Tree α ι) (way : List (Frame α ι)) :
    entries val (plug t way) =
    before val way ++ ((entries val t).map (prepend (path way)) ++ behind val way) := by
  induction way generalizing t with
  | nil =>
    simp only [behind, append_nil]
    exact (map_id' _).symm
  | cons f way ih =>
    rw [plug, ih, Frame.fill, entries, edgesEntries_append, edgesEntries_cons, before, behind,
      path, map_prepend_append]
    simp

section

variable {val : ι → Option β} {t t' : Tree α ι}

lemma entries_plug_congr (h : entries val t = entries val t') (way : List (Frame α ι)) :
    entries val (plug t way) = entries val (plug t' way) := by
  rw [entries_plug, entries_plug, h]

lemma count_plug (t t' : Tree α ι) (way : List (Frame α ι)) :
    count (plug t way) + count t' = count (plug t' way) + count t := by
  simp only [count, entries_plug, length_append, length_map]
  omega

lemma count_lt_fill (f : Frame α ι) (t : Tree α ι) : count t < count (f.fill t) := by
  rw [count, count, Frame.fill, entries, edgesEntries_append, edgesEntries_cons]
  simp only [length_append, length_map, length_own_some]
  omega

/-- The nodes on the way and those at its end. -/
theorem count_le_plug (t : Tree α ι) (way : List (Frame α ι)) :
    way.length + count t ≤ count (plug t way) := by
  induction way generalizing t with
  | nil => rw [plug, length_nil, Nat.zero_add]
  | cons f way ih =>
    have hfill := count_lt_fill f t
    have hplug := ih (f.fill t)
    rw [plug, length_cons]
    omega

lemma count_plug_info (info info' : ι) (edges : List (List α × Tree α ι)) (way : List (Frame α ι)) :
    count (plug (.node info edges) way) = count (plug (.node info' edges) way) := by
  have h := count_plug (.node info edges) (.node info' edges) way
  exact Nat.add_right_cancel h

/-- One more string at a place. -/
theorem adds_plug {e : List α × β} (h : Adds e (entries val t) (entries val t'))
    (way : List (Frame α ι)) :
    Adds (prepend (path way) e) (entries val (plug t way)) (entries val (plug t' way)) := by
  rw [entries_plug, entries_plug]
  exact (h.map _).append _ _

end

/-- A condition on every node, its label and the labels of its edges; whether the node
is the root may matter. -/
inductive All (P : Bool → ι → List (List α) → Prop) : Bool → Tree α ι → Prop
  | node {root : Bool} {info : ι} {edges : List (List α × Tree α ι)}
      (here : P root info (edges.map fst)) (below : ∀ e ∈ edges, All P false e.2) :
      All P root (.node info edges)

section All

variable {P : Bool → ι → List (List α) → Prop} {root : Bool}

lemma all_node {info : ι} {edges : List (List α × Tree α ι)} : All P root (.node info edges) ↔
    P root info (edges.map fst) ∧ ∀ e ∈ edges, All P false e.2 := by
  constructor
  · rintro ⟨here, below⟩
    exact ⟨here, below⟩
  · exact fun h => .node h.1 h.2

/-- The condition on a node of the way, and on what lies beside the way. -/
def Frame.All (P : Bool → ι → List (List α) → Prop) (root : Bool) (f : Frame α ι) : Prop :=
  P root f.info (f.left.map fst ++ f.label :: f.right.map fst) ∧
    ∀ e ∈ f.left ++ f.right, PrefixTree.All P false e.2

/-- The condition along the way. -/
def AllWay (P : Bool → ι → List (List α) → Prop) : List (Frame α ι) → Prop
  | [] => True
  | f :: way => f.All P way.isEmpty ∧ AllWay P way

variable {t : Tree α ι} {way : List (Frame α ι)}

lemma all_fill {f : Frame α ι} : All P root (f.fill t) ↔ All P false t ∧ f.All P root := by
  rw [Frame.fill, all_node, Frame.All, map_append]
  simp only [mem_append, mem_cons]
  constructor
  · rintro ⟨here, below⟩
    exact ⟨below _ (.inr (.inl rfl)), here, fun e he => below e (he.imp_right .inr)⟩
  rintro ⟨ht, here, below⟩
  refine ⟨here, ?_⟩
  rintro e (he | rfl | he)
  · exact below e (.inl he)
  · exact ht
  · exact below e (.inr he)

lemma all_plug : All P true (plug t way) ↔ All P way.isEmpty t ∧ AllWay P way := by
  induction way generalizing t with
  | nil => simp [plug, AllWay]
  | cons f way ih => rw [plug, ih, all_fill, AllWay, isEmpty_cons, and_assoc]

/-- One step down. -/
theorem allWay_cons {f : Frame α ι} (h : All P way.isEmpty (f.fill t)) (hway : AllWay P way) :
    All P (f :: way).isEmpty t ∧ AllWay P (f :: way) := by
  obtain ⟨ht, hf⟩ := all_fill.mp h
  exact ⟨ht, hf, hway⟩

section

variable {Q : Bool → ι → List (List α) → Prop}

lemma All.mono (h : All P root t)
    (hPQ : ∀ root info labels, P root info labels → Q root info labels) : All Q root t := by
  induction t using Tree.induction generalizing root with
  | h info edges ih =>
    rw [all_node] at h ⊢
    exact ⟨hPQ _ _ _ h.1, fun e he => ih e he (h.2 e he)⟩

lemma AllWay.mono (h : AllWay P way)
    (hPQ : ∀ root info labels, P root info labels → Q root info labels) :
    AllWay Q way := by
  induction way with
  | nil => trivial
  | cons f way ih => exact ⟨⟨hPQ _ _ _ h.1.1, fun e he => (h.1.2 e he).mono hPQ⟩, ih h.2⟩

end

end All

/-! ## Order -/

section Order

variable [LinearOrder α] {val : ι → Option β}

/-- The first letters are in order. -/
def HeadLt : List α → List α → Prop
  | a :: _, b :: _ => a < b
  | _, _ => False

/-- The labels of the edges of a node are not empty and in order. -/
def OrderedLabels (labels : List (List α)) : Prop := (∀ l ∈ labels, l ≠ []) ∧ labels.Pairwise HeadLt

variable {l : List α} {edges : List (List α × Tree α ι)} {x : List α × β}

lemma append_lt_append {x y : List α} : l ++ x < l ++ y ↔ x < y := by
  induction l with
  | nil => rfl
  | cons a l ih => rw [cons_append, cons_append, cons_lt_cons_iff, ih]; simp

lemma HeadLt.append_lt {l' : List α} (h : HeadLt l l') (x y : List α) : l ++ x < l' ++ y := by
  cases l with
  | nil => exact h.elim
  | cons a l =>
    cases l' with
    | nil => exact h.elim
    | cons b l' =>
      rw [cons_append, cons_append, cons_lt_cons_iff]
      exact .inl h

lemma HeadLt.lt {l' : List α} (h : HeadLt l l') : l < l' := by
  have := h.append_lt [] []
  rwa [append_nil, append_nil] at this

lemma edgesEntries_lt (h : ∀ e ∈ edges, HeadLt e.1 l) (s : List α)
    (hx : x ∈ edgesEntries val edges) : x.1 < l ++ s := by
  obtain ⟨e, he, y, _, rfl⟩ := mem_edgesEntries.mp hx
  exact (h e he).append_lt y.1 s

lemma lt_edgesEntries (h : ∀ e ∈ edges, HeadLt l e.1) (s : List α)
    (hx : x ∈ edgesEntries val edges) : l ++ s < x.1 := by
  obtain ⟨e, he, y, _, rfl⟩ := mem_edgesEntries.mp hx
  exact (h e he).append_lt s y.1

lemma own_lt {info : ι} (hl : l ≠ []) (hx : x ∈ own val info) : x.1 < l := by
  rw [own, mem_map] at hx
  obtain ⟨_, _, rfl⟩ := hx
  obtain ⟨a, l', rfl⟩ := exists_cons_of_ne_nil hl
  exact nil_lt_cons ..

/-- The labels beside the label of the way. -/
theorem Frame.ordered {f : Frame α ι}
    (h : OrderedLabels (f.left.map fst ++ f.label :: f.right.map fst)) :
    f.label ≠ [] ∧ (∀ e ∈ f.left, HeadLt e.1 f.label) ∧ ∀ e ∈ f.right, HeadLt f.label e.1 := by
  obtain ⟨hne, hpair⟩ := h
  rw [pairwise_append, pairwise_cons] at hpair
  refine ⟨hne _ (by simp), ?_, ?_⟩
  · exact fun e he => hpair.2.2 _ (mem_map_of_mem he) _ (mem_cons_self ..)
  · exact fun e he => hpair.2.1.1 _ (mem_map_of_mem he)

section

variable {way : List (Frame α ι)} (h : AllWay (fun _ _ labels => OrderedLabels labels) way)
  (s : List α)

include h

/-- The strings before a place are smaller than those that begin with its path. -/
theorem before_lt (hx : x ∈ before val way) : x.1 < path way ++ s := by
  induction way generalizing s with
  | nil => cases hx
  | cons f way ih =>
    obtain ⟨hne, hleft, _⟩ := Frame.ordered h.1.1
    rw [path, append_assoc]
    rcases mem_append.mp hx with hx | hx
    · exact ih h.2 _ hx
    obtain ⟨y, hy, rfl⟩ := mem_map.mp hx
    apply append_lt_append.mpr
    rcases mem_append.mp hy with hy | hy
    · exact own_lt (by simp [hne]) hy
    · exact edgesEntries_lt hleft s hy

lemma lt_behind (hx : x ∈ behind val way) : path way ++ s < x.1 := by
  induction way generalizing s with
  | nil => cases hx
  | cons f way ih =>
    obtain ⟨_, _, hright⟩ := Frame.ordered h.1.1
    rw [path, append_assoc]
    rcases mem_append.mp hx with hx | hx
    · obtain ⟨y, hy, rfl⟩ := mem_map.mp hx
      exact append_lt_append.mpr (lt_edgesEntries hright s hy)
    · exact ih h.2 _ hx

end

lemma sorted_prepend {es : List (List α × β)} (h : Sorted (es.map fst)) (l : List α) :
    Sorted ((es.map (prepend l)).map fst) := by
  rw [map_map, Sorted, pairwise_map]
  rw [Sorted, pairwise_map] at h
  exact h.imp fun hlt => append_lt_append.mpr hlt

lemma sorted_edgesEntries (hsorted : ∀ e ∈ edges, Sorted ((entries val e.2).map fst))
    (hlabels : (edges.map fst).Pairwise HeadLt) :
    Sorted ((edgesEntries val edges).map fst) := by
  induction edges with
  | nil => exact List.Pairwise.nil
  | cons e edges ih =>
    obtain ⟨l, t⟩ := e
    rw [map_cons, pairwise_cons] at hlabels
    rw [edgesEntries_cons, map_append, Sorted, pairwise_append]
    refine ⟨sorted_prepend (hsorted _ (mem_cons_self ..)) l,
      ih (fun e he => hsorted e (mem_cons_of_mem _ he)) hlabels.2, ?_⟩
    intro a ha b hb
    obtain ⟨x, hx, rfl⟩ := mem_map.mp ha
    obtain ⟨y, hy, rfl⟩ := mem_map.mp hx
    obtain ⟨z, hz, rfl⟩ := mem_map.mp hb
    obtain ⟨e', he', w, hw, rfl⟩ := mem_edgesEntries.mp hz
    exact (hlabels.1 e'.1 (mem_map_of_mem he')).append_lt y.1 w.1

/-- The strings of an ordered tree are in order. -/
theorem sorted_entries {t : Tree α ι} {root : Bool}
    (h : All (fun _ _ labels => OrderedLabels labels) root t) :
    Sorted ((entries val t).map fst) := by
  induction t using Tree.induction generalizing root with
  | h info edges ih =>
    rw [all_node] at h
    rw [entries, map_append, Sorted, pairwise_append]
    refine ⟨?_, sorted_edgesEntries (fun e he => ih e he (h.2 e he)) h.1.2, ?_⟩
    · rw [own]
      cases val info <;> simp
    intro a ha b hb
    have hnil : a = [] := by
      rw [own] at ha
      simp only [map_map, mem_map] at ha
      obtain ⟨_, _, rfl⟩ := ha
      rfl
    obtain ⟨x, hx, rfl⟩ := mem_map.mp hb
    obtain ⟨e, he, y, hy, rfl⟩ := mem_edgesEntries.mp hx
    obtain ⟨c, l, hl⟩ := exists_cons_of_ne_nil (h.1.1 e.1 (mem_map_of_mem he))
    rw [hnil, hl]
    exact nil_lt_cons ..

end Order

end Dice.Verified.PrefixTree
