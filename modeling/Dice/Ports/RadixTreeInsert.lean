import Dice.Verified.Run
import Dice.Ports.RadixTreeWalk

/-!
# Inserting into the radix tree

Each way in which a key gets into the tree puts one entry where the order wants
it and counts the nodes that it adds.  That a key was not in the tree before
follows from the order of the tree that has it.
-/

namespace Dice.Ports.RadixTreeInsert

open List hiding count
open Verified Run CString SortedList PrefixTree RadixTree RadixTreeWalk
open Prod (fst)

variable {V : Type}

/-- A subtree with one more key: what comes in place of it, and the number of new nodes. -/
structure Grown (s : Bytes) (data : Option V) (h n : Node V) (nodes : Nat) : Prop where
  shaped : Shaped false n
  adds : Adds (s, data) (contents h) (contents n)
  counted : count n = count h + nodes

lemma own_trimHeader (header : Header V) :
    own keyData (trimHeader header) = (own keyData header : List (Bytes × Option V)) := by
  obtain ⟨iskey, isnull, iscompr, slot⟩ := header
  cases iskey <;> cases isnull <;> cases slot <;> rfl

section

variable (header : Header V) (data : Option V)

include header

lemma setData_iscompr : (raxSetData header data).iscompr = header.iscompr := by
  cases data <;> rfl

lemma setData_iskey : (raxSetData header data).iskey := by
  cases data <;> rfl

lemma getData_setData : raxGetData (raxSetData header data) = data := by
  cases data <;> rfl

end

variable {old header : Header V} {s done rest : Bytes} {child h n next : Node V}
  {edges : List (Bytes × Node V)} {data : Option V} {nodes j : Nat} {c : UInt8} {root : Bool}
  {way : Way V}

lemma own_moveData (h : old.iskey = false → header.iskey = false) :
    own keyData (moveData old header) = (own keyData old : List (Bytes × Option V)) := by
  rw [moveData]
  cases hkey : old.iskey with
  | true => rw [if_pos rfl, own_setData, own_of_iskey hkey]
  | false => rw [if_neg Bool.false_ne_true, own_of_not_iskey hkey, own_of_not_iskey (h hkey)]

lemma moveData_iscompr (old header : Header V) :
    (moveData old header).iscompr = header.iscompr := by
  rw [moveData]
  split
  · exact setData_iscompr ..
  · rfl

lemma moveData_iskey (h : header.iskey = old.iskey) : (moveData old header).iskey = old.iskey := by
  rw [moveData]
  split
  next hkey => rw [setData_iskey, hkey]
  · exact h

lemma contents_chainNode (header : Header V) (s : Bytes) (child : Node V) :
    contents (chainNode header s child) =
      own keyData header ++ (contents child).map (prepend s) := entries_single ..

lemma count_chainNode (header : Header V) (s : Bytes) (child : Node V) :
    count (chainNode header s child) = count child + 1 := count_single ..

lemma shaped_chainNode (hs : s ≠ [])
    (hmax : s.length ≤ raxNodeMaxSize) (hchild : Shaped false child) :
    Shaped false (chainNode header s child) := by
  have hpos := length_pos_of_ne_nil hs
  refine .node ⟨⟨by simpa using hs, pairwise_singleton _ _⟩, ?_, ?_,
    .inr (.inr (cons_ne_nil _ _))⟩ (by simpa using hchild)
  · intro hc
    have hlen : 1 < s.length := by simpa using hc
    exact ⟨s, rfl, hlen, hmax⟩
  intro hc l hl
  obtain rfl : l = s := by simpa using hl
  have hlen : ¬ 1 < l.length := by simpa using hc
  omega

lemma grown_setData (hok : Shaped true h) (hkey : h.info.iskey = false)
    (data : Option V) : Grown [] data h (.node (raxSetData h.info data) h.edges) 0 := by
  obtain ⟨header, edges⟩ := h
  rw [Shaped, all_node] at hok
  refine ⟨.node ?_ hok.2, ?_, count_info _ header edges⟩
  · exact hok.1.cast (setData_iscompr header data) (.inr (.inl (setData_iskey header data)))
  · exact adds_own (keyData_setData header data) (keyData_of_not_iskey hkey) edges

/-- Can a string be added below a node?  Nothing starts with its first byte there. -/
def Free (h : Node V) : Bytes → Prop
  | [] => h.info.iskey = false
  | c :: _ => h.info.iscompr = false ∧ [c] ∉ h.edges.map fst

lemma free_newNode (s : Bytes) : Free (raxNewNode : Node V) s := by
  cases s with
  | nil => rfl
  | cons c cs => exact ⟨rfl, by simp [raxNewNode, Tree.edges]⟩

/-- A new edge is between the smaller and the greater ones. -/
lemma insertEdge_spec (c : UInt8) (child : Node V) (hone : ∀ l ∈ edges.map fst, l.length = 1)
    (hord : (edges.map fst).Pairwise HeadLt) (hfree : [c] ∉ edges.map fst) :
    ∃ left right, edges = left ++ right ∧ insertEdge c child edges = left ++ ([c], child) :: right ∧
    (∀ e ∈ left, HeadLt e.1 [c]) ∧ ∀ e ∈ right, HeadLt [c] e.1 := by
  induction edges with
  | nil => exact ⟨[], [], rfl, rfl, by simp, by simp⟩
  | cons e edges ih =>
    obtain ⟨l, t⟩ := e
    simp only [map_cons, mem_cons, forall_eq_or_imp, not_or, pairwise_cons]
      at hone hord hfree
    obtain ⟨d, rfl⟩ := length_eq_one_iff.mp hone.1
    rw [insertEdge]
    split
    next hlt =>
      rw [cons_lt_cons_iff] at hlt
      have hcd : c < d := by simpa using hlt
      refine ⟨[], ([d], t) :: edges, rfl, rfl, by simp, ?_⟩
      intro e he
      rcases mem_cons.mp he with rfl | he
      · exact hcd
      have hmem : e.1 ∈ edges.map fst := mem_map_of_mem he
      obtain ⟨b, hb⟩ := length_eq_one_iff.mp (hone.2 _ hmem)
      have hdb := hord.1 _ hmem
      rw [hb] at hdb ⊢
      exact lt_trans hcd hdb
    next hge =>
      rw [cons_lt_cons_iff] at hge
      have hdc : d < c := by
        have hne : c ≠ d := by simpa using hfree.1
        have hle : ¬ c < d := by simpa using hge
        exact lt_of_le_of_ne (not_lt.mp hle) hne.symm
      obtain ⟨left, right, rfl, hins, hleft, hright⟩ := ih hone.2 hord.2 hfree.2
      refine ⟨([d], t) :: left, right, rfl, by rw [hins]; rfl, ?_, hright⟩
      intro e he
      rcases mem_cons.mp he with rfl | he
      · exact hdc
      · exact hleft e he

lemma Grown.new (h : Grown s data raxNewNode n nodes) :
    entries keyData n = [(s, data)] ∧ count n = nodes + 1 := by
  refine ⟨Adds.singleton h.adds, ?_⟩
  rw [h.counted, Nat.add_comm]
  rfl

lemma orderedLabels_insert {left right : List (Bytes × Node V)}
    (hord : OrderedLabels ((left ++ right).map fst)) (hleft : ∀ e ∈ left, HeadLt e.1 [c])
    (hright : ∀ e ∈ right, HeadLt [c] e.1) :
    OrderedLabels (left.map fst ++ [c] :: right.map fst) := by
  rw [map_append] at hord
  obtain ⟨hne, hpair⟩ := hord
  rw [pairwise_append] at hpair
  constructor
  · intro l hl
    rcases mem_append.mp hl with hl | hl
    · exact hne l (mem_append_left _ hl)
    · rcases mem_cons.mp hl with rfl | hl
      · exact cons_ne_nil _ _
      · exact hne l (mem_append_right _ hl)
  rw [pairwise_append, pairwise_cons]
  refine ⟨hpair.1, ⟨?_, hpair.2.1⟩, ?_⟩
  · intro l hl
    obtain ⟨e, he, rfl⟩ := mem_map.mp hl
    exact hright e he
  intro l hl l' hl'
  rcases mem_cons.mp hl' with rfl | hl'
  · obtain ⟨e, he, rfl⟩ := mem_map.mp hl
    exact hleft e he
  · exact hpair.2.2 l hl l' hl'

lemma raxAddChild_spec {cs : Bytes} (hok : Shaped true h) (hfree : Free h (c :: cs))
    (hchild : Grown cs data raxNewNode child nodes) :
    ∃ n, raxAddChild h c child = some n ∧ Grown (c :: cs) data h n (nodes + 1) := by
  obtain ⟨header, edges⟩ := h
  obtain ⟨hc, hfree⟩ := hfree
  obtain ⟨hnode, hbelow⟩ := hok
  obtain ⟨left, right, rfl, hins, hleft, hright⟩ :=
    insertEdge_spec c child (hnode.normal hc) hnode.ordered.2 hfree
  obtain ⟨hnew, hcount⟩ := hchild.new
  refine ⟨.node header (left ++ ([c], child) :: right), ?_, ?_, ?_, ?_⟩
  · rw [raxAddChild, if_neg (by rw [hc]; decide), Tree.edges, hins]
    rfl
  · rw [Shaped, all_node, map_append, map_cons]
    refine ⟨⟨orderedLabels_insert hnode.ordered hleft hright, ?_, ?_, ?_⟩, ?_⟩
    · intro hcompr
      rw [show header.iscompr = false from hc] at hcompr
      cases hcompr
    · intro _ l hl
      have hone := hnode.normal hc
      simp only [map_append, mem_append, mem_cons] at hl hone
      rcases hl with hl | rfl | hl
      · exact hone l (.inl hl)
      · rfl
      · exact hone l (.inr hl)
    · exact .inr (.inr (by simp))
    intro e he
    simp only [mem_append, mem_cons] at he hbelow
    rcases he with he | rfl | he
    · exact hbelow e (.inl he)
    · exact hchild.shaped
    · exact hbelow e (.inr he)
  · refine ⟨own keyData header ++ edgesEntries keyData left, edgesEntries keyData right, ?_, ?_⟩
    · rw [contents, entries, edgesEntries_append, append_assoc]
    · rw [contents, entries, edgesEntries_append, edgesEntries_cons, hnew, append_assoc]
      rfl
  · rw [count] at hcount
    simp only [count, entries, edgesEntries_append, edgesEntries_cons, length_append, length_map]
    omega

lemma raxCompressNode_spec {s' : Bytes}
    (hok : Shaped true h) (hsize : size h = 0) (hc : h.info.iscompr = false)
    (htwo : 2 ≤ s.length) (hmax : s.length ≤ raxNodeMaxSize)
    (hchild : Grown s' data raxNewNode child nodes) :
    ∃ n, raxCompressNode h s child = some n ∧ Grown (s ++ s') data h n (nodes + 1) := by
  obtain ⟨header, edges⟩ := h
  obtain ⟨hnew, hcount⟩ := hchild.new
  obtain rfl : edges = [] := by
    rw [size, if_neg (by rw [hc]; decide)] at hsize
    exact length_eq_zero_iff.mp hsize
  refine ⟨_, if_pos ⟨hsize, hc⟩, .node ⟨⟨?_, pairwise_singleton _ _⟩, ?_, ?_,
    .inr (.inr (cons_ne_nil _ _))⟩ (by simpa using hchild.shaped), ?_, ?_⟩
  · intro l hl
    obtain rfl : l = s := by simpa using hl
    apply ne_nil_of_length_pos
    omega
  · exact fun _ => ⟨s, rfl, htwo, hmax⟩
  · intro hfalse
    rw [moveData_iscompr] at hfalse
    cases hfalse
  · refine ⟨own keyData header, [], ?_, ?_⟩
    · rw [contents, entries, edgesEntries]
    · rw [contents, entries_single, own_moveData, hnew]
      · rfl
      · exact id
  · rw [count_single, hcount, Nat.add_comm]
    rfl

lemma addNodes_spec (data : Option V) (h : Node V) (s : Bytes) (hok : Shaped true h)
    (hfree : Free h s) : ∃ n nodes, addNodes data h s = some (n, nodes, 1) ∧
    Grown s data h n nodes := by
  induction hlen : s.length using Nat.strong_induction_on generalizing h s with
  | _ k ih =>
  cases s with
  | nil =>
    refine ⟨_, 0, ?_, grown_setData hok hfree data⟩
    rw [addNodes, if_neg (by rw [show h.info.iskey = false from hfree]; decide)]
  | cons c cs =>
    rw [addNodes]
    split
    next hcompr =>
      obtain ⟨hsize, hlong⟩ := hcompr
      have hmax : 2 ≤ raxNodeMaxSize := by decide
      generalize hs : c :: cs = s at *
      obtain ⟨child, nodes, hchild, hgrown⟩ := ih _ (by rw [length_drop]; omega) raxNewNode
        (s.drop (min s.length raxNodeMaxSize)) shaped_newNode (free_newNode _) rfl
      obtain ⟨n, hn, hgrown⟩ := raxCompressNode_spec (s := s.take (min s.length raxNodeMaxSize))
        hok hsize (by subst hs; exact hfree.1) (by rw [length_take]; omega)
        (by rw [length_take]; omega) hgrown
      rw [take_append_drop] at hgrown
      refine ⟨n, nodes + 1, ?_, hgrown⟩
      simp [hchild, hn]
    next hadd =>
      obtain ⟨child, nodes, hchild, hgrown⟩ := ih cs.length (by simp [← hlen]) raxNewNode cs
        shaped_newNode (free_newNode cs) rfl
      obtain ⟨n, hn, hgrown⟩ := raxAddChild_spec hok hfree hgrown
      refine ⟨n, nodes + 1, ?_, hgrown⟩
      simp [hchild, hn]

lemma splitInside_spec {d : UInt8}
    {ds : Bytes} (hok : Shaped root (.node header [(done ++ d :: ds, next)]))
    (hcompr : header.iscompr) (hdone : done ≠ []) (data : Option V) :
    Grown done data (.node header [(done ++ d :: ds, next)])
    (splitInside header (done ++ d :: ds) next done.length data) 1 := by
  obtain ⟨l, t, heq, _, hmax, hnext⟩ := compressed_edges hok hcompr
  cases heq
  rw [length_append] at hmax
  rw [splitInside, take_left, drop_left]
  refine ⟨?_, ?_, ?_⟩
  · apply shaped_chainNode hdone (by omega)
    exact shaped_chainNode (cons_ne_nil _ _) (by omega) hnext
  · refine ⟨own keyData header, (entries keyData next).map (prepend (done ++ d :: ds)),
      entries_single .., ?_⟩
    rw [contents_chainNode, contents_chainNode, own_moveData fun _ => rfl, own_setData]
    simp [prepend]
  · rw [count_chainNode, count_chainNode, count_single]

lemma tailNode_spec (hmax : s.length ≤ raxNodeMaxSize) (hnext : Shaped false next) :
    Shaped false (tailNode s next) ∧ contents (tailNode s next) = (contents next).map (prepend s) ∧
    count (tailNode s next) = count next + if s ≠ [] then 1 else 0 := by
  rw [tailNode]
  split
  next hs =>
    refine ⟨shaped_chainNode hs hmax hnext, ?_, count_chainNode ..⟩
    rw [contents_chainNode]
    rfl
  next hs =>
    rw [not_ne_iff.mp hs, map_prepend_nil]
    exact ⟨hnext, rfl, rfl⟩

lemma Grown.chain {l : Bytes} (hg : Grown s data h n nodes) (header : Header V) (hl : l ≠ [])
    (hmax : l.length ≤ raxNodeMaxSize) :
    Grown (l ++ s) data (chainNode header l h) (chainNode header l n) nodes := by
  refine ⟨shaped_chainNode hl hmax hg.shaped, ?_, ?_⟩
  · rw [contents_chainNode, contents_chainNode]
    have hadds := (hg.adds.map (prepend l)).append (own keyData header) []
    rwa [append_nil, append_nil] at hadds
  · rw [count_chainNode, count_chainNode, hg.counted]
    omega

lemma Grown.rebase {h' : Node V} {k : Nat}
    (hg : Grown s data h n nodes) (hcontents : contents h = contents h')
    (hcount : count h = count h' + k) : Grown s data h' n (nodes + k) := by
  refine ⟨hg.shaped, hcontents ▸ hg.adds, ?_⟩
  rw [hg.counted]
  omega

lemma splitMismatch_spec {d : UInt8}
    {ds : Bytes} (hok : Shaped root (.node header [(done ++ d :: ds, next)]))
    (hcompr : header.iscompr) (hne : d ≠ c) (cs : Bytes) (data : Option V) :
    ∃ n nodes,
    splitMismatch header (done ++ d :: ds) next done.length (c :: cs) data = some (n, nodes, 1) ∧
    Grown (done ++ c :: cs) data (.node header [(done ++ d :: ds, next)]) n nodes := by
  obtain ⟨l, t, heq, _, hmax, hnext⟩ := compressed_edges hok hcompr
  cases heq
  rw [length_append, length_cons] at hmax
  obtain ⟨hshape, hcontents, hcount⟩ := tailNode_spec (s := ds) (by omega) hnext
  have hget : (done ++ d :: ds)[done.length]? = some d := by
    rw [getElem?_append_right (le_refl _), Nat.sub_self, getElem?_cons_zero]
  have htail : (done ++ d :: ds).drop (done.length + 1) = ds := by
    rw [drop_length_add_append, drop_succ_cons, drop_zero]
  -- The string goes on below a normal node for the byte that differs.
  have hgrow : ∀ split : Header V, split.iscompr = false →
    ∃ n nodes, addNodes data (.node split [([d], tailNode ds next)]) (c :: cs) =
      some (n, nodes, 1) ∧
      Grown (c :: cs) data (.node split [([d], tailNode ds next)]) n nodes := by
    intro split hsplit
    apply addNodes_spec
    · refine .node ⟨⟨by simp, pairwise_singleton _ _⟩, ?_, by simp, .inl rfl⟩
        (by simpa using hshape)
      intro hc
      rw [hsplit] at hc
      cases hc
    · exact ⟨hsplit, by simpa [Tree.edges] using hne.symm⟩
  cases done with
  | nil =>
    obtain ⟨n, nodes, hadd, hg⟩ := hgrow (moveData header newHeader) (moveData_iscompr ..)
    refine ⟨n, nodes + if ds ≠ [] then 1 else 0, ?_, hg.rebase ?_ ?_⟩
    · rw [splitMismatch]
      simp [hadd]
    · rw [contents_single, own_moveData fun _ => rfl, hcontents, contents_single,
        ← map_prepend_append]
      rfl
    · rw [count_single, count_single]
      omega
  | cons b bs =>
    obtain ⟨n, nodes, hadd, hg⟩ := hgrow newHeader rfl
    refine ⟨chainNode (trimHeader header) (b :: bs) n, nodes + ((if ds ≠ [] then 1 else 0) + 1), ?_,
      (hg.chain (trimHeader header) (cons_ne_nil _ _) (by omega)).rebase ?_ ?_⟩
    · rw [splitMismatch, hget, htail]
      simp only [some_bind, length_cons, Nat.succ_ne_zero, if_false, hadd]
      rw [← length_cons, take_left]
      rfl
    · rw [contents_chainNode, own_trimHeader, contents_single, hcontents, contents_single,
        ← map_prepend_append, map_append, ← map_prepend_append]
      rfl
    · rw [count_chainNode, count_single, count_single]
      omega

lemma growNode_spec (hok : Shaped root h) (hstop : Stop h done j rest) (data : Option V)
    (hmiss : ¬ (rest = [] ∧ (h.info.iscompr = false ∨ j = 0))) :
    ∃ n nodes, growNode h j rest data = some (n, nodes, 1) ∧
    Grown (done ++ rest) data h n nodes := by
  cases hstop with
  | atNode => exact absurd ⟨rfl, .inr rfl⟩ hmiss
  | noEdge hnormal hfree =>
    rename_i header edges c cs
    obtain ⟨n, nodes, hadd, hg⟩ :=
      addNodes_spec data _ (c :: cs) (shaped_asRoot hok) ⟨hnormal, hfree⟩
    refine ⟨n, nodes, ?_, hg⟩
    rw [growNode, Tree.info, hnormal]
    simpa using hadd
  | inside hcompr hdone =>
    rw [append_nil]
    refine ⟨_, 1, ?_, splitInside_spec hok hcompr hdone data⟩
    rw [growNode, Tree.info, hcompr]
    simp [Tree.edges]
  | mismatch hcompr hne =>
    rename_i cs
    obtain ⟨n, nodes, hsplit, hg⟩ := splitMismatch_spec hok hcompr hne cs data
    refine ⟨n, nodes, ?_, hg⟩
    rw [growNode, Tree.info, hcompr]
    simpa [Tree.edges] using hsplit

/-- The invariant of `rax`. -/
structure Valid (rax : Rax V) : Prop where
  shaped : Shaped true rax.head
  numele : rax.numele = (contents rax.head).length
  numnodes : rax.numnodes = count rax.head

lemma Grown.atPlace (hg : Grown s data h n nodes) (hway : AllWay NodeOk way) :
    Shaped true (plug n way) ∧
    Adds (path way ++ s, data) (contents (plug h way)) (contents (plug n way)) ∧
    count (plug n way) = count (plug h way) + nodes := by
  refine ⟨all_plug.mpr ⟨shaped_ofFalse hg.shaped _, hway⟩, adds_plug hg.adds way, ?_⟩
  have := count_plug n h way
  have := hg.counted
  omega

/-- A key that the walk misses can be added, so it is not in the tree. -/
lemma missing {head : Node V} (hok : Shaped true head)
    (hw : raxLowWalk head s [] = ⟨rest, h, way, j⟩)
    (hmiss : rest ≠ [] ∨ (h.info.iscompr ∧ j ≠ 0) ∨ h.info.iskey = false) :
    s ∉ (contents head).map fst := by
  obtain ⟨done, rfl, hshape, hway, rfl, hstop⟩ := raxLowWalk_head hok hw
  have hgrown : ∃ n nodes, Grown (done ++ rest) none h n nodes := by
    by_cases hhere : rest = [] ∧ (h.info.iscompr = false ∨ j = 0)
    · obtain ⟨rfl, hj⟩ := hhere
      have hkey : h.info.iskey = false := by
        rcases hmiss with hmiss | ⟨hcompr, hmiss⟩ | hmiss
        · exact absurd rfl hmiss
        · rcases hj with hj | hj
          · rw [hcompr] at hj
            cases hj
          · exact absurd hj hmiss
        · exact hmiss
      rw [hstop.done_eq_nil hj]
      exact ⟨_, 0, grown_setData (shaped_asRoot hshape) hkey none⟩
    · obtain ⟨n, nodes, _, hg⟩ := growNode_spec hshape hstop none hhere
      exact ⟨n, nodes, hg⟩
  obtain ⟨n, nodes, hg⟩ := hgrown
  obtain ⟨hshape', hadds, _⟩ := hg.atPlace hway
  exact (hadds.map fst).not_mem (sorted_contents hshape')

lemma adds_key (old : Header V) (hkey : header.iskey)
    (hold : old.iskey = false) (edges : List (Bytes × Node V)) (way : Way V) :
    Adds (path way, raxGetData header) (contents (plug (.node old edges) way))
    (contents (plug (.node header edges) way)) := by
  have hadds := adds_plug (adds_own (keyData_of_iskey hkey) (keyData_of_not_iskey hold) edges) way
  rw [prepend, append_nil] at hadds
  exact hadds

lemma rekey_spec (hshape : Shaped way.isEmpty (.node old edges)) (hway : AllWay NodeOk way)
    (hcompr : header.iscompr = old.iscompr) (hkey : header.iskey) :
    Shaped true (plug (.node header edges) way) ∧
    count (plug (.node header edges) way) = count (plug (.node old edges) way) := by
  rw [Shaped, all_node] at hshape
  refine ⟨all_plug.mpr ⟨.node ?_ hshape.2, hway⟩, count_plug_info ..⟩
  exact hshape.1.asRoot.cast hcompr (.inr (.inl hkey))

/-- What becomes of the keys if one gets a value. -/
def Puts (s : Bytes) (data : Option V) (overwrite : Bool) (old new : List (Bytes × Option V))
    (reply : Reply V) : Prop :=
  (reply = ⟨true, none⟩ ∧ Adds (s, data) old new) ∨
    ∃ v mid, reply = ⟨false, some v⟩ ∧ Adds (s, v) mid old ∧
      Adds (s, if overwrite then data else v) mid new

lemma raxGenericInsert_spec {rax : Rax V} (hv : Valid rax) (s : Bytes) (data : Option V)
    (overwrite : Bool) :
    ∃ rax' reply, raxGenericInsert rax s data overwrite = some (rax', reply) ∧ Valid rax' ∧
    Puts s data overwrite (contents rax.head) (contents rax'.head) reply := by
  obtain ⟨head, numele, numnodes⟩ := rax
  obtain ⟨hok, hele, hnodes⟩ := hv
  rw [raxGenericInsert]
  generalize hw : raxLowWalk head s [] = w
  obtain ⟨rest, h, way, j⟩ := w
  obtain ⟨done, rfl, hshape, hway, rfl, hstop⟩ := raxLowWalk_head hok hw
  simp only at hele hnodes ⊢
  -- One more key, at this place.
  have hnew : ∀ n nodes, Grown (done ++ rest) data h n nodes →
    Valid ⟨plug n way, numele + 1, numnodes + nodes⟩ ∧
    Adds (path way ++ (done ++ rest), data) (contents (plug h way)) (contents (plug n way)) := by
    intro n nodes hg
    obtain ⟨hshape', hadds, hcount⟩ := hg.atPlace hway
    exact ⟨⟨hshape', by rw [hele, hadds.length], by rw [hnodes, hcount]⟩, hadds⟩
  split
  next hhere =>
    obtain ⟨rfl, hj⟩ := hhere
    rw [Bool.not_eq_true'] at hj
    rw [hstop.done_eq_nil hj] at hnew ⊢
    cases hkey : h.info.iskey with
    | true =>
      obtain ⟨old, edges⟩ := h
      have hkey : old.iskey := hkey
      have hold := adds_key { old with iskey := false } hkey rfl edges way
      have hrekey : ∀ header : Header V, header.iscompr = old.iscompr → header.iskey →
        raxGetData header = (if overwrite then data else raxGetData old) →
        Valid ⟨plug (.node header edges) way, numele, numnodes⟩ ∧
        Puts (path way) data overwrite (contents (plug (.node old edges) way))
          (contents (plug (.node header edges) way)) ⟨false, some (raxGetData old)⟩ := by
        intro header hcompr hkey' hdata
        obtain ⟨hshape', hcount⟩ := rekey_spec hshape hway hcompr hkey'
        have hadds := adds_key { old with iskey := false } hkey' rfl edges way
        refine ⟨⟨hshape', ?_, hnodes.trans hcount.symm⟩, .inr ⟨_, _, rfl, hold, hdata ▸ hadds⟩⟩
        rw [hele, hold.length, hadds.length]
      rw [nil_append, append_nil]
      cases overwrite with
      | true =>
        obtain ⟨hv, hputs⟩ := hrekey (raxSetData old data) (setData_iscompr old data)
          (setData_iskey old data) (getData_setData old data)
        exact ⟨_, _, rfl, hv, hputs⟩
      | false =>
        obtain ⟨hv, hputs⟩ := hrekey old rfl hkey rfl
        exact ⟨_, _, rfl, hv, hputs⟩
    | false =>
      obtain ⟨hv, hadds⟩ := hnew _ 0 (grown_setData (shaped_asRoot hshape) hkey data)
      exact ⟨_, _, rfl, hv, .inl ⟨rfl, hadds⟩⟩
  next hgrow =>
    rw [Bool.not_eq_true'] at hgrow
    obtain ⟨n, nodes, heq, hg⟩ := growNode_spec hshape hstop data hgrow
    obtain ⟨hv, hadds⟩ := hnew n nodes hg
    refine ⟨_, _, ?_, hv, .inl ⟨rfl, hadds⟩⟩
    simp [heq]

/-- A key with a value, or no such key. -/
def Finds (s : Bytes) (es : List (Bytes × Option V)) (reply : Reply V) : Prop :=
  (reply = ⟨false, none⟩ ∧ s ∉ es.map fst) ∨
    ∃ v mid, reply = ⟨true, some v⟩ ∧ Adds (s, v) mid es

/-- The node of a key, as `raxFind` and `raxRemove` test for it. -/
lemma found {head : Node V} (hok : Shaped true head)
    (hw : raxLowWalk head s [] = ⟨rest, .node header edges, way, j⟩)
    (hfound : ¬ (rest ≠ [] ∨ (header.iscompr ∧ j ≠ 0) ∨ header.iskey = false)) :
    header.iskey ∧ s = path way ∧ plug (.node header edges) way = head ∧
    Shaped way.isEmpty (.node header edges) ∧ AllWay NodeOk way := by
  simp only [not_or, not_not, not_and, Bool.not_eq_false] at hfound
  obtain ⟨rfl, hj, hkey⟩ := hfound
  obtain ⟨done, hplug, hshape, hway, rfl, hstop⟩ := raxLowWalk_head hok hw
  have hdone : done = [] := by
    apply hstop.done_eq_nil
    cases hcompr : header.iscompr with
    | true => exact .inr (hj hcompr)
    | false => exact .inl hcompr
  refine ⟨hkey, ?_, hplug, hshape, hway⟩
  rw [hdone, nil_append, append_nil]

lemma raxFind_spec {rax : Rax V} (hv : Valid rax) (s : Bytes) :
    Finds s (contents rax.head) (raxFind rax s) := by
  rw [raxFind]
  generalize hw : raxLowWalk rax.head s [] = w
  obtain ⟨rest, ⟨header, edges⟩, way, j⟩ := w
  simp only [Bool.not_eq_true']
  split
  next hmiss => exact .inl ⟨rfl, missing hv.shaped hw hmiss⟩
  next hhit =>
    obtain ⟨hkey, rfl, hplug, _, _⟩ := found hv.shaped hw hhit
    rw [← hplug]
    exact .inr ⟨_, _, rfl, adds_key { header with iskey := false } hkey rfl edges way⟩

end Dice.Ports.RadixTreeInsert
