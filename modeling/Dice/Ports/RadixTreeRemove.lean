import Dice.Ports.RadixTreeInsert

/-!
# Removing from the radix tree

Freeing the nodes that have become useless and joining nodes with one child
changes no key.  Only the node that loses its key counts.
-/

namespace Dice.Ports.RadixTreeRemove

open List hiding count
open Verified CString SortedList PrefixTree RadixTree RadixTreeWalk
open RadixTreeInsert

variable {V : Type}

/-! ## Chains -/

/-- A node of a chain: it has one child and is no key. -/
def Link (n : Node V) : Prop := n.info.iskey = false ∧ ∃ l t, n.edges = [(l, t)]

variable {root : Bool} {n : Node V} {rax : Rax V}

lemma frame_single {f : Frame UInt8 (Header V)} (hf : f.All NodeOk root)
    (hchain : endsChain f.info (f.left.length + 1 + f.right.length) = false) :
    f.info.iskey = false ∧ f.left = [] ∧ f.right = [] := by
  simp only [endsChain, Bool.or_eq_false_iff, Bool.and_eq_false_iff, Bool.not_eq_false',
    bne_eq_false_iff_eq] at hchain
  refine ⟨hchain.1, ?_⟩
  rcases hchain.2 with hcompr | hone
  · exact frame_compressed hf hcompr
  · exact ⟨length_eq_zero_iff.mp (by omega), length_eq_zero_iff.mp (by omega)⟩

/-- A node that does not end a chain is a link of it. -/
lemma link_of_not_endsChain (hn : Shaped root n)
    (hchain : endsChain n.info n.edges.length = false) : Link n := by
  obtain ⟨header, edges⟩ := n
  simp only [endsChain, Bool.or_eq_false_iff, Bool.and_eq_false_iff, Bool.not_eq_false',
    bne_eq_false_iff_eq] at hchain
  refine ⟨hchain.1, ?_⟩
  rcases hchain.2 with hcompr | hone
  · obtain ⟨l, t, rfl, _⟩ := compressed_edges hn hcompr
    exact ⟨l, t, rfl⟩
  · obtain ⟨⟨l, t⟩, rfl⟩ := length_eq_one_iff.mp hone
    exact ⟨l, t, rfl⟩

/-- The size of a node with one child is the length of its label. -/
lemma size_single {header : Header V} {l : Bytes} {t : Node V}
    (h : Shaped root (.node header [(l, t)])) : size (.node header [(l, t)]) = l.length := by
  rw [Shaped, all_node] at h
  rw [size]
  split
  next => simp [Tree.edges]
  next hcompr =>
    have hcompr : header.iscompr = false := by simpa [Tree.info] using hcompr
    rw [h.1.normal hcompr l (by simp)]
    rfl

lemma Link.size_le (hlink : Link n) (hok : Shaped root n) : size n ≤ raxNodeMaxSize := by
  obtain ⟨header, edges⟩ := n
  obtain ⟨_, l, t, hedges⟩ := hlink
  obtain rfl : edges = [(l, t)] := hedges
  rw [size_single hok]
  cases hcompr : header.iscompr with
  | true =>
    obtain ⟨_, _, heq, _, hmax, _⟩ := compressed_edges hok hcompr
    cases heq
    exact hmax
  | false =>
    rw [(all_node.mp hok).1.normal hcompr l (by simp)]
    decide

lemma size_eq_zero_iff (hok : Shaped root n) : size n = 0 ↔ n.edges = [] := by
  obtain ⟨header, edges⟩ := n
  constructor
  · intro hsize
    cases hcompr : header.iscompr with
    | true =>
      obtain ⟨l, t, rfl, htwo, _⟩ := compressed_edges hok hcompr
      rw [size_single hok] at hsize
      omega
    | false =>
      rw [size, Tree.info, hcompr] at hsize
      exact length_eq_zero_iff.mp hsize
  · intro hedges
    obtain rfl : edges = [] := hedges
    rw [size]
    split <;> rfl

lemma link_of_size_eq_one (hok : Shaped root n) (hsize : size n = 1)
    (hkey : n.info.iskey = false) : Link n := by
  refine ⟨hkey, ?_⟩
  obtain ⟨header, edges⟩ := n
  cases hcompr : header.iscompr with
  | true =>
    obtain ⟨l, t, rfl, _⟩ := compressed_edges hok hcompr
    exact ⟨l, t, rfl⟩
  | false =>
    rw [size, Tree.info, hcompr] at hsize
    obtain ⟨⟨l, t⟩, rfl⟩ := length_eq_one_iff.mp hsize
    exact ⟨l, t, rfl⟩

lemma chainStart_spec (h : Node V) (way : Way V) (hlink : Link h)
    (hway : AllWay NodeOk way) {start : Node V} {way' : Way V}
    (hstart : chainStart h way = (start, way')) : plug start way' = plug h way ∧ Link start := by
  fun_induction chainStart h way with
  | case1 | case2 =>
    cases hstart
    exact ⟨rfl, hlink⟩
  | case3 h f way hchain ih =>
    obtain ⟨hkey, hleft, hright⟩ := frame_single hway.1 (by simpa using hchain)
    refine ih ⟨hkey, f.label, h, ?_⟩ hway.2 hstart
    rw [Frame.fill, hleft, hright]
    rfl

section

variable (header : Header V) (l : Bytes) (t : Node V) (comprsize : Nat)

include header

lemma scanChain_single : scanChain (.node header [(l, t)]) comprsize =
    if endsChain t.info t.edges.length then 1
    else if comprsize + size t > raxNodeMaxSize then 1
    else scanChain t (comprsize + size t) + 1 := by
  conv_lhs => unfold scanChain
  rfl

lemma takeChain_single : takeChain (.node header [(l, t)]) comprsize =
    if endsChain t.info t.edges.length then (l, t, 1)
    else if comprsize + size (.node header [(l, t)]) + size t > raxNodeMaxSize then (l, t, 1)
    else
      let (more, next, n) := takeChain t (comprsize + size (.node header [(l, t)]))
      (l ++ more, next, n + 1) := by
  conv_lhs => unfold takeChain
  simp only [Tree.edges, flatMap_cons, flatMap_nil, append_nil]
  rfl

end

/-- The chain that is collected, and the loop that measured it. -/
lemma takeChain_spec (h : Node V) (comprsize : Nat) (hok : Shaped root h)
    (hlink : Link h) (hmax : comprsize + size h ≤ raxNodeMaxSize) {data : Bytes} {next : Node V}
    {n : Nat} (htake : takeChain h comprsize = (data, next, n)) :
    scanChain h (comprsize + size h) = n ∧ n ≤ data.length ∧
    comprsize + data.length ≤ raxNodeMaxSize ∧ Shaped false next ∧
    contents h = (contents next).map (prepend data) ∧ count h = count next + n := by
  induction h using Tree.induction generalizing comprsize root data next n with
  | h header edges ih =>
  obtain ⟨hkey, l, t, hedges⟩ := hlink
  obtain rfl : edges = [(l, t)] := hedges
  have hsize := size_single hok
  have hlabel : 1 ≤ l.length := by
    have hne := (all_node.mp hok).1.ordered.1 l (by simp)
    exact length_pos_of_ne_nil hne
  have ht : Shaped false t := (all_node.mp hok).2 _ (mem_singleton_self _)
  have hcontents : contents (.node header [(l, t)]) = (contents t).map (prepend l) := by
    rw [contents_single, own_of_not_iskey (show header.iskey = false from hkey), nil_append]
  rw [takeChain_single] at htake
  rw [scanChain_single]
  -- The chain ends behind this node.
  have hend : (data, next, n) = (l, t, 1) → 1 = n ∧ n ≤ data.length ∧
    comprsize + data.length ≤ raxNodeMaxSize ∧ Shaped false next ∧
    contents (.node header [(l, t)]) = (contents next).map (prepend data) ∧
    count (.node header [(l, t)]) = count next + n := by
    intro heq
    cases heq
    exact ⟨rfl, hlabel, by omega, ht, hcontents, count_single ..⟩
  split at htake
  next hchain => rw [if_pos hchain]; exact hend htake.symm
  next hchain =>
    rw [if_neg hchain]
    split at htake
    next hlong => rw [if_pos hlong]; exact hend htake.symm
    next hfits =>
      rw [if_neg hfits]
      have hlink := link_of_not_endsChain ht (by simpa using hchain)
      generalize hmore : takeChain t (comprsize + size (.node header [(l, t)])) = more at htake
      cases htake
      obtain ⟨hscan, hn, hlen, hnext, hcont, hcount⟩ :=
        ih (l, t) (mem_singleton_self _) _ ht hlink (by simp only; omega) hmore
      refine ⟨by rw [hscan], ?_, ?_, hnext, ?_, ?_⟩
      · rw [length_append]
        omega
      · rw [length_append]
        omega
      · rw [hcontents, hcont, map_prepend_append]
      · rw [count_single, hcount]
        omega

lemma compressChain_spec {h : Node V} {way : Way V}
    (hv : Valid { rax with head := plug h way }) (hlink : Link h) :
    Valid (compressChain rax h way) ∧
    contents (compressChain rax h way).head = contents (plug h way) := by
  obtain ⟨hok, hele, hnodes⟩ := hv
  rw [compressChain]
  generalize hstart : chainStart h way = st
  obtain ⟨start, way'⟩ := st
  obtain ⟨hplug, hlink'⟩ := chainStart_spec h way hlink (all_plug.mp hok).2 hstart
  rw [← hplug] at hok hele hnodes ⊢
  obtain ⟨hshape, hway⟩ := all_plug.mp hok
  simp only
  split
  next hmany =>
    generalize htake : takeChain start 0 = chain
    obtain ⟨data, next, n⟩ := chain
    obtain ⟨hscan, hn, hmax, hnext, hcontents, hcount⟩ :=
      takeChain_spec start 0 hshape hlink' (by rw [Nat.zero_add]; exact hlink'.size_le hshape) htake
    rw [Nat.zero_add] at hscan hmax
    have hsame : contents (.node { newHeader with iscompr := true } [(data, next)]) =
      contents start := by
      rw [contents_single, hcontents]
      rfl
    have hjoined := entries_plug_congr hsame way'
    refine ⟨⟨all_plug.mpr ⟨shaped_ofFalse (.node ?_ (by simpa using hnext)) _, hway⟩, ?_, ?_⟩,
      hjoined⟩
    · have htwo : 2 ≤ data.length := by omega
      refine ⟨⟨?_, pairwise_singleton _ _⟩, fun _ => ⟨data, rfl, htwo, hmax⟩, ?_,
        .inr (.inr (cons_ne_nil _ _))⟩
      · intro l hl
        obtain rfl : l = data := by simpa using hl
        exact ne_nil_of_length_pos (by omega)
      · intro hfalse
        cases hfalse
    · rw [contents, hjoined]
      exact hele
    · have hplugs := count_plug (.node { newHeader with iscompr := true } [(data, next)]) start way'
      rw [count_single] at hplugs
      have hnodes : rax.numnodes = count (plug start way') := hnodes
      simp only at hplugs ⊢
      omega
  next hone => exact ⟨⟨hok, hele, hnodes⟩, rfl⟩

lemma relink_spec {h : Node V} {way : Way V} {trycompress : Bool}
    (hv : Valid { rax with head := plug h way }) (hlink : trycompress → Link h) :
    Valid (relink trycompress rax h way) ∧
    contents (relink trycompress rax h way).head = contents (plug h way) := by
  cases trycompress with
  | true => exact compressChain_spec hv (hlink rfl)
  | false => exact ⟨hv, rfl⟩

/-- The child of the node that `freeUp` ends at has no key. -/
lemma freeUp_spec (f : Frame UInt8 (Header V)) (way : Way V) (t : Node V)
    (ht : contents t = []) (hway : AllWay NodeOk (f :: way)) {f' : Frame UInt8 (Header V)}
    {way' : Way V} {n : Nat} (hfree : freeUp f way = (f', way', n)) :
    ∃ t', plug t' (f' :: way') = plug t (f :: way) ∧ contents t' = [] ∧
    count t' + 1 = count t + n ∧ AllWay NodeOk (f' :: way') ∧
    (way' = [] ∨ endsChain f'.info (f'.left.length + 1 + f'.right.length)) := by
  induction way generalizing f t n with
  | nil =>
    cases hfree
    exact ⟨t, rfl, ht, rfl, hway, .inl rfl⟩
  | cons g way ih =>
    rw [freeUp] at hfree
    split at hfree
    next hends =>
      cases hfree
      exact ⟨t, rfl, ht, rfl, hway, .inr hends⟩
    next hchain =>
      obtain ⟨hkey, hleft, hright⟩ := frame_single hway.1 (by simpa using hchain)
      generalize hup : freeUp g way = up at hfree
      cases hfree
      have hfill : f.fill t = .node f.info [(f.label, t)] := by
        rw [Frame.fill, hleft, hright]
        rfl
      have hnone : contents (f.fill t) = [] := by
        rw [hfill, contents_single, own_of_not_iskey hkey, ht]
        rfl
      obtain ⟨t', hplug, ht', hcount, hway', hends⟩ := ih g (f.fill t) hnone hway.2 hup
      refine ⟨t', hplug, ht', ?_, hway', hends⟩
      rw [hcount, hfill, count_single]
      omega

lemma raxRemoveChild_spec {f : Frame UInt8 (Header V)} {t : Node V}
    (hf : f.All NodeOk root) (ht : contents t = [])
    (halive : root ∨ endsChain f.info (f.left.length + 1 + f.right.length)) :
    Shaped root (raxRemoveChild f) ∧ contents (raxRemoveChild f) = contents (f.fill t) ∧
    count (f.fill t) = count (raxRemoveChild f) + count t := by
  obtain ⟨header, left, l, right⟩ := f
  cases hcompr : header.iscompr with
  | true =>
    obtain ⟨rfl, rfl⟩ : left = [] ∧ right = [] := frame_compressed hf hcompr
    rw [raxRemoveChild, if_pos hcompr]
    refine ⟨.node ⟨⟨by simp, List.Pairwise.nil⟩, ?_, by simp, ?_⟩ (by simp), ?_, ?_⟩
    · intro hc
      rw [moveData_iscompr] at hc
      cases hc
    · refine halive.imp id fun hends => .inl ?_
      have hkey : header.iskey := by simpa [endsChain] using hends
      rw [moveData_iskey]
      · exact hkey
      · rfl
    · rw [Frame.fill, nil_append, contents_single, ht, contents, entries, own_moveData]
      · rfl
      · exact id
    · rw [Frame.fill, nil_append, count_single, Nat.add_comm]
      rfl
  | false =>
    have hlabels : ((left ++ right).map Prod.fst).Sublist
      (left.map Prod.fst ++ l :: right.map Prod.fst) := by
      rw [map_append]
      exact (sublist_cons_self ..).append_left _
    rw [raxRemoveChild, if_neg (by simp [hcompr])]
    refine ⟨.node ⟨⟨?_, ?_⟩, ?_, ?_, ?_⟩ hf.2, ?_, ?_⟩
    · intro l' hl'
      exact hf.1.ordered.1 l' (hlabels.subset hl')
    · exact hf.1.ordered.2.sublist hlabels
    · intro hc
      rw [show header.iscompr = false from hcompr] at hc
      cases hc
    · intro _ l' hl'
      exact hf.1.normal hcompr l' (hlabels.subset hl')
    · refine halive.imp id fun hends => ?_
      simp only [endsChain, hcompr, Bool.or_eq_true, Bool.not_false, Bool.true_and,
        bne_iff_ne] at hends
      refine hends.imp id fun hmany hnil => hmany ?_
      obtain ⟨rfl, rfl⟩ : left = [] ∧ right = [] := by simpa using hnil
      rfl
    · have ht : entries keyData t = [] := ht
      rw [Frame.fill, contents, contents, entries, entries, edgesEntries_append,
        edgesEntries_append, edgesEntries_cons, ht]
      rfl
    · rw [Frame.fill, count, count, count, entries, entries, edgesEntries_append,
        edgesEntries_append, edgesEntries_cons]
      simp only [length_append, length_map]
      omega

lemma removeNode_spec (rax : Rax V) (h : Node V) (way : Way V) (hkey : h.info.iskey = false)
    (hok : Shaped true h) (hway : AllWay NodeOk way)
    (hele : rax.numele = (contents (plug h way)).length)
    (hnodes : rax.numnodes = count (plug h way)) :
    Valid (removeNode rax h way) ∧
    contents (removeNode rax h way).head = contents (plug h way) := by
  rw [removeNode.eq_def]
  split
  next hsize =>
    cases way with
    | nil => exact ⟨⟨hok, hele, hnodes⟩, rfl⟩
    | cons f way =>
      obtain ⟨header, edges⟩ := h
      obtain rfl : edges = [] := (size_eq_zero_iff hok).mp hsize
      have hnone : contents (.node header []) = [] := by
        rw [contents, entries, own_of_not_iskey (show header.iskey = false from hkey)]
        rfl
      generalize hfree : freeUp f way = free
      obtain ⟨f', way', n⟩ := free
      obtain ⟨t', hplug, ht', hcount, hway', hends⟩ := freeUp_spec f way _ hnone hway hfree
      obtain ⟨hnew, hsame, hless⟩ := raxRemoveChild_spec hway'.1 ht'
        (hends.imp_left fun hnil => by rw [hnil]; rfl)
      have hsame' : contents (plug (raxRemoveChild f') way') =
        contents (plug (.node header []) (f :: way)) := by
        rw [← hplug]
        exact entries_plug_congr hsame way'
      rw [← hsame']
      simp only [hfree]
      apply relink_spec
      · refine ⟨all_plug.mpr ⟨hnew, hway'.2⟩, by rw [hsame']; exact hele, ?_⟩
        have hplugs := count_plug (raxRemoveChild f') (f'.fill t') way'
        rw [← hplug] at hnodes
        have hnodes : rax.numnodes = count (plug (f'.fill t') way') := hnodes
        have hone : count (.node header [] : Node V) = 1 := rfl
        show rax.numnodes - n = count (plug (raxRemoveChild f') way')
        omega
      · intro htry
        rw [Bool.and_eq_true, beq_iff_eq, Bool.not_eq_true'] at htry
        exact link_of_size_eq_one hnew htry.1 htry.2
  next hsize =>
    have hedges : h.edges ≠ [] := fun hnil => hsize ((size_eq_zero_iff hok).mpr hnil)
    obtain ⟨header, edges⟩ := h
    have hok' : Shaped way.isEmpty (.node header edges) := by
      have hnode := all_node.mp hok
      exact .node (hnode.1.cast rfl (.inr (.inr (by simpa [Tree.edges] using hedges)))) hnode.2
    apply relink_spec
    · exact ⟨all_plug.mpr ⟨hok', hway⟩, hele, hnodes⟩
    · intro htry
      exact link_of_size_eq_one hok (by simpa using htry) hkey

/-- What becomes of the keys if one is removed. -/
def Takes (s : Bytes) (old new : List (Bytes × Option V)) (reply : Reply V) : Prop :=
  (reply = ⟨false, none⟩ ∧ s ∉ old.map Prod.fst ∧ new = old) ∨
    ∃ v, reply = ⟨true, some v⟩ ∧ Adds (s, v) new old

lemma raxRemove_spec (hv : Valid rax) (s : Bytes) : Valid (raxRemove rax s).1 ∧
    Takes s (contents rax.head) (contents (raxRemove rax s).1.head) (raxRemove rax s).2 := by
  obtain ⟨head, numele, numnodes⟩ := rax
  have hshaped : Shaped true head := hv.shaped
  rw [raxRemove]
  generalize hw : raxLowWalk head s [] = w
  obtain ⟨rest, ⟨header, edges⟩, way, j⟩ := w
  simp only [Bool.not_eq_true', Tree.info, Tree.edges]
  split
  next hmiss => exact ⟨hv, .inl ⟨rfl, missing hshaped hw hmiss, rfl⟩⟩
  next hhit =>
    obtain ⟨hkey, rfl, rfl, hshape, hway⟩ := found hshaped hw hhit
    obtain ⟨_, hele, hnodes⟩ := hv
    have hadds := adds_key { header with iskey := false } hkey rfl edges way
    have hnode := all_node.mp hshape
    obtain ⟨hv', hsame⟩ := removeNode_spec ⟨plug (.node header edges) way, numele - 1, numnodes⟩
      (.node { header with iskey := false } edges) way rfl
      (.node (hnode.1.asRoot.cast rfl (.inl rfl)) hnode.2) hway
      (by have := hadds.length; simp only at hele this ⊢; omega)
      (hnodes.trans (count_plug_info ..))
    exact ⟨hv', .inr ⟨_, rfl, by rw [hsame]; exact hadds⟩⟩

end Dice.Ports.RadixTreeRemove
