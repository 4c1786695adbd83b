import Dice.Ports.RadixTree

/-!
# Walking in the radix tree

The shape of the nodes, and where `raxLowWalk` stops: at the node of the string,
or where the next byte has no edge, or inside of a compressed node.
-/

namespace Dice.Ports.RadixTreeWalk

open List Verified CString SortedList PrefixTree RadixTree

variable {V : Type}

/-- The value of a node, if it is a key. -/
def keyData (header : Header V) : Option (Option V) :=
  if header.iskey then some (raxGetData header) else none

/-- The keys and values of a tree. -/
abbrev contents (n : Node V) : List (Bytes × Option V) := entries keyData n

/-- The shape of a node.  Only the head may be without key and children. -/
structure NodeOk (root : Bool) (header : Header V) (labels : List Bytes) : Prop where
  ordered : OrderedLabels labels
  compressed : header.iscompr = true → ∃ l, labels = [l] ∧ 2 ≤ l.length ∧ l.length ≤ raxNodeMaxSize
  normal : header.iscompr = false → ∀ l ∈ labels, l.length = 1
  alive : root = true ∨ header.iskey = true ∨ labels ≠ []

/-- The shape of a tree. -/
abbrev Shaped (root : Bool) (n : Node V) : Prop := All NodeOk root n

variable {root : Bool} {header : Header V} {n : Node V} {edges : List (Bytes × Node V)} {j : Nat}

lemma NodeOk.asRoot {labels : List Bytes}
    (h : NodeOk root header labels) : NodeOk true header labels :=
  { h with alive := .inl rfl }

lemma shaped_asRoot (h : Shaped root n) : Shaped true n := by
  cases h with
  | node here below => exact .node here.asRoot below

lemma shaped_ofFalse (h : Shaped false n) (root : Bool) : Shaped root n := by
  cases h with
  | node here below =>
    exact .node { here with alive := .inr (here.alive.resolve_left Bool.false_ne_true) } below

lemma NodeOk.cast {header' : Header V} {labels : List Bytes}
    (h : NodeOk true header labels) (hcompr : header'.iscompr = header.iscompr)
    (halive : root ∨ header'.iskey ∨ labels ≠ []) : NodeOk root header' labels :=
  ⟨h.ordered, fun hc => h.compressed (hcompr ▸ hc), fun hc => h.normal (hcompr ▸ hc), halive⟩

lemma shaped_newNode : Shaped true (raxNewNode : Node V) := by
  refine .node ⟨⟨by simp, List.Pairwise.nil⟩, ?_, by simp, .inl rfl⟩ (by simp)
  intro h
  cases h

lemma sorted_contents (h : Shaped root n) : Sorted ((contents n).map Prod.fst) :=
  sorted_entries (h.mono fun _ _ _ hok => hok.ordered)

lemma keyData_setData (header : Header V) (data : Option V) :
    keyData (raxSetData header data) = some data := by
  cases data <;> rfl

lemma keyData_of_iskey (h : header.iskey) : keyData header = some (raxGetData header) := if_pos h

lemma keyData_of_not_iskey (h : header.iskey = false) : keyData header = none := by
  rw [keyData, h]
  rfl

lemma own_of_not_iskey (h : header.iskey = false) :
    own keyData header = ([] : List (Bytes × Option V)) := by
  rw [own, keyData_of_not_iskey h]
  rfl

lemma own_of_iskey (h : header.iskey) :
    own keyData header = [(([] : Bytes), raxGetData header)] := by
  rw [own, keyData_of_iskey h]
  rfl

lemma own_setData (header : Header V) (data : Option V) :
    own keyData (raxSetData header data) = [(([] : Bytes), data)] := by
  rw [own, keyData_setData]
  rfl

lemma contents_single (header : Header V) (l : Bytes) (t : Node V) :
    contents (.node header [(l, t)]) =
      own keyData header ++ (contents t).map (prepend l) := entries_single ..

lemma compressed_edges (h : Shaped root (.node header edges)) (hc : header.iscompr) :
    ∃ l t, edges = [(l, t)] ∧ 2 ≤ l.length ∧ l.length ≤ raxNodeMaxSize ∧ Shaped false t := by
  rw [Shaped, all_node] at h
  obtain ⟨l, hl, htwo, hmax⟩ := h.1.compressed hc
  obtain ⟨⟨l', t⟩, rfl, rfl⟩ := map_eq_singleton_iff.mp hl
  exact ⟨l', t, rfl, htwo, hmax, h.2 _ (mem_cons_self ..)⟩

lemma frame_compressed {f : Frame UInt8 (Header V)} (hf : f.All NodeOk root)
    (hc : f.info.iscompr) : f.left = [] ∧ f.right = [] := by
  obtain ⟨l, hl, _⟩ := hf.1.compressed hc
  have hlen := congrArg length hl
  simp only [length_append, length_cons, length_map, length_nil] at hlen
  exact ⟨length_eq_zero_iff.mp (by omega), length_eq_zero_iff.mp (by omega)⟩

/-! ## Walking -/

lemma commonLen_le (xs ys : Bytes) : commonLen xs ys ≤ xs.length ∧ commonLen xs ys ≤ ys.length := by
  induction xs generalizing ys with
  | nil => simp [commonLen]
  | cons x xs ih =>
    cases ys with
    | nil => simp [commonLen]
    | cons y ys => by_cases h : x = y <;> simp [commonLen, h, ih]

lemma take_commonLen (xs ys : Bytes) : xs.take (commonLen xs ys) = ys.take (commonLen xs ys) := by
  induction xs generalizing ys with
  | nil => simp [commonLen]
  | cons x xs ih =>
    cases ys with
    | nil => simp [commonLen]
    | cons y ys => by_cases h : x = y <;> simp [commonLen, h, ih]

/-- The bytes behind what two strings have in common differ. -/
lemma drop_commonLen (xs ys : Bytes) {x y : UInt8} {xs' ys' : Bytes}
    (hx : xs.drop (commonLen xs ys) = x :: xs') (hy : ys.drop (commonLen xs ys) = y :: ys') :
    x ≠ y := by
  induction xs generalizing ys with
  | nil => simp at hx
  | cons a xs ih =>
    cases ys with
    | nil => simp at hy
    | cons b ys =>
      rw [commonLen] at hx hy
      split_ifs at hx hy with h
      · exact ih ys hx hy
      · cases hx
        cases hy
        exact h

lemma findEdge_some {c : UInt8} {left right : List (Bytes × Node V)} {child : Node V}
    (h : findEdge c edges = some (left, child, right)) : edges = left ++ ([c], child) :: right := by
  fun_induction findEdge c edges generalizing left with
  | case1 => cases h
  | case2 =>
    cases h
    rfl
  | case3 l t edges hne ih =>
    obtain ⟨⟨left', child', right'⟩, hfind, heq⟩ := Option.map_eq_some_iff.mp h
    cases heq
    rw [ih hfind]
    rfl

lemma findEdge_none {c : UInt8} (h : findEdge c edges = none) : [c] ∉ edges.map Prod.fst := by
  fun_induction findEdge c edges with
  | case1 => simp
  | case2 => cases h
  | case3 l t edges hne ih =>
    rw [map_cons, mem_cons, not_or]
    exact ⟨fun heq => hne heq.symm, ih (Option.map_eq_none_iff.mp h)⟩

lemma raxLowWalk_end (h : Node V) (way : Way V) : raxLowWalk h [] way = ⟨[], h, way, 0⟩ := by
  obtain ⟨header, edges⟩ := h
  unfold raxLowWalk
  cases edges <;> rfl

lemma raxLowWalk_compressed (hc : header.iscompr) (l : Bytes)
    (t : Node V) (c : UInt8) (cs : Bytes) (way : Way V) :
    raxLowWalk (.node header [(l, t)]) (c :: cs) way =
    if commonLen l (c :: cs) ≠ l.length ∨ commonLen l (c :: cs) = 0 then
      ⟨(c :: cs).drop (commonLen l (c :: cs)), .node header [(l, t)], way, commonLen l (c :: cs)⟩
    else raxLowWalk t ((c :: cs).drop (commonLen l (c :: cs))) (⟨header, [], l, []⟩ :: way) := by
  conv_lhs => unfold raxLowWalk
  simp [Tree.edges, Tree.info, hc]

lemma raxLowWalk_normal (hc : header.iscompr = false)
    (edges : List (Bytes × Node V)) (c : UInt8) (cs : Bytes) (way : Way V) :
    raxLowWalk (.node header edges) (c :: cs) way =
    match findEdge c edges with
    | none => ⟨c :: cs, .node header edges, way, 0⟩
    | some (left, child, right) =>
      raxLowWalk child cs (⟨header, left, [c], right⟩ :: way) := by
  conv_lhs => unfold raxLowWalk
  cases edges with
  | nil => rfl
  | cons e edges =>
    obtain ⟨l, t⟩ := e
    cases hfind : findEdge c ((l, t) :: edges) with
    | none => simp only [Tree.edges, Tree.info, hc, Bool.false_eq_true, if_false, hfind]
    | some found => simp only [Tree.edges, Tree.info, hc, Bool.false_eq_true, if_false, hfind]

/-- Where a walk can stop: the node, the part of its data that was read, `splitpos`, and
what is left of the string. -/
inductive Stop : Node V → Bytes → Nat → Bytes → Prop
  | atNode (h : Node V) : Stop h [] 0 []
  | noEdge {header : Header V} {edges : List (Bytes × Node V)} {c : UInt8} {cs : Bytes}
      (hnormal : header.iscompr = false) (hfree : [c] ∉ edges.map Prod.fst) :
      Stop (.node header edges) [] 0 (c :: cs)
  | inside {header : Header V} {done : Bytes} {d : UInt8} {ds : Bytes} {next : Node V}
      (hcompr : header.iscompr = true) (hdone : done ≠ []) :
      Stop (.node header [(done ++ d :: ds, next)]) done done.length []
  | mismatch {header : Header V} {done : Bytes} {d : UInt8} {ds : Bytes} {next : Node V}
      {c : UInt8} {cs : Bytes} (hcompr : header.iscompr = true) (hne : d ≠ c) :
      Stop (.node header [(done ++ d :: ds, next)]) done done.length (c :: cs)

lemma Stop.splitpos_eq {done rest : Bytes} (h : Stop n done j rest) : j = done.length := by
  cases h <;> rfl

lemma stop_compressed (hc : header.iscompr) (l s : Bytes)
    (next : Node V) (hl : l ≠ []) (hs : s ≠ [])
    (hstop : commonLen l s ≠ l.length ∨ commonLen l s = 0) :
    Stop (.node header [(l, next)]) (l.take (commonLen l s)) (commonLen l s)
    (s.drop (commonLen l s)) := by
  have hle := commonLen_le l s
  have hpos := length_pos_of_ne_nil hl
  have hlen : (l.take (commonLen l s)).length = commonLen l s := by
    rw [length_take]
    omega
  have hmore : l.drop (commonLen l s) ≠ [] := by
    rw [ne_eq, drop_eq_nil_iff]
    omega
  obtain ⟨d, ds, hd⟩ := exists_cons_of_ne_nil hmore
  have hsplit : l = l.take (commonLen l s) ++ d :: ds := by rw [← hd, take_append_drop]
  generalize hdone : l.take (commonLen l s) = done at *
  cases hrest : s.drop (commonLen l s) with
  | nil =>
    have hnil : done ≠ [] := by
      rintro rfl
      rw [drop_eq_nil_iff] at hrest
      have := length_pos_of_ne_nil hs
      simp only [length_nil] at hlen
      omega
    rw [← hlen, hsplit]
    exact .inside hc hnil
  | cons c cs =>
    rw [← hlen, hsplit]
    exact .mismatch hc (drop_commonLen l s hd hrest)

lemma raxLowWalk_spec (h : Node V) (s : Bytes) (way : Way V) (hok : Shaped way.isEmpty h)
    (hway : AllWay NodeOk way) {w : Walk V} (hw : raxLowWalk h s way = w) :
    ∃ used done, plug w.stopnode w.way = plug h way ∧ Shaped w.way.isEmpty w.stopnode ∧
    AllWay NodeOk w.way ∧ path w.way = path way ++ used ∧ s = used ++ (done ++ w.rest) ∧
    Stop w.stopnode done w.splitpos w.rest := by
  induction hlen : s.length using Nat.strong_induction_on generalizing h s way with
  | _ n ih =>
  obtain ⟨header, edges⟩ := h
  cases s with
  | nil =>
    rw [raxLowWalk_end] at hw
    subst hw
    exact ⟨[], [], rfl, hok, hway, (append_nil _).symm, rfl, .atNode _⟩
  | cons c cs =>
    cases hc : header.iscompr with
    | true =>
      obtain ⟨l, t, rfl, htwo, _, _⟩ := compressed_edges hok hc
      have htake := take_commonLen l (c :: cs)
      rw [raxLowWalk_compressed hc] at hw
      split at hw
      next hstop =>
        subst hw
        refine ⟨[], _, rfl, hok, hway, (append_nil _).symm, ?_,
          stop_compressed hc l (c :: cs) t ?_ (cons_ne_nil _ _) hstop⟩
        · rw [htake, nil_append, take_append_drop]
        · apply ne_nil_of_length_pos
          omega
      next hgo =>
        have hfull : commonLen l (c :: cs) = l.length := by omega
        obtain ⟨ht, hway'⟩ := allWay_cons (f := ⟨header, [], l, []⟩) hok hway
        obtain ⟨used, done, hplug, hshape, hall, hpath, hs, hstop⟩ :=
          ih _ (by rw [← hlen, length_drop, length_cons]; omega) t _ _ ht hway' hw rfl
        refine ⟨l ++ used, done, hplug, hshape, hall, ?_, ?_, hstop⟩
        · rw [hpath, path, append_assoc]
        · have hjoin := take_append_drop (commonLen l (c :: cs)) (c :: cs)
          rw [← htake, hfull, take_length] at hjoin
          rw [append_assoc, ← hs, hfull, hjoin]
    | false =>
      rw [raxLowWalk_normal hc] at hw
      split at hw
      next hnone =>
        subst hw
        exact ⟨[], [], rfl, hok, hway, (append_nil _).symm, rfl, .noEdge hc (findEdge_none hnone)⟩
      next left child right hsome =>
        have hedges := findEdge_some hsome
        rw [hedges] at hok
        obtain ⟨hchild, hway'⟩ := allWay_cons (f := ⟨header, left, [c], right⟩) hok hway
        obtain ⟨used, done, hplug, hshape, hall, hpath, hs, hstop⟩ :=
          ih _ (by rw [← hlen]; exact Nat.lt_succ_self _) child cs _ hchild hway' hw rfl
        refine ⟨[c] ++ used, done, ?_, hshape, hall, ?_, ?_, hstop⟩
        · rw [hplug, hedges]
          rfl
        · rw [hpath, path, append_assoc]
        · rw [append_assoc, ← hs]
          rfl

lemma raxLowWalk_head {head : Node V} (hok : Shaped true head) {s rest : Bytes} {h : Node V}
    {way : Way V} (hw : raxLowWalk head s [] = ⟨rest, h, way, j⟩) :
    ∃ done, plug h way = head ∧ Shaped way.isEmpty h ∧ AllWay NodeOk way ∧
    s = path way ++ (done ++ rest) ∧ Stop h done j rest := by
  obtain ⟨used, done, hplug, hshape, hway, hpath, hs, hstop⟩ :=
    raxLowWalk_spec head s [] hok trivial hw
  refine ⟨done, hplug, hshape, hway, ?_, hstop⟩
  rw [hs, hpath]
  rfl

/-- The tests after a walk: is this the node of the string? -/
lemma Stop.done_eq_nil {h : Node V} {done : Bytes} (hstop : Stop h done j [])
    (hj : h.info.iscompr = false ∨ j = 0) : done = [] := by
  cases hstop with
  | atNode => rfl
  | inside hcompr hdone =>
    rcases hj with hj | hj
    · rw [Tree.info, hcompr] at hj
      cases hj
    · exact absurd (length_eq_zero_iff.mp hj) hdone

end Dice.Ports.RadixTreeWalk
