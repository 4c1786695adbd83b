import Dice.Verified.ByteOrder
import Dice.Verified.PrefixTree

/-!
# The radix tree

A map from byte strings to pointers, as a tree of nodes.  A normal node has an
edge for each byte that can follow; a compressed node has one edge with a
string of at least two bytes.  Every node may be a key, with a pointer as its
value; a NULL pointer is only noted in the header.

A node is the only reference to the nodes below it: what the code reads through
a parent link or from the stack of parents is the way from a node to the head.
Allocation does not fail; a failed assertion is `none`.
-/

namespace Dice.Ports.RadixTree

open Verified CString PrefixTree

variable {V : Type}

/-- `RAX_NODE_MAX_SIZE`. -/
def raxNodeMaxSize : Nat := 2 ^ 29 - 1

/-- The header of `raxNode`, and the value pointer behind the children. -/
structure Header (V : Type) where
  iskey : Bool
  isnull : Bool
  iscompr : Bool
  slot : Option V

/-- `raxNode`.  The data of a compressed node is the label of its edge; in a normal node
each edge is labelled with one of the bytes of the data. -/
abbrev Node (V : Type) := Tree UInt8 (Header V)

/-- The way from a node to the head: the parents, and which of their children it uses. -/
abbrev Way (V : Type) := List (Frame UInt8 (Header V))

/-- `rax`. -/
structure Rax (V : Type) where
  head : Node V
  numele : Nat
  numnodes : Nat

/-- `raxNewNode`. -/
def newHeader : Header V := ⟨false, false, false, none⟩

def raxNewNode : Node V := .node newHeader []

def raxNew : Rax V := ⟨raxNewNode, 0, 1⟩

/-- `n->size`. -/
def size (n : Node V) : Nat :=
  if n.info.iscompr then (n.edges.flatMap Prod.fst).length else n.edges.length

/-- `raxSetData`; `none` is the NULL pointer. -/
def raxSetData (header : Header V) : Option V → Header V
  | some data => { header with iskey := true, isnull := false, slot := some data }
  | none => { header with iskey := true, isnull := true }

def raxGetData (header : Header V) : Option V :=
  if header.isnull then none else header.slot

/-- A header gets the key of another one. -/
def moveData (old header : Header V) : Header V :=
  if old.iskey then raxSetData header (raxGetData old) else header

/-- Is a node with that many edges a key, or does it not have exactly one child? -/
def endsChain (header : Header V) (edges : Nat) : Bool :=
  header.iskey || (!header.iscompr && edges != 1)

/-- `raxAddChild`: the new edge is in front of the first one with a greater byte. -/
def insertEdge (c : UInt8) (child : Node V) : List (Bytes × Node V) → List (Bytes × Node V)
  | [] => [([c], child)]
  | (l, t) :: edges =>
    if [c] < l then ([c], child) :: (l, t) :: edges else (l, t) :: insertEdge c child edges

def raxAddChild (n : Node V) (c : UInt8) (child : Node V) : Option (Node V) :=
  if n.info.iscompr then none else some (.node n.info (insertEdge c child n.edges))

def raxCompressNode (n : Node V) (s : Bytes) (child : Node V) : Option (Node V) :=
  if size n = 0 ∧ n.info.iscompr = false then
    some (.node (moveData n.info { n.info with iscompr := true }) [(s, child)])
  else none

/-- The edge with a byte, with the edges before and behind it. -/
def findEdge (c : UInt8) : List (Bytes × Node V) →
    Option (List (Bytes × Node V) × Node V × List (Bytes × Node V))
  | [] => none
  | (l, t) :: edges =>
    if l = [c] then some ([], t, edges)
    else (findEdge c edges).map fun (left, child, right) => ((l, t) :: left, child, right)

/-- As many bytes as two strings have in common. -/
def commonLen : Bytes → Bytes → Nat
  | x :: xs, y :: ys => if x = y then commonLen xs ys + 1 else 0
  | _, _ => 0

/-- Where `raxLowWalk` stops: what is left of the string, the node, the way to it and
`splitpos`. -/
structure Walk (V : Type) where
  rest : Bytes
  stopnode : Node V
  way : Way V
  splitpos : Nat

def raxLowWalk (h : Node V) (s : Bytes) (way : Way V) : Walk V :=
  match h.edges, s with
  | [], s => ⟨s, h, way, 0⟩
  | _ :: _, [] => ⟨[], h, way, 0⟩
  | (l, t) :: edges, c :: cs =>
    if h.info.iscompr then
      let j := commonLen l (c :: cs)
      if j ≠ l.length ∨ j = 0 then ⟨(c :: cs).drop j, h, way, j⟩
      else raxLowWalk t ((c :: cs).drop j) (⟨h.info, [], l, edges⟩ :: way)
    else
      match findEdge c ((l, t) :: edges) with
      | none => ⟨c :: cs, h, way, 0⟩
      | some (left, child, right) => raxLowWalk child cs (⟨h.info, left, [c], right⟩ :: way)
termination_by s.length
decreasing_by
  · simp only [List.length_drop, List.length_cons]
    omega
  · simp

/-- The end of `raxGenericInsert`: nodes for what is left of the string.  Returns the
node in place of `h`, the number of new nodes and of new elements. -/
def addNodes (data : Option V) (h : Node V) (s : Bytes) : Option (Node V × Nat × Nat) :=
  match s with
  | [] => some (.node (raxSetData h.info data) h.edges, 0, if h.info.iskey then 0 else 1)
  | c :: cs =>
    if size h = 0 ∧ (c :: cs).length > 1 then do
      let comprsize := min (c :: cs).length raxNodeMaxSize
      let (child, nodes, elements) ← addNodes data raxNewNode ((c :: cs).drop comprsize)
      let h ← raxCompressNode h ((c :: cs).take comprsize) child
      some (h, nodes + 1, elements)
    else do
      let (child, nodes, elements) ← addNodes data raxNewNode cs
      let h ← raxAddChild h c child
      some (h, nodes + 1, elements)
termination_by s.length
decreasing_by
  · have : 0 < raxNodeMaxSize := by decide
    simp only [List.length_drop]
    omega
  · simp

/-- A node with one child: it is compressed if there is more than one byte. -/
def chainNode (header : Header V) (s : Bytes) (child : Node V) : Node V :=
  .node { header with iscompr := s.length > 1 } [(s, child)]

/-- The postfix node of the first algorithm, if one is needed. -/
def tailNode (s : Bytes) (next : Node V) : Node V :=
  if s ≠ [] then chainNode newHeader s next else next

/-- The header of the trimmed node in the first algorithm. -/
def trimHeader (old : Header V) : Header V :=
  let header := { newHeader with iskey := old.iskey, isnull := old.isnull }
  if old.iskey ∧ ¬ old.isnull then raxSetData header (raxGetData old) else header

/-- `ALGO 1`: the string differs from a compressed node at `j`. -/
def splitMismatch (header : Header V) (l : Bytes) (next : Node V) (j : Nat) (rest : Bytes)
    (data : Option V) : Option (Node V × Nat × Nat) := do
  let c ← l[j]?
  let tail := l.drop (j + 1)
  let splitnode :=
    .node (if j = 0 then moveData header newHeader else newHeader) [([c], tailNode tail next)]
  let (grown, nodes, elements) ← addNodes data splitnode rest
  let nodes := nodes + if tail ≠ [] then 1 else 0
  if j = 0 then some (grown, nodes, elements)
  else some (chainNode (trimHeader header) (l.take j) grown, nodes + 1, elements)

/-- `ALGO 2`: the string ends inside a compressed node, at `j`. -/
def splitInside (header : Header V) (l : Bytes) (next : Node V) (j : Nat) (data : Option V) :
    Node V :=
  chainNode (moveData header newHeader) (l.take j)
    (chainNode (raxSetData newHeader data) (l.drop j) next)

/-- The key is new and not the key of an existing node.  Returns the node in place of
`h`, the number of new nodes and of new elements. -/
def growNode (h : Node V) (j : Nat) (rest : Bytes) (data : Option V) :
    Option (Node V × Nat × Nat) :=
  if h.info.iscompr ∧ rest ≠ [] then
    match h.edges with
    | (l, next) :: _ => splitMismatch h.info l next j rest data
    | [] => none
  else if h.info.iscompr then
    match h.edges with
    | (l, next) :: _ => some (splitInside h.info l next j data, 1, 1)
    | [] => none
  else addNodes data h rest

/-- What an operation returns: its return value, and what it wrote to `old`. -/
structure Reply (V : Type) where
  ret : Bool
  old : Option (Option V)

def raxGenericInsert (rax : Rax V) (s : Bytes) (data : Option V) (overwrite : Bool) :
    Option (Rax V × Reply V) :=
  let ⟨rest, h, way, j⟩ := raxLowWalk rax.head s []
  if rest = [] ∧ (!h.info.iscompr ∨ j = 0) then
    if h.info.iskey then
      let header := if overwrite then raxSetData h.info data else h.info
      some ({ rax with head := plug (.node header h.edges) way },
        ⟨false, some (raxGetData h.info)⟩)
    else
      some ({ rax with
        head := plug (.node (raxSetData h.info data) h.edges) way
        numele := rax.numele + 1 }, ⟨true, none⟩)
  else do
    let (n, nodes, elements) ← growNode h j rest data
    some (⟨plug n way, rax.numele + elements, rax.numnodes + nodes⟩, ⟨true, none⟩)

def raxInsert (rax : Rax V) (s : Bytes) (data : Option V) : Option (Rax V × Reply V) :=
  raxGenericInsert rax s data true

def raxTryInsert (rax : Rax V) (s : Bytes) (data : Option V) : Option (Rax V × Reply V) :=
  raxGenericInsert rax s data false

def raxFind (rax : Rax V) (s : Bytes) : Reply V :=
  let ⟨rest, h, _, j⟩ := raxLowWalk rax.head s []
  if rest ≠ [] ∨ (h.info.iscompr ∧ j ≠ 0) ∨ !h.info.iskey then ⟨false, none⟩
  else ⟨true, some (raxGetData h.info)⟩

def raxRemoveChild (f : Frame UInt8 (Header V)) : Node V :=
  if f.info.iscompr then
    .node (moveData f.info { f.info with isnull := false, iscompr := false }) []
  else .node f.info (f.left ++ f.right)

/-- Nodes without children are freed, up to the first one that is a key or has other
children, or up to the head.  Returns where that is and the number of freed nodes. -/
def freeUp (f : Frame UInt8 (Header V)) : Way V → Frame UInt8 (Header V) × Way V × Nat
  | [] => (f, [], 1)
  | g :: way =>
    if endsChain f.info (f.left.length + 1 + f.right.length) then (f, g :: way, 1)
    else
      let (f', way', n) := freeUp g way
      (f', way', n + 1)

/-- The first node of the chain that `h` is in. -/
def chainStart (h : Node V) : Way V → Node V × Way V
  | [] => (h, [])
  | f :: way =>
    if endsChain f.info (f.left.length + 1 + f.right.length) then (h, f :: way)
    else chainStart (f.fill h) way

lemma sizeOf_getLast {h : Node V} {e : Bytes × Node V} (he : h.edges.getLast? = some e) :
    sizeOf e.2 < sizeOf h := by
  obtain ⟨l, t⟩ := e
  cases h with
  | node info edges =>
    have hmem : (l, t) ∈ edges := List.mem_of_getLast? he
    have := List.sizeOf_lt_of_mem hmem
    simp only [Tree.node.sizeOf_spec, Prod.mk.sizeOf_spec] at this ⊢
    omega

/-- The loop that measures the chain: the number of nodes in it. -/
def scanChain (h : Node V) (comprsize : Nat) : Nat :=
  match _he : h.edges.getLast? with
  | none => 1
  | some e =>
    if endsChain e.2.info e.2.edges.length then 1
    else if comprsize + size e.2 > raxNodeMaxSize then 1
    else scanChain e.2 (comprsize + size e.2) + 1
termination_by sizeOf h
decreasing_by exact sizeOf_getLast _he

/-- The loop that collects the chain: its bytes, the node behind it and the number of
freed nodes. -/
def takeChain (h : Node V) (comprsize : Nat) : Bytes × Node V × Nat :=
  match _he : h.edges.getLast? with
  | none => ([], h, 0)
  | some e =>
    let data := h.edges.flatMap Prod.fst
    if endsChain e.2.info e.2.edges.length then (data, e.2, 1)
    else if comprsize + size h + size e.2 > raxNodeMaxSize then (data, e.2, 1)
    else
      let (more, next, n) := takeChain e.2 (comprsize + size h)
      (data ++ more, next, n + 1)
termination_by sizeOf h
decreasing_by exact sizeOf_getLast _he

/-- The part of `raxRemove` that compresses a chain of nodes. -/
def compressChain (rax : Rax V) (h : Node V) (way : Way V) : Rax V :=
  let (start, way) := chainStart h way
  if scanChain start (size start) > 1 then
    let (data, next, n) := takeChain start 0
    { rax with
      head := plug (.node { newHeader with iscompr := true } [(data, next)]) way
      numnodes := rax.numnodes + 1 - n }
  else { rax with head := plug start way }

/-- The node that changed gets its place in the tree. -/
def relink (trycompress : Bool) (rax : Rax V) (h : Node V) (way : Way V) : Rax V :=
  if trycompress then compressChain rax h way else { rax with head := plug h way }

/-- The part of `raxRemove` behind the node's key: a node without children is freed. -/
def removeNode (rax : Rax V) (h : Node V) (way : Way V) : Rax V :=
  if size h = 0 then
    match way with
    | [] => { rax with head := h }
    | f :: way =>
      let (f, way, n) := freeUp f way
      let new := raxRemoveChild f
      relink (size new == 1 && !new.info.iskey) { rax with numnodes := rax.numnodes - n } new way
  else relink (size h == 1) rax h way

def raxRemove (rax : Rax V) (s : Bytes) : Rax V × Reply V :=
  let ⟨rest, h, way, j⟩ := raxLowWalk rax.head s []
  if rest ≠ [] ∨ (h.info.iscompr ∧ j ≠ 0) ∨ !h.info.iskey then (rax, ⟨false, none⟩)
  else
    (removeNode { rax with numele := rax.numele - 1 }
      (.node { h.info with iskey := false } h.edges) way, ⟨true, some (raxGetData h.info)⟩)

end Dice.Ports.RadixTree
