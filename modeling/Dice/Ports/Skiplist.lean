import Dice.Verified.ByteOrder
import Dice.Verified.Towers
import Mathlib.Order.Lattice

/-!
# Skiplists

The skiplist of a sorted set: nodes with a score and an element, ordered by
both, that are linked on a random number of levels.  A link also has the number
of nodes it passes over, its span.

Nodes refer to each other by pointers.  Reading through a pointer that does not
lead to a node, or a level that the node does not have, and a failed assertion
are `none`.  Scores are any linear order; only the header, whose score and
element are not read, needs one of them.
-/

namespace Dice.Ports.Skiplist

open Function Verified CString ByteOrder Towers

/-- `ZSKIPLIST_MAXLEVEL`. -/
def zskiplistMaxlevel : Nat := 32

def sdscmp (s₁ s₂ : Bytes) : Int := compareBytes s₁ s₂

abbrev Ptr := Nat

/-- `zskiplistNode`. -/
structure Node (S : Type) where
  ele : Bytes
  score : S
  backward : Option Ptr
  level : List (Link Ptr)

/-- `zskiplist`, with the memory its nodes are in; `fresh` is the next pointer to
be handed out. -/
structure Zskiplist (S : Type) where
  nodes : Ptr → Option (Node S)
  header : Ptr
  tail : Option Ptr
  length : Nat
  level : Nat
  fresh : Ptr

variable {S : Type}

variable (zsl : Zskiplist S)

/-- `p->level[i]`. -/
def Zskiplist.getLevel (p : Ptr) (i : Nat) : Option (Link Ptr) := do
  let n ← zsl.nodes p
  n.level[i]?

/-- Assigns `p->level[i]`. -/
def Zskiplist.setLevel (p : Ptr) (i : Nat) (l : Link Ptr) : Option (Zskiplist S) := do
  let n ← zsl.nodes p
  if i < n.level.length then
    some { zsl with nodes := update zsl.nodes p
                      (some { n with level := n.level.set i l }) }
  else none

/-- Assigns `p->backward`. -/
def Zskiplist.setBackward (p : Ptr) (b : Option Ptr) : Option (Zskiplist S) := do
  let n ← zsl.nodes p
  some { zsl with nodes := update zsl.nodes p (some { n with backward := b }) }

/-- Assigns `p->score`. -/
def Zskiplist.setScore (p : Ptr) (score : S) : Option (Zskiplist S) := do
  let n ← zsl.nodes p
  some { zsl with nodes := update zsl.nodes p (some { n with score := score }) }

/-- The node behind an edited place gets another backward pointer; if there is none,
the tail changes. -/
def Zskiplist.setBehind (next b : Option Ptr) : Option (Zskiplist S) :=
  match next with
  | some y => zsl.setBackward y b
  | none => some { zsl with tail := b }

/-- `zslCreateNode`.  The levels are not set; none of them is read before. -/
def zslCreateNode (level : Nat) (score : S) (ele : Bytes) : Ptr × Zskiplist S :=
  (zsl.fresh,
    { zsl with
      nodes := update zsl.nodes zsl.fresh
        (some ⟨ele, score, none, List.replicate level ⟨none, 0⟩⟩)
      fresh := zsl.fresh + 1 })

def zslFreeNode (p : Ptr) : Zskiplist S := { zsl with nodes := update zsl.nodes p none }

def zslCreate (zero : S) : Zskiplist S where
  nodes := fun p =>
    if p = 0 then some ⟨[], zero, none, List.replicate zskiplistMaxlevel ⟨none, 0⟩⟩ else none
  header := 0
  tail := none
  length := 0
  level := 1
  fresh := 1

/-- The inner loop of every search, on level `i`: go forward while the next node
is `before` the place that is searched.  Its rank is known from the spans. -/
def walkLevel (zsl : Zskiplist S) (before : Nat → Node S → Bool) (i : Nat) :
    Nat → Ptr → Nat → Option (Ptr × Nat)
  | 0, _, _ => none
  | fuel + 1, x, rank => do
      let l ← zsl.getLevel x i
      match l.forward with
      | none => some (x, rank)
      | some y => do
          let n ← zsl.nodes y
          if before (rank + l.span) n then walkLevel zsl before i fuel y (rank + l.span)
          else some (x, rank)

/-- The outer loop: `update[i]` and `rank[i]` for the levels below `m`. -/
def searchFrom (zsl : Zskiplist S) (before : Nat → Node S → Bool) :
    Nat → Ptr → Nat → Option (List (Ptr × Nat))
  | 0, _, _ => some []
  | i + 1, x, rank => do
      let (x, rank) ← walkLevel zsl before i (zsl.length + 1) x rank
      let update ← searchFrom zsl before i x rank
      some (update ++ [(x, rank)])

def search (before : Nat → Node S → Bool) : Option (List (Ptr × Nat)) :=
  searchFrom zsl before zsl.level zsl.header 0

/-- The node behind the place that was found. -/
def found (update : List (Ptr × Nat)) : Option (Option Ptr) := do
  let (x, _) ← update[0]?
  let l ← zsl.getLevel x 0
  some l.forward

section Order

variable [LinearOrder S] (zsl : Zskiplist S)

/-- The nodes before a score and an element. -/
def precedes (score : S) (ele : Bytes) (_ : Nat) (n : Node S) : Bool :=
  n.score < score || (n.score = score && sdscmp n.ele ele < 0)

end Order

/-- A level above the highest one so far leads from the header to the end. -/
def openLevel (i : Nat) : Option (Zskiplist S) := do
  let l ← zsl.getLevel zsl.header i
  zsl.setLevel zsl.header i { l with span := zsl.length }

def raiseLevels (level : Nat) : Option (Zskiplist S) :=
  if level > zsl.level then do
    let zsl ← (List.range' zsl.level (level - zsl.level)).foldlM openLevel zsl
    some { zsl with level := level }
  else some zsl

/-- `zslInsert` links the new node on level `i`. -/
def linkLevel (x : Ptr) (update : List (Ptr × Nat)) (zsl : Zskiplist S) (i : Nat) :
    Option (Zskiplist S) := do
  let (_, rank₀) ← update[0]?
  let (u, rank) ← update[i]?
  let l ← zsl.getLevel u i
  let zsl ← zsl.setLevel x i ⟨l.forward, l.span - (rank₀ - rank)⟩
  zsl.setLevel u i ⟨some x, rank₀ - rank + 1⟩

/-- A level that the new node does not reach. -/
def widenLevel (update : List (Ptr × Nat)) (zsl : Zskiplist S) (i : Nat) :
    Option (Zskiplist S) := do
  let (u, _) ← update[i]?
  let l ← zsl.getLevel u i
  zsl.setLevel u i { l with span := l.span + 1 }

/-- The backward pointers in `zslInsert`. -/
def linkBackward (x u : Ptr) : Option (Zskiplist S) := do
  let zsl ← zsl.setBackward x (if u = zsl.header then none else some u)
  let l ← zsl.getLevel x 0
  zsl.setBehind l.forward (some x)

variable [LinearOrder S] (zsl : Zskiplist S)

/-- `zslInsert`; `level` is what `zslRandomLevel` returned. -/
def zslInsert (score : S) (ele : Bytes) (level : Nat) : Option (Zskiplist S × Ptr) := do
  let update ← search zsl (precedes score ele)
  let update := update ++ List.replicate (level - zsl.level) (zsl.header, 0)
  let zsl ← raiseLevels zsl level
  let (x, zsl) := zslCreateNode zsl level score ele
  let zsl ← (List.range level).foldlM (linkLevel x update) zsl
  let zsl ← (List.range' level (zsl.level - level)).foldlM (widenLevel update) zsl
  let (u, _) ← update[0]?
  let zsl ← linkBackward zsl x u
  some ({ zsl with length := zsl.length + 1 }, x)

omit [LinearOrder S] in
/-- `zslDeleteNode` on level `i`. -/
def unlinkLevel (x : Ptr) (update : List (Ptr × Nat)) (zsl : Zskiplist S) (i : Nat) :
    Option (Zskiplist S) := do
  let (u, _) ← update[i]?
  let l ← zsl.getLevel u i
  if l.forward = some x then
    let lx ← zsl.getLevel x i
    zsl.setLevel u i ⟨lx.forward, l.span + lx.span - 1⟩
  else zsl.setLevel u i { l with span := l.span - 1 }

/-- The levels that only the header has are given up. -/
def lowerLevel (zsl : Zskiplist S) : Nat → Option Nat
  | 0 => some 0
  | 1 => some 1
  | level + 2 => do
      let l ← zsl.getLevel zsl.header (level + 1)
      if l.forward = none then lowerLevel zsl (level + 1) else some (level + 2)

def zslDeleteNode (x : Ptr) (update : List (Ptr × Nat)) : Option (Zskiplist S) := do
  let zsl ← (List.range zsl.level).foldlM (unlinkLevel x update) zsl
  let n ← zsl.nodes x
  let l ← zsl.getLevel x 0
  let zsl ← zsl.setBehind l.forward n.backward
  let level ← lowerLevel zsl zsl.level
  some { zsl with level := level, length := zsl.length - 1 }

/-- `zslDelete` with `node` NULL. -/
def zslDelete (score : S) (ele : Bytes) : Option (Zskiplist S × Bool) := do
  let update ← search zsl (precedes score ele)
  match ← found zsl update with
  | none => some (zsl, false)
  | some x => do
      let n ← zsl.nodes x
      if score = n.score ∧ sdscmp n.ele ele = 0 then
        let zsl ← zslDeleteNode zsl x update
        some (zslFreeNode zsl x, true)
      else some (zsl, false)

omit [LinearOrder S] in
/-- There is no neighbour, or its score passes. -/
def Zskiplist.neighbour (p : Option Ptr) (ok : S → Bool) : Option Bool :=
  match p with
  | none => some true
  | some p => (zsl.nodes p).map fun n => ok n.score

/-- Would the node stay where it is? -/
def keepsPlace (n : Node S) (next : Option Ptr) (newscore : S) : Option Bool := do
  let left ← zsl.neighbour n.backward (· < newscore)
  let right ← zsl.neighbour next (· > newscore)
  some (left && right)

/-- `zslUpdateScore`; `level` is the random level if a new node is needed. -/
def zslUpdateScore (curscore : S) (ele : Bytes) (newscore : S) (level : Nat) :
    Option (Zskiplist S × Ptr) := do
  let update ← search zsl (precedes curscore ele)
  let x ← (← found zsl update)
  let n ← zsl.nodes x
  if curscore = n.score ∧ sdscmp n.ele ele = 0 then
    let l ← zsl.getLevel x 0
    if ← keepsPlace zsl n l.forward newscore then
      let zsl ← zsl.setScore x newscore
      some (zsl, x)
    else
      let zsl ← zslDeleteNode zsl x update
      let (zsl, newnode) ← zslInsert zsl newscore n.ele level
      some (zslFreeNode zsl x, newnode)
  else none

/-- `zrangespec`. -/
structure RangeSpec (S : Type) where
  min : S
  max : S
  minex : Bool
  maxex : Bool

def zslValueGteMin (value : S) (spec : RangeSpec S) : Bool :=
  if spec.minex then value > spec.min else value ≥ spec.min

def zslValueLteMax (value : S) (spec : RangeSpec S) : Bool :=
  if spec.maxex then value < spec.max else value ≤ spec.max

/-- A bound of `zlexrangespec`: `shared.minstring`, `shared.maxstring` or a string. -/
inductive LexBound
  | minstring
  | maxstring
  | str (s : Bytes)
  deriving DecidableEq, Repr

/-- `sdscmplex` of a string with a bound. -/
def sdscmplex (value : Bytes) : LexBound → Int
  | .minstring => 1
  | .maxstring => -1
  | .str s => sdscmp value s

/-- `zlexrangespec`. -/
structure LexRangeSpec where
  min : LexBound
  max : LexBound
  minex : Bool
  maxex : Bool

def zslLexValueGteMin (value : Bytes) (spec : LexRangeSpec) : Bool :=
  if spec.minex then sdscmplex value spec.min > 0 else sdscmplex value spec.min ≥ 0

def zslLexValueLteMax (value : Bytes) (spec : LexRangeSpec) : Bool :=
  if spec.maxex then sdscmplex value spec.max < 0 else sdscmplex value spec.max ≤ 0

/-- The loop that deletes nodes while they are `inside`; `traversed` is the rank of
the node.  The elements are deleted from the dict as well. -/
def deleteLoop (update : List (Ptr × Nat)) (inside : Nat → Node S → Bool) :
    Nat → Zskiplist S → Option Ptr → Nat → Option (Zskiplist S × List Bytes)
  | 0, _, _, _ => none
  | _ + 1, zsl, none, _ => some (zsl, [])
  | fuel + 1, zsl, some x, traversed => do
      let n ← zsl.nodes x
      if inside traversed n then
        let l ← zsl.getLevel x 0
        let zsl ← zslDeleteNode zsl x update
        let (zsl, removed) ←
          deleteLoop update inside fuel (zslFreeNode zsl x) l.forward (traversed + 1)
        some (zsl, n.ele :: removed)
      else some (zsl, [])

/-- The nodes from the first one that is not `before` the range are deleted while
they are `inside`. -/
def deleteRange (before inside : Nat → Node S → Bool) : Option (Zskiplist S × List Bytes) := do
  let update ← search zsl before
  let (_, rank) ← update[0]?
  let x ← found zsl update
  deleteLoop update inside (zsl.length + 1) zsl x (rank + 1)

/-- `zslDeleteRangeByScore`, with the elements that are deleted from the dict. -/
def zslDeleteRangeByScore (range : RangeSpec S) : Option (Zskiplist S × List Bytes) :=
  deleteRange zsl (fun _ n => !zslValueGteMin n.score range)
    (fun _ n => zslValueLteMax n.score range)

def zslDeleteRangeByLex (range : LexRangeSpec) : Option (Zskiplist S × List Bytes) :=
  deleteRange zsl (fun _ n => !zslLexValueGteMin n.ele range)
    (fun _ n => zslLexValueLteMax n.ele range)

/-- `zslDeleteRangeByRank`; ranks start at 1. -/
def zslDeleteRangeByRank (start stop : Nat) : Option (Zskiplist S × List Bytes) :=
  deleteRange zsl (fun rank _ => rank < start) (fun rank _ => rank ≤ stop)

end Dice.Ports.Skiplist
