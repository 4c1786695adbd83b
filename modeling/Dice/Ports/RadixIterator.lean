import Dice.Ports.RadixTree
import Dice.Verified.ArrayStack

/-!
# The iterator of the radix tree

An iterator has the string of the node it stands at and the stack of the nodes
above it.  The next key is the first one below the node, or else below the next
child of the nearest node above that has one; the previous key is found the
other way round.  A seek walks to the string first and goes on as the iteration
does.

The stack is empty exactly at the head.  A read outside of a buffer, a pop from
the empty stack and a failed assertion are `none`.  A turn of a loop enters or
leaves one node, so that a loop has ended after twice as many turns as there are
nodes.
-/

namespace Dice.Ports.RadixIterator

open Verified CString PrefixTree ArrayStack RadixTree

variable {V : Type}

/-- `raxIterator`. -/
structure Iterator (V : Type) where
  rt : Rax V
  eof : Bool
  justSeeked : Bool
  key : Stack UInt8
  data : Option V
  node : Option (Node V)
  stack : Stack (Node V)

variable (it : Iterator V)

/-- To a child: the node goes onto the stack and the label to the key. -/
def enter (node : Node V) (e : Bytes × Node V) : Iterator V :=
  { it with stack := it.stack.push [node], key := it.key.push e.1, node := some e.2 }

/-- `it->node = raxStackPop(&it->stack)`. -/
def popNode : Option (Iterator V) := do
  let node ← it.stack.used.getLast?
  let stack ← it.stack.drop 1
  some { it with stack := stack, node := some node }

/-- To the parent, unless `noup` is set.  Also returns the byte that led to the node. -/
def climb (noup : Bool) : Option (UInt8 × Iterator V) := do
  let prevchild ← it.key.used.getLast?
  let it ← if noup then some it else popNode it
  let node ← it.node
  let key ← it.key.drop (if node.info.iscompr then size node else 1)
  some (prevchild, { it with key := key })

/-- May there be another child to visit? -/
def mayScan (node : Node V) (noup : Bool) : Bool :=
  !node.info.iscompr && decide (size node > if noup then 0 else 1)

/-- The end is reached, with the saved node, key length and number of items. -/
def endAt (orig it : Iterator V) : Iterator V :=
  { it with
    eof := true
    stack := it.stack.resize orig.stack.used.length
    key := it.key.resize orig.key.used.length
    node := orig.node }

/-- The loops of `raxIteratorNextStep`; `up` tells that the inner one is running. -/
def nextLoop : Nat → Iterator V → Iterator V → Bool → Bool → Option (Iterator V)
  | 0, _, _, _, _ => none
  | fuel + 1, orig, it, noup, up => do
      let node ← it.node
      match if noup || up then none else node.edges.head? with
      | some e =>
        if e.2.info.iskey then some { enter it node e with data := raxGetData e.2.info }
        else nextLoop fuel orig (enter it node e) false false
      | none =>
        if !noup && it.stack.used.isEmpty then some (endAt orig it)
        else do
          let (prevchild, it) ← climb it noup
          let node ← it.node
          match if mayScan node noup then node.edges.find? fun e => [prevchild] < e.1
            else none with
          | some e =>
            if e.2.info.iskey then some { enter it node e with data := raxGetData e.2.info }
            else nextLoop fuel orig (enter it node e) false false
          | none => nextLoop fuel orig it false true

def raxSeekGreatest (node : Node V) (it : Iterator V) : Iterator V :=
  match _he : node.edges.getLast? with
  | none => it
  | some e => raxSeekGreatest e.2 (enter it node e)
termination_by sizeOf node
decreasing_by exact sizeOf_getLast _he

/-- The loop of `raxIteratorPrevStep`. -/
def prevLoop : Nat → Iterator V → Iterator V → Bool → Option (Iterator V)
  | 0, _, _, _ => none
  | fuel + 1, orig, it, noup =>
    if !noup && it.stack.used.isEmpty then some (endAt orig it)
    else do
      let (prevchild, it) ← climb it noup
      let node ← it.node
      let it :=
        match if mayScan node noup then node.edges.reverse.find? fun e => e.1 < [prevchild]
          else none with
        | some e => raxSeekGreatest e.2 (enter it node e)
        | none => it
      let node ← it.node
      if node.info.iskey then some { it with data := raxGetData node.info }
      else prevLoop fuel orig it false

/-- The turns that a loop can take. -/
def turns : Nat := 2 * it.rt.numnodes + 2

def raxIteratorNextStep (noup : Bool) : Option (Iterator V) :=
  if it.eof then some it
  else if it.justSeeked then some { it with justSeeked := false }
  else nextLoop (turns it) it it noup false

def raxIteratorPrevStep (noup : Bool) : Option (Iterator V) :=
  if it.eof then some it
  else if it.justSeeked then some { it with justSeeked := false }
  else prevLoop (turns it) it it noup

/-- The operators of `raxSeek`. -/
inductive Op
  | lt | le | eq | ge | gt | first | last
deriving DecidableEq

/-- The beginning of `raxSeek`. -/
def reset : Iterator V :=
  { it with
    stack := it.stack.resize 0
    justSeeked := true
    eof := false
    key := it.key.resize 0
    node := none }

/-- The nodes that `raxLowWalk` puts on the stack, the head first. -/
def parents (n : Node V) : Way V → List (Node V)
  | [] => []
  | f :: way => parents (f.fill n) way ++ [f.fill n]

/-- One step in the direction of the seek, with the flag cleared before and set after. -/
def stepFor (gt : Bool) (it : Iterator V) (noup : Bool) : Option (Iterator V) :=
  (if gt then raxIteratorNextStep { it with justSeeked := false } noup
    else raxIteratorPrevStep { it with justSeeked := false } noup).map
    fun it => { it with justSeeked := true }

/-- The key is not in the tree, or not wanted: the part of `raxSeek` for `lt` or `gt`.
`rest` is what is left of the string, and `it` stands at the node where the walk stopped. -/
def seekBeside (gt : Bool) (it : Iterator V) (node : Node V) (splitpos : Nat) :
    Bytes → Option (Iterator V)
  | keychar :: _ =>
    if !node.info.iscompr then
      stepFor gt { it with key := it.key.push [keychar] } true
    else do
      let data := node.edges.flatMap Prod.fst
      let nodechar ← data[splitpos]?
      if gt then
        if nodechar > keychar then stepFor true it false
        else stepFor true { it with key := it.key.push data } true
      else
        if nodechar < keychar then do
          let it := raxSeekGreatest node it
          let greatest ← it.node
          some { it with data := raxGetData greatest.info }
        else stepFor false { it with key := it.key.push data } true
  | [] =>
    if node.info.iscompr && node.info.iskey && splitpos != 0 && !gt then
      some { it with data := raxGetData node.info }
    else stepFor gt it false

/-- The part of `raxSeek` that looks a string up; the operator is given by its flags. -/
def seekKey (lt gt eq : Bool) (ele : Bytes) : Option (Iterator V) :=
  let ⟨rest, node, way, splitpos⟩ := raxLowWalk it.rt.head ele []
  let it := { it with node := some node, stack := it.stack.push (parents node way) }
  if eq && rest.isEmpty && (!node.info.iscompr || splitpos == 0) && node.info.iskey then
    some { it with key := it.key.push ele, data := raxGetData node.info }
  else if lt || gt then
    let i := ele.length - rest.length
    seekBeside gt { it with key := it.key.push (ele.take (i - splitpos)) } node splitpos rest
  else some { it with eof := true }

/-- The part of `raxSeek` for a tree that is not empty. -/
def seekOp (ele : Bytes) : Op → Option (Iterator V)
  | .lt => seekKey it true false false ele
  | .le => seekKey it true false true ele
  | .eq => seekKey it false false true ele
  | .ge => seekKey it false true true ele
  | .gt => seekKey it false true false ele
  | .first => seekKey (reset it) false true true []
  | .last => do
      let it := raxSeekGreatest it.rt.head { it with node := some it.rt.head }
      let node ← it.node
      if node.info.iskey then some { it with data := raxGetData node.info } else none

def raxSeek (op : Op) (ele : Bytes) : Option (Iterator V) :=
  if it.rt.numele = 0 then some { reset it with eof := true } else seekOp (reset it) ele op

/-- What `raxNext` and `raxPrev` return, with the key and the data if that is 1. -/
def outcome : Option (Bytes × Option V) :=
  if it.eof then none else some (it.key.used, it.data)

def raxNext : Option (Iterator V × Option (Bytes × Option V)) :=
  (raxIteratorNextStep it false).map fun it => (it, outcome it)

def raxPrev : Option (Iterator V × Option (Bytes × Option V)) :=
  (raxIteratorPrevStep it false).map fun it => (it, outcome it)

end Dice.Ports.RadixIterator
