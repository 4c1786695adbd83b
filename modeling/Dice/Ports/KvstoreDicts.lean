import Dice.Ports.DictTable

/-!
# The key-value store

`kvstore` is an array of dicts, one for each slot of a cluster or a single
one.  It counts what the dicts hold: all keys, the keys up to a dict in a
binary indexed tree, the dicts that have keys and the dicts that exist.  The
counters are adjusted by each operation.  Not modelled are the fields for memory
accounting and the list of dicts that are rehashing.
-/

namespace Dice.Ports.KvstoreDicts

open DictTable

/-- `kvstore`.  The arrays are given by their elements; of `flags` only
`KVSTORE_FREE_EMPTY_DICTS` is read after the creation. -/
structure Kvstore (K V : Type) where
  freeEmptyDicts : Bool
  dicts : Nat → Option (Dict K V)
  numDictsBits : Nat
  allocatedDicts : Int
  nonEmptyDicts : Int
  keyCount : Int
  dictSizeIndex : Nat → Int

variable {K V : Type} (type : DictType K) (policy : Policy) (kvs : Kvstore K V)

def Kvstore.numDicts : Nat := 2 ^ kvs.numDictsBits

def Kvstore.setDict (didx : Nat) (d : Option (Dict K V)) : Kvstore K V :=
  { kvs with dicts := fun j => if j = didx then d else kvs.dicts j }

def kvstoreDictSize (didx : Nat) : Nat :=
  match kvs.dicts didx with
  | none => 0
  | some d => d.size

def kvstoreSize : Int :=
  if kvs.numDicts ≠ 1 then kvs.keyCount else kvstoreDictSize kvs 0

/-- `idx & -idx` for an `int`. -/
def lowestBit (idx : Nat) : Nat := (BitVec.ofNat 32 idx &&& -BitVec.ofNat 32 idx).toNat

/-- The loop of `cumulativeKeyCountRead`. -/
def readLoop (index : Nat → Int) : Nat → Nat → Int → Option Int
  | 0, idx, sum => if idx > 0 then none else some sum
  | fuel + 1, idx, sum =>
    if idx > 0 then readLoop index fuel (idx - lowestBit idx) (sum + index idx)
    else some sum

def cumulativeKeyCountRead (didx : Nat) : Option Int :=
  if kvs.numDicts = 1 then
    if didx = 0 then some (kvstoreSize kvs) else none
  else readLoop kvs.dictSizeIndex (didx + 1) (didx + 1) 0

/-- The loop of `cumulativeKeyCountAdd`. -/
def addLoop (numDicts : Nat) (delta : Int) : Nat → Nat → (Nat → Int) → Option (Nat → Int)
  | 0, idx, index => if idx ≤ numDicts then none else some index
  | fuel + 1, idx, index =>
    if idx ≤ numDicts then
      if delta < 0 ∧ index idx < -delta then none
      else addLoop numDicts delta fuel (idx + lowestBit idx)
        (fun i => if i = idx then index idx + delta else index i)
    else some index

def cumulativeKeyCountAdd (didx : Nat) (delta : Int) : Option (Kvstore K V) := do
  let d ← kvs.dicts didx
  let nonEmptyDictsDelta : Int := if d.size = 1 then 1 else if d.size = 0 then -1 else 0
  let kvs := { kvs with
    keyCount := kvs.keyCount + delta
    nonEmptyDicts := kvs.nonEmptyDicts + nonEmptyDictsDelta }
  if kvs.numDicts = 1 then some kvs
  else
    let index ← addLoop kvs.numDicts delta kvs.numDicts (didx + 1) kvs.dictSizeIndex
    some { kvs with dictSizeIndex := index }

def createDictIfNeeded (didx : Nat) : Dict K V × Kvstore K V :=
  match kvs.dicts didx with
  | some d => (d, kvs)
  | none =>
    (dictCreate, { kvs.setDict didx (some dictCreate) with
      allocatedDicts := kvs.allocatedDicts + 1 })

def freeDictIfNeeded (didx : Nat) : Kvstore K V :=
  match kvs.dicts didx with
  | none => kvs
  | some d =>
    if !kvs.freeEmptyDicts || kvstoreDictSize kvs didx ≠ 0 || d.pauserehash > 0 then kvs
    else { kvs.setDict didx none with allocatedDicts := kvs.allocatedDicts - 1 }

def kvstoreCreate (numDictsBits : Nat) (allocateOnDemand freeEmptyDicts : Bool) :
    Option (Kvstore K V) :=
  if numDictsBits > 16 then none
  else
    let kvs : Kvstore K V := ⟨freeEmptyDicts, fun _ => none, numDictsBits, 0, 0, 0, fun _ => 0⟩
    if allocateOnDemand then some kvs
    else some ((List.range kvs.numDicts).foldl (fun kvs i => (createDictIfNeeded kvs i).2) kvs)

/-- What `kvstoreEmpty` does with one dict. -/
def emptyDict (didx : Nat) : Kvstore K V :=
  match kvs.dicts didx with
  | none => kvs
  | some d => freeDictIfNeeded (kvs.setDict didx (some (dictEmpty d))) didx

def kvstoreEmpty : Kvstore K V :=
  { (List.range kvs.numDicts).foldl emptyDict kvs with
    keyCount := 0, nonEmptyDicts := 0, dictSizeIndex := fun _ => 0 }

/-- What `kvstoreDictDelete` and `kvstoreDictTwoPhaseUnlinkFree` do after an
entry is gone. -/
def entryRemoved (didx : Nat) : Option (Kvstore K V) := do
  let kvs ← cumulativeKeyCountAdd kvs didx (-1)
  some (freeDictIfNeeded kvs didx)

variable [DecidableEq K]

/-- `kvstoreDictAddRaw`; the result says whether the key was added. -/
def kvstoreDictAddRaw (didx : Nat) (key : K) (val : V) : Option (Bool × Kvstore K V) := do
  let (d, kvs) := createDictIfNeeded kvs didx
  let (existing, d) ← dictAddRaw type policy d key val
  let kvs := kvs.setDict didx (some d)
  match existing with
  | some _ => some (false, kvs)
  | none =>
    let kvs ← cumulativeKeyCountAdd kvs didx 1
    some (true, kvs)

def kvstoreDictDelete (didx : Nat) (key : K) : Option (Bool × Kvstore K V) :=
  match kvs.dicts didx with
  | none => some (false, kvs)
  | some d => do
      let (ok, d) ← dictDelete type policy d key
      let kvs := kvs.setDict didx (some d)
      if ok then
        let kvs ← entryRemoved kvs didx
        some (true, kvs)
      else some (false, kvs)

/-- `kvstoreDictTwoPhaseUnlinkFind`, lookups of the caller in the same dict, and
`kvstoreDictTwoPhaseUnlinkFree` if the key was found. -/
def kvstoreDictTwoPhaseUnlink (didx : Nat) (key : K) (between : List (Policy × K))
    (atFree : Policy) : Option (Bool × Kvstore K V) :=
  match kvs.dicts didx with
  | none => some (false, kvs)
  | some d => do
      let ((he, _), d) ← dictTwoPhaseUnlink type policy d key between atFree
      let kvs := kvs.setDict didx (some d)
      if he.isSome then
        let kvs ← entryRemoved kvs didx
        some (true, kvs)
      else some (false, kvs)

def kvstoreDictFind (didx : Nat) (key : K) : Option (Option (K × V) × Kvstore K V) :=
  match kvs.dicts didx with
  | none => some (none, kvs)
  | some d => do
      let (he, d) ← dictFind type policy d key
      some (he, kvs.setDict didx (some d))

def kvstoreDictExpand (didx : Nat) (size : Nat) : Option (Kvstore K V) :=
  if size = 0 then some kvs
  else do
    let (d, kvs) := createDictIfNeeded kvs didx
    let (_, d) ← dictExpand type policy d size
    some (kvs.setDict didx (some d))

/-- `dictRehash` on one of the dicts, as the background jobs call it. -/
def kvstoreDictRehash (didx : Nat) (n : Nat) : Option (Kvstore K V) :=
  match kvs.dicts didx with
  | none => some kvs
  | some d => do
      let (_, d) ← dictRehash type policy d n
      some (kvs.setDict didx (some d))

/-- A call; `release` is the end of an iteration over a dict, which frees it if
it is empty. -/
inductive StoreOp (K V : Type)
  | addRaw (key : K) (val : V)
  | delete (key : K)
  | twoPhaseUnlink (key : K) (between : List (Policy × K)) (atFree : Policy)
  | find (key : K)
  | expand (size : Nat)
  | rehash (n : Nat)
  | release

/-- A call on one dict, or `kvstoreEmpty`. -/
inductive Event (bits : Nat) (K V : Type)
  | onDict (didx : Fin (2 ^ bits)) (policy : Policy) (op : StoreOp K V)
  | empty

def onDict (didx : Nat) : StoreOp K V → Option (Kvstore K V)
  | .addRaw key val => (kvstoreDictAddRaw type policy kvs didx key val).map Prod.snd
  | .delete key => (kvstoreDictDelete type policy kvs didx key).map Prod.snd
  | .twoPhaseUnlink key between atFree =>
    (kvstoreDictTwoPhaseUnlink type policy kvs didx key between atFree).map Prod.snd
  | .find key => (kvstoreDictFind type policy kvs didx key).map Prod.snd
  | .expand size => kvstoreDictExpand type policy kvs didx size
  | .rehash n => kvstoreDictRehash type policy kvs didx n
  | .release => some (freeDictIfNeeded kvs didx)

def storeStep {bits : Nat} (type : DictType K) (kvs : Kvstore K V) :
    Event bits K V → Option (Kvstore K V)
  | .onDict didx policy op => onDict type policy kvs didx op
  | .empty => some (kvstoreEmpty kvs)

end Dice.Ports.KvstoreDicts
