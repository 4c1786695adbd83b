import Mathlib.Algebra.Group.Int.Defs
import Mathlib.Algebra.GroupWithZero.Nat
import Mathlib.Data.Int.Order.Basic

/-!
# The hash table

`dict` keeps its entries in two tables of chains.  Table 0 is the only one in
use until it has to grow or shrink; then table 1 is allocated with the new size,
and the operations that follow move the buckets of table 0 to it a few at a
time, in the order of their index (`rehashidx` is the next) or, when a lookup
finds its bucket still in table 0, that bucket first.

A function that fails an assertion, or reads a bucket that is not there, has
no result.  Memory is never short.
-/

namespace Dice.Ports.DictTable

/-- `dictResizeEnable`. -/
inductive DictResizeEnable
  | enable
  | avoid
  | forbid
  deriving DecidableEq, Repr

/-- What decides about resizing at the time of a call: the setting
`dict_can_resize`, and what the type's `resizeAllowed` answers to the memory
needed, the number of entries and the number of buckets. -/
structure Policy where
  canResize : DictResizeEnable
  resizeAllowed : Option (Nat → Nat → Nat → Bool)

/-- `dictType`.  A key is what `keyCompare` sees of it: keys that compare equal
are one key. -/
structure DictType (K : Type) where
  hashFunction : K → UInt64
  noIncrementalRehash : Bool

/-- One of the two tables; no bucket stands for a null `ht_table`. -/
structure HashTable (K V : Type) where
  table : List (List (K × V))
  used : Nat
  sizeExp : Int
  deriving DecidableEq, Repr

/-- `dict`. -/
structure Dict (K V : Type) where
  ht0 : HashTable K V
  ht1 : HashTable K V
  rehashidx : Int
  pauserehash : Int
  pauseAutoResize : Int
  deriving DecidableEq, Repr

/-- `DICTHT_SIZE`. -/
def dicthtSize (exp : Int) : Nat := if exp = -1 then 0 else 2 ^ exp.toNat

/-- `DICTHT_SIZE_MASK`. -/
def dicthtSizeMask (exp : Int) : Nat := if exp = -1 then 0 else dicthtSize exp - 1

/-- `DICT_HT_INITIAL_EXP`. -/
def dictHtInitialExp : Int := 2

/-- `DICT_HT_INITIAL_SIZE`. -/
def dictHtInitialSize : Nat := 2 ^ dictHtInitialExp.toNat

/-- `HASHTABLE_MIN_FILL`. -/
def hashtableMinFill : Nat := 8

/-- `dict_force_resize_ratio`. -/
def dictForceResizeRatio : Nat := 4

/-- A table after `dictReset`. -/
def dictReset {K V : Type} : HashTable K V := ⟨[], 0, -1⟩

def dictCreate {K V : Type} : Dict K V := ⟨dictReset, dictReset, -1, 0, 0⟩

variable {K V : Type}

variable (type : DictType K) (policy : Policy) (d : Dict K V)

def dictEmpty (d : Dict K V) : Dict K V :=
  { d with ht0 := dictReset, ht1 := dictReset, rehashidx := -1, pauserehash := 0,
           pauseAutoResize := 0 }

def DictType.dictHashKey (key : K) : Nat := (type.hashFunction key).toNat

/-- The bucket of a hash in a table of the given size. -/
def bucketIndex (h : Nat) (exp : Int) : Nat := h &&& dicthtSizeMask exp

/-- `dictIsRehashing`. -/
def Dict.isRehashing : Bool := d.rehashidx ≠ -1

/-- `dictSize`. -/
def Dict.size : Nat := d.ht0.used + d.ht1.used

/-- The entries of a table. -/
def HashTable.entries (t : HashTable K V) : List (K × V) := t.table.flatten

/-- The entries of both tables. -/
def Dict.entries (d : Dict K V) : List (K × V) := d.ht0.entries ++ d.ht1.entries

/-- `dictNextExp`; the last case is `64 - clzl(size - 1)`. -/
def dictNextExp (size : Nat) : Int :=
  if size ≤ dictHtInitialSize then dictHtInitialExp
  else if size ≥ 2 ^ 63 - 1 then 63
  else (size - 1).log2 + 1

/-- Put an entry in front of a chain. -/
def HashTable.insertHead (t : HashTable K V) (idx : Nat) (de : K × V) : Option (HashTable K V) := do
  let chain ← t.table[idx]?
  some { t with table := t.table.set idx (de :: chain), used := t.used + 1 }

section Chains

variable [DecidableEq K] (type : DictType K) (policy : Policy) (d : Dict K V)

/-- The entry of a key in a chain. -/
def findInChain (key : K) (chain : List (K × V)) : Option (K × V) :=
  chain.find? fun de => de.1 = key

/-- Unlink the entry of a key from a chain. -/
def HashTable.unlink (t : HashTable K V) (idx : Nat) (key : K) : Option (HashTable K V) := do
  let chain ← t.table[idx]?
  some { t with
    table := t.table.set idx (chain.eraseP fun de => de.1 = key), used := t.used - 1 }

/-- `dictSetVal` on the entry of a key in a chain. -/
def HashTable.setVal (t : HashTable K V) (idx : Nat) (key : K) (val : V) :
    Option (HashTable K V) := do
  let chain ← t.table[idx]?
  some { t with
    table := t.table.set idx (chain.map fun de => if de.1 = key then (de.1, val) else de) }

end Chains

/-! ## Rehashing -/

/-- Move one entry of bucket `idx` to table 1. -/
def moveEntry (idx : Nat) (d : Dict K V) (de : K × V) : Option (Dict K V) := do
  let h :=
    if d.ht1.sizeExp > d.ht0.sizeExp then
      bucketIndex (type.dictHashKey de.1) d.ht1.sizeExp
    else
      -- shrinking: the index in the larger table has the bits already
      bucketIndex idx d.ht1.sizeExp
  let ht1 ← d.ht1.insertHead h de
  some { d with ht0 := { d.ht0 with used := d.ht0.used - 1 }, ht1 := ht1 }

def rehashEntriesInBucketAtIndex (idx : Nat) : Option (Dict K V) := do
  let chain ← d.ht0.table[idx]?
  let d ← chain.foldlM (moveEntry type idx) d
  some { d with ht0 := { d.ht0 with table := d.ht0.table.set idx [] } }

def dictCheckRehashingCompleted : Bool × Dict K V :=
  if d.ht0.used ≠ 0 then (false, d)
  else (true, { d with ht0 := d.ht1, ht1 := dictReset, rehashidx := -1 })

/-- The condition under which `dictRehash` and `dictBucketRehash` do nothing. -/
def rehashRefused : Bool :=
  let s0 := dicthtSize d.ht0.sizeExp
  let s1 := dicthtSize d.ht1.sizeExp
  policy.canResize = .forbid || !d.isRehashing || (policy.canResize = .avoid &&
      ((s1 > s0 && s1 < dictForceResizeRatio * s0) ||
        (s1 < s0 && s0 < hashtableMinFill * dictForceResizeRatio * s1)))

/-- The inner loop of `dictRehash`: pass over empty buckets.  Returns the next
bucket and the visits left; with none left the caller stops. -/
def skipEmptyBuckets (t : HashTable K V) : Nat → Nat → Option (Nat × Nat)
  | 0, idx => some (idx, 0)
  | visits + 1, idx => do
      match ← t.table[idx]? with
      | [] => skipEmptyBuckets t visits (idx + 1)
      | _ :: _ => some (idx, visits + 1)

/-- The outer loop of `dictRehash` with `n` buckets to go. -/
def rehashLoop (type : DictType K) : Nat → Nat → Dict K V → Option (Bool × Dict K V)
  | 0, _, d =>
    let (completed, d) := dictCheckRehashingCompleted d
    some (!completed, d)
  | n + 1, emptyVisits, d =>
    if d.ht0.used = 0 then
      let (completed, d) := dictCheckRehashingCompleted d
      some (!completed, d)
    else if (dicthtSize d.ht0.sizeExp : Int) ≤ d.rehashidx then none
    else do
      let (idx, visits) ← skipEmptyBuckets d.ht0 emptyVisits d.rehashidx.toNat
      if visits = 0 then some (true, { d with rehashidx := idx })
      else
        let d ← rehashEntriesInBucketAtIndex type d idx
        rehashLoop type n visits { d with rehashidx := idx + 1 }

def dictRehash (n : Nat) : Option (Bool × Dict K V) :=
  if rehashRefused policy d then some (false, d)
  else rehashLoop type n (n * 10) d

def dictRehashStep : Option (Dict K V) :=
  if d.pauserehash = 0 then (dictRehash type policy d 1).map Prod.snd else some d

/-- The rehashing that `dictTwoPhaseUnlinkFind` does first. -/
def rehashStepIfRehashing : Option (Dict K V) :=
  if d.isRehashing then dictRehashStep type policy d else some d

def dictBucketRehash (idx : Nat) : Option (Dict K V) :=
  if d.pauserehash ≠ 0 then some d
  else if rehashRefused policy d then some d
  else do
    let d ← rehashEntriesInBucketAtIndex type d idx
    some (dictCheckRehashingCompleted d).2

/-- The rehashing that a lookup does first, `idx` being its bucket in table 0. -/
def rehashOnLookup (idx : Nat) : Option (Dict K V) :=
  if d.isRehashing then
    if (idx : Int) ≥ d.rehashidx then do
      match ← d.ht0.table[idx]? with
      | _ :: _ => dictBucketRehash type policy d idx
      | [] => dictRehashStep type policy d
    else dictRehashStep type policy d
  else some d

/-- `while (dictRehash(d, 1000));`, which ends within as many rounds as table 0
has buckets. -/
def rehashAll (type : DictType K) (policy : Policy) : Nat → Dict K V → Option (Dict K V)
  | 0, _ => none
  | fuel + 1, d => do
      let (more, d) ← dictRehash type policy d 1000
      if more then rehashAll type policy fuel d else some d

/-- `dictResizeWithOptionalCheck`; the result says whether it resized. -/
def dictResize (size : Nat) : Option (Bool × Dict K V) :=
  if d.isRehashing then none
  else
    let newExp := dictNextExp size
    let newsize := dicthtSize newExp
    if newsize < size || newsize * 8 % 2 ^ 64 < newsize then some (false, d)
    else if newExp = d.ht0.sizeExp then some (false, d)
    else
      let ht : HashTable K V := ⟨List.replicate newsize [], 0, newExp⟩
      if d.ht0.table.isEmpty || d.ht0.used = 0 then
        some (true, { d with ht0 := ht, ht1 := dictReset, rehashidx := -1 })
      else
        let d := { d with ht1 := ht, rehashidx := 0 }
        if type.noIncrementalRehash then
          (rehashAll type policy (dicthtSize d.ht0.sizeExp + 1) d).map fun d => (true, d)
        else some (true, d)

def dictExpand (size : Nat) : Option (Bool × Dict K V) :=
  if d.isRehashing || d.ht0.used > size || dicthtSize d.ht0.sizeExp ≥ size then
    some (false, d)
  else dictResize type policy d size

def dictShrink (size : Nat) : Option (Bool × Dict K V) :=
  if d.isRehashing || d.ht0.used > size || dicthtSize d.ht0.sizeExp ≤ size then
    some (false, d)
  else dictResize type policy d size

def dictTypeResizeAllowed (size : Nat) : Bool :=
  match policy.resizeAllowed with
  | none => true
  | some allowed =>
    allowed (dicthtSize (dictNextExp size) * 8) d.ht0.used (dicthtSize d.ht0.sizeExp)

/-- `dictExpandIfNeeded`; no caller below uses its status. -/
def dictExpandIfNeeded : Option (Dict K V) :=
  let size := dicthtSize d.ht0.sizeExp
  if d.isRehashing then some d
  else if size = 0 then (dictExpand type policy d dictHtInitialSize).map Prod.snd
  else if (policy.canResize = .enable && d.ht0.used ≥ size) ||
      (policy.canResize ≠ .forbid && d.ht0.used ≥ dictForceResizeRatio * size) then
    if dictTypeResizeAllowed policy d (d.ht0.used + 1) then
      (dictExpand type policy d (d.ht0.used + 1)).map Prod.snd
    else some d
  else some d

def dictExpandIfAutoResizeAllowed : Option (Dict K V) :=
  if d.pauseAutoResize > 0 then some d else dictExpandIfNeeded type policy d

/-- `dictShrinkIfNeeded`; no caller below uses its status. -/
def dictShrinkIfNeeded : Option (Dict K V) :=
  let size := dicthtSize d.ht0.sizeExp
  if d.isRehashing then some d
  else if size ≤ dictHtInitialSize then some d
  else if (policy.canResize = .enable && d.ht0.used * hashtableMinFill ≤ size) ||
      (policy.canResize ≠ .forbid &&
        d.ht0.used * hashtableMinFill * dictForceResizeRatio ≤ size) then
    if dictTypeResizeAllowed policy d d.ht0.used then
      (dictShrink type policy d d.ht0.used).map Prod.snd
    else some d
  else some d

def dictShrinkIfAutoResizeAllowed : Option (Dict K V) :=
  if d.pauseAutoResize > 0 then some d else dictShrinkIfNeeded type policy d

/-! ## Looking up -/

/-- A bucket of one of the tables: `second` says which. -/
structure Slot where
  second : Bool
  idx : Nat
  deriving DecidableEq, Repr

/-- The table of a bucket. -/
def Dict.ht (second : Bool) : HashTable K V :=
  if second then d.ht1 else d.ht0

def Dict.setHt (second : Bool) (t : HashTable K V) : Dict K V :=
  if second then { d with ht1 := t } else { d with ht0 := t }

variable [DecidableEq K] (type : DictType K) (policy : Policy) (d : Dict K V)

/-- One round of the loop over the tables. -/
def searchTable (second : Bool) (h : Nat) (key : K) : Option (Option (Slot × (K × V))) := do
  let idx := bucketIndex h (d.ht second).sizeExp
  let chain ← (d.ht second).table[idx]?
  some ((findInChain key chain).map fun he => (⟨second, idx⟩, he))

/-- The loop over the tables in the lookup functions, `idx` being the bucket of
the key in table 0 as it was before any rehashing of that lookup. -/
def searchTables (idx : Nat) (key : K) : Option (Option (Slot × (K × V))) :=
  let h := type.dictHashKey key
  if (idx : Int) < d.rehashidx then searchTable d true h key
  else do
    match ← searchTable d false h key with
    | some found => some (some found)
    | none => if d.isRehashing then searchTable d true h key else some none

def dictFind (key : K) : Option (Option (K × V) × Dict K V) :=
  if d.size = 0 then some (none, d)
  else do
    let idx := bucketIndex (type.dictHashKey key) d.ht0.sizeExp
    let d ← rehashOnLookup type policy d idx
    let found ← searchTables type d idx key
    some (found.map Prod.snd, d)

/-- Take an entry out of its bucket, and shrink the table if that is due. -/
def unlinkEntry (slot : Slot) (key : K) : Option (Dict K V) := do
  let t ← (d.ht slot.second).unlink slot.idx key
  dictShrinkIfAutoResizeAllowed type policy (d.setHt slot.second t)

def dictGenericDelete (key : K) : Option (Option (K × V) × Dict K V) :=
  if d.size = 0 then some (none, d)
  else do
    let idx := bucketIndex (type.dictHashKey key) d.ht0.sizeExp
    let d ← rehashOnLookup type policy d idx
    match ← searchTables type d idx key with
    | none => some (none, d)
    | some (slot, he) =>
      let d ← unlinkEntry type policy d slot key
      some (some he, d)

def dictDelete (key : K) : Option (Bool × Dict K V) :=
  (dictGenericDelete type policy d key).map fun (he, d) => (he.isSome, d)

def dictUnlink (key : K) : Option (Option (K × V) × Dict K V) := dictGenericDelete type policy d key

/-- `dictTwoPhaseUnlinkFind`; the bucket stands for `plink`. -/
def dictTwoPhaseUnlinkFind (key : K) : Option (Option (Slot × (K × V)) × Dict K V) :=
  if d.size = 0 then some (none, d)
  else do
    let d ← rehashStepIfRehashing type policy d
    let idx := bucketIndex (type.dictHashKey key) d.ht0.sizeExp
    match ← searchTables type d idx key with
    | none => some (none, d)
    | some found => some (some found, { d with pauserehash := d.pauserehash + 1 })

def dictTwoPhaseUnlinkFree : Option (Slot × (K × V)) → Option (Dict K V)
  | none => some d
  | some (slot, he) => do
      let d ← unlinkEntry type policy d slot he.1
      some { d with pauserehash := d.pauserehash - 1 }

/-- `dictFindPositionForInsert`: the entry of the key and its bucket, or the
bucket to insert it in. -/
def dictFindPositionForInsert (key : K) : Option (((Slot × (K × V)) ⊕ Slot) × Dict K V) := do
  let h := type.dictHashKey key
  let idx := bucketIndex h d.ht0.sizeExp
  let d ← rehashOnLookup type policy d idx
  let d ← dictExpandIfAutoResizeAllowed type policy d
  match ← searchTables type d idx key with
  | some found => some (.inl found, d)
  | none => some (.inr ⟨d.isRehashing, bucketIndex h (d.ht d.isRehashing).sizeExp⟩, d)

/-- `dictInsertAtPosition`; the value is the one the caller puts in the entry. -/
def dictInsertAtPosition (key : K) (val : V) (position : Slot) : Option (Dict K V) :=
  let t := d.ht d.isRehashing
  if position.second ≠ d.isRehashing || position.idx > dicthtSizeMask t.sizeExp then none
  else do
    let t ← t.insertHead position.idx (key, val)
    some (d.setHt d.isRehashing t)

/-- `dictAddRaw`, which returns the entry that is there already, if any. -/
def dictAddRaw (key : K) (val : V) : Option (Option (Slot × (K × V)) × Dict K V) := do
  match ← dictFindPositionForInsert type policy d key with
  | (.inl existing, d) => some (some existing, d)
  | (.inr position, d) =>
    let d ← dictInsertAtPosition d key val position
    some (none, d)

def dictAdd (key : K) (val : V) : Option (Bool × Dict K V) :=
  (dictAddRaw type policy d key val).map fun (existing, d) => (existing.isNone, d)

def dictReplace (key : K) (val : V) : Option (Bool × Dict K V) := do
  match ← dictAddRaw type policy d key val with
  | (none, d) => some (true, d)
  | (some (slot, _), d) =>
    let t ← (d.ht slot.second).setVal slot.idx key val
    some (false, d.setHt slot.second t)

/-- A call; a two-phase unlink comes with the lookups that its caller makes
before the second phase, and with the policy at the time of each. -/
inductive Op (K V : Type)
  | add (key : K) (val : V)
  | addRaw (key : K) (val : V)
  | replace (key : K) (val : V)
  | find (key : K)
  | delete (key : K)
  | unlink (key : K)
  | twoPhaseUnlink (key : K) (between : List (Policy × K)) (atFree : Policy)
  | expand (size : Nat)
  | shrink (size : Nat)
  | rehash (n : Nat)

/-- What a call tells about the entries. -/
inductive Reply (K V : Type)
  | done
  | status (ok : Bool)
  | entry (he : Option (K × V))
  | unlinked (he : Option (K × V)) (between : List (Option (K × V)))
  deriving DecidableEq, Repr

/-- Lookups one after the other. -/
def dictFindAll (type : DictType K) (d : Dict K V) :
    List (Policy × K) → Option (List (Option (K × V)) × Dict K V)
  | [] => some ([], d)
  | (policy, key) :: rest => do
      let (he, d) ← dictFind type policy d key
      let (hes, d) ← dictFindAll type d rest
      some (he :: hes, d)

/-- The two phases of an unlink and what the caller looks up between them. -/
def dictTwoPhaseUnlink (key : K) (between : List (Policy × K)) (atFree : Policy) :
    Option ((Option (K × V) × List (Option (K × V))) × Dict K V) := do
  let (found, d) ← dictTwoPhaseUnlinkFind type policy d key
  let (hes, d) ← dictFindAll type d between
  let d ← dictTwoPhaseUnlinkFree type atFree d found
  some ((found.map Prod.snd, hes), d)

/-- A call under a policy. -/
def call (policy : Policy) : Op K V → Option (Reply K V × Dict K V)
  | .add key val => (dictAdd type policy d key val).map fun (ok, d) => (.status ok, d)
  | .addRaw key val => (dictAddRaw type policy d key val).map fun (existing, d) =>
    (.entry (existing.map Prod.snd), d)
  | .replace key val => (dictReplace type policy d key val).map fun (added, d) => (.status added, d)
  | .find key => (dictFind type policy d key).map fun (he, d) => (.entry he, d)
  | .delete key => (dictDelete type policy d key).map fun (ok, d) => (.status ok, d)
  | .unlink key => (dictUnlink type policy d key).map fun (he, d) => (.entry he, d)
  | .twoPhaseUnlink key between atFree =>
    (dictTwoPhaseUnlink type policy d key between atFree).map fun (r, d) =>
      (.unlinked r.1 r.2, d)
  | .expand size => (dictExpand type policy d size).map fun (_, d) => (.done, d)
  | .shrink size => (dictShrink type policy d size).map fun (_, d) => (.done, d)
  | .rehash n => (dictRehash type policy d n).map fun (_, d) => (.done, d)

/-- A call, its reply kept with those before. -/
def step (s : Dict K V × List (Reply K V)) (event : Policy × Op K V) :
    Option (Dict K V × List (Reply K V)) :=
  (call type s.1 event.1 event.2).map fun (reply, d) => (d, s.2 ++ [reply])

end Dice.Ports.DictTable
