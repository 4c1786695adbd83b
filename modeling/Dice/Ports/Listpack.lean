import Dice.Ports.Resp
import Dice.Verified.Buffer
import Dice.Verified.Walk

/-!
# Listpacks

A listpack is a list of strings in one block of memory: a header with the
number of bytes and the number of elements, the elements, and an end mark.  An
element has its encoding first and its encoded length last, so that the list can
be walked in both directions.  Strings that are decimal numbers are stored as
numbers.

A pointer into a listpack is its offset; a function that only gets a pointer
reads the bytes from there on.  A failed assertion and an access outside of the
block are both `none`.  What the allocator may have left behind the block is not
read by any function here.
-/

namespace Dice.Ports.Listpack

open Verified CString Buffer Walk NumberParsing Resp

/-- `LP_HDR_SIZE`. -/
def lpHdrSize : Nat := 6

/-- `LP_HDR_NUMELE_UNKNOWN`. -/
def lpHdrNumeleUnknown : Nat := 65535

/-- `LP_EOF`. -/
def lpEof : UInt8 := 0xFF

/-- `UINT32_MAX`. -/
def uint32Max : Nat := 2 ^ 32 - 1

/-- `UINT64_MAX`. -/
def uint64Max : Nat := 2 ^ 64 - 1

variable (lp : Bytes)

/-- `lpGetTotalBytes`, `lpBytes`. -/
def lpGetTotalBytes : Option Nat := readLE lp 0 4

def lpGetNumElements : Option Nat := readLE lp 4 2

def lpSetTotalBytes (v : Nat) : Option Bytes := writeLE lp 0 4 v

def lpSetNumElements (v : Nat) : Option Bytes := writeLE lp 4 2 v

/-! ## Encodings -/

/-- The encodings of an element. -/
inductive Encoding
  | uint7
  | str6
  | int13
  | int16
  | int24
  | int32
  | int64
  | str12
  | str32
  deriving DecidableEq, Repr

/-- The `LP_ENCODING_IS` macros: the encoding by the tag in the first byte. -/
def encodingOf (b : UInt8) : Option Encoding :=
  if b &&& 0x80 = 0x00 then some .uint7
  else if b &&& 0xC0 = 0x80 then some .str6
  else if b &&& 0xE0 = 0xC0 then some .int13
  else if b &&& 0xFF = 0xF1 then some .int16
  else if b &&& 0xFF = 0xF2 then some .int24
  else if b &&& 0xFF = 0xF3 then some .int32
  else if b &&& 0xFF = 0xF4 then some .int64
  else if b &&& 0xF0 = 0xE0 then some .str12
  else if b &&& 0xFF = 0xF0 then some .str32
  else none

/-- `lpStringToInt64`, which is `string2ll` under another name. -/
def lpStringToInt64 (s : Bytes) : Option Int := string2ll s

/-- A negative number becomes its two's complement of `bits` bits. -/
def unsigned (bits : Nat) (v : Int) : Nat := (if v < 0 then 2 ^ bits + v else v).toNat

def lpEncodeIntegerGetType (v : Int) : Bytes :=
  if 0 ≤ v ∧ v ≤ 127 then [UInt8.ofNat v.toNat]
  else if -4096 ≤ v ∧ v ≤ 4095 then
    [UInt8.ofNat (unsigned 13 v >>> 8) ||| 0xC0, UInt8.ofNat (unsigned 13 v)]
  else if -32768 ≤ v ∧ v ≤ 32767 then 0xF1 :: toLE 2 (unsigned 16 v)
  else if -8388608 ≤ v ∧ v ≤ 8388607 then 0xF2 :: toLE 3 (unsigned 24 v)
  else if -2147483648 ≤ v ∧ v ≤ 2147483647 then 0xF3 :: toLE 4 (unsigned 32 v)
  else 0xF4 :: toLE 8 (unsigned 64 v)

/-- `lpEncodeGetType`: the encoding if it is one of an integer, and the length
of the encoding. -/
def lpEncodeGetType (ele : Bytes) : Option Bytes × Nat :=
  match lpStringToInt64 ele with
  | some v => (some (lpEncodeIntegerGetType v), (lpEncodeIntegerGetType v).length)
  | none =>
    (none, if ele.length < 64 then 1 + ele.length
      else if ele.length < 4096 then 2 + ele.length
      else 5 + ele.length)

def lpEncodeString (s : Bytes) : Bytes :=
  if s.length < 64 then (UInt8.ofNat s.length ||| 0x80) :: s
  else if s.length < 4096 then
    (UInt8.ofNat (s.length >>> 8) ||| 0xE0) :: UInt8.ofNat s.length :: s
  else 0xF0 :: (toLE 4 s.length ++ s)

/-- A byte of a backward length that others precede. -/
def continued (l : Nat) : UInt8 := UInt8.ofNat (l &&& 127) ||| 128

/-- `lpEncodeBacklen`; called without a buffer it returns the length. -/
def lpEncodeBacklen (l : Nat) : Bytes :=
  if l ≤ 127 then [UInt8.ofNat l]
  else if l < 16383 then [UInt8.ofNat (l >>> 7), continued l]
  else if l < 2097151 then [UInt8.ofNat (l >>> 14), continued (l >>> 7), continued l]
  else if l < 268435455 then
    [UInt8.ofNat (l >>> 21), continued (l >>> 14), continued (l >>> 7), continued l]
  else
    [UInt8.ofNat (l >>> 28), continued (l >>> 21), continued (l >>> 14), continued (l >>> 7),
      continued l]

/-- The loop of `lpDecodeBacklen` over the bytes that precede a pointer, the
nearest first; `n` is how many of them may still be read. -/
def decodeBacklenLoop : Nat → Bytes → Nat → Nat → Option Nat
  | 0, _, _, _ => some uint64Max
  | _ + 1, [], _, _ => none
  | n + 1, b :: before, shift, val =>
    let val := val ||| (b &&& 127).toNat <<< shift
    if b &&& 128 = 0 then some val
    else decodeBacklenLoop n before (shift + 7) val

/-- `lpDecodeBacklen(p - 1)`. -/
def lpDecodeBacklen (p : Nat) : Option Nat :=
  if p ≤ lp.length then decodeBacklenLoop 5 (lp.take p).reverse 0 0 else none

/-- `lpCurrentEncodedSizeUnsafe`, a `uint32_t`. -/
def lpCurrentEncodedSizeUnsafe (p : Bytes) : Option Nat := do
  let b ← p.head?
  match encodingOf b with
  | some .uint7 => some 1
  | some .str6 => some (1 + (b &&& 0x3F).toNat)
  | some .int13 => some 2
  | some .int16 => some 3
  | some .int24 => some 4
  | some .int32 => some 5
  | some .int64 => some 9
  | some .str12 => do
      let b₁ ← p[1]?
      some (2 + ((b &&& 0xF).toNat <<< 8 ||| b₁.toNat))
  | some .str32 => do
      let len ← readLE p 1 4
      some ((5 + len) % 2 ^ 32)
  | none => some (if b = lpEof then 1 else 0)

/-- `lpCurrentEncodedSizeBytes`, of the first byte. -/
def lpCurrentEncodedSizeBytes (b : UInt8) : Nat :=
  match encodingOf b with
  | some .str12 => 2
  | some .str32 => 5
  | some _ => 1
  | none => if b = lpEof then 1 else 0

/-- What `lpGet` returns: a string by where it starts behind the pointer and its
length, or a number. -/
inductive Value
  | str (start len : Nat)
  | int (val : Int)
  deriving DecidableEq, Repr

/-- The conversion of an unsigned number from two's complement. -/
def signed (uval negstart negmax : Nat) : Int :=
  if uval ≥ negstart then -((negmax - uval : Nat) : Int) - 1 else uval

/-- A number of `n` whole bytes behind the first one. -/
def getInt (p : Bytes) (n : Nat) : Option (Value × Option Nat) := do
  let uval ← readLE p 1 n
  some (.int (signed uval (2 ^ (8 * n - 1)) (2 ^ (8 * n) - 1)), some (n + 2))

/-- A string of `count` bytes that `start` bytes precede. -/
def getStr (start count : Nat) : Value × Option Nat :=
  (.str start count, some (start + count + (lpEncodeBacklen (count + start)).length))

/-- `lpGetWithSize` without `intbuf`; the entry size is not set for an encoding
that is not known. -/
def lpGetWithSize (p : Bytes) : Option (Value × Option Nat) := do
  let b ← p.head?
  match encodingOf b with
  | some .uint7 => some (.int (signed (b &&& 0x7f).toNat uint64Max 0), some 2)
  | some .str6 => some (getStr 1 (b &&& 0x3F).toNat)
  | some .int13 => do
      let b₁ ← p[1]?
      some (.int (signed ((b &&& 0x1f).toNat <<< 8 ||| b₁.toNat) (2 ^ 12) 8191), some 3)
  | some .int16 => getInt p 2
  | some .int24 => getInt p 3
  | some .int32 => getInt p 4
  | some .int64 => getInt p 8
  | some .str12 => do
      let b₁ ← p[1]?
      some (getStr 2 ((b &&& 0xF).toNat <<< 8 ||| b₁.toNat))
  | some .str32 => do
      let len ← readLE p 1 4
      some (getStr 5 len)
  | none => some (.int (signed (12345678900000000 + b.toNat) uint64Max 0), none)

/-- `lpGet` without `intbuf`. -/
def lpGet (p : Bytes) : Option Value := (lpGetWithSize p).map Prod.fst

/-- What `lpValidateNext` returns: 0, or 1 and the pointer it leaves behind. -/
inductive Validated
  | invalid
  | valid (pp : Option Nat)
  deriving DecidableEq, Repr

/-- `OUT_OF_RANGE`. -/
def outOfRange (lpbytes p : Nat) : Bool := p < lpHdrSize || lpbytes ≤ p

def lpValidateNext (pp : Option Nat) (lpbytes : Nat) : Option Validated :=
  match pp with
  | none => some .invalid
  | some p =>
    if outOfRange lpbytes p then some .invalid
    else do
      let b ← lp[p]?
      if b = lpEof then some (.valid none)
      else
        let lenbytes := lpCurrentEncodedSizeBytes b
        if lenbytes = 0 then some .invalid
        else if outOfRange lpbytes (p + lenbytes) then some .invalid
        else
          let size ← lpCurrentEncodedSizeUnsafe (lp.drop p)
          let encodedBacklen := (lpEncodeBacklen size).length
          let entrylen := size + encodedBacklen
          if outOfRange lpbytes (p + entrylen) then some .invalid
          else
            let prevlen ← lpDecodeBacklen lp (p + entrylen)
            if (prevlen + encodedBacklen) % 2 ^ 64 ≠ entrylen then some .invalid
            else some (.valid (some (p + entrylen)))

def lpAssertValidEntry (lpbytes p : Nat) : Option Unit := do
  match ← lpValidateNext lp (some p) lpbytes with
  | .invalid => none
  | .valid _ => some ()

/-- The loop of `lpValidateIntegrity`: the pointer and the count it ends with, or
nothing if an entry is refused. -/
def validateLoop (lp : Bytes) (bytes numele : Nat) (entryCb : Nat → Nat → Bool) :
    Nat → Option Nat → Nat → Option (Option (Option Nat × Nat))
  | 0, _, _ => none
  | _ + 1, none, count => some (some (none, count))
  | fuel + 1, some p, count => do
      let b ← lp[p]?
      if b = lpEof then some (some (some p, count))
      else
        match ← lpValidateNext lp (some p) bytes with
        | .invalid => some none
        | .valid pp =>
          if entryCb p numele then
            validateLoop lp bytes numele entryCb fuel pp ((count + 1) % 2 ^ 32)
          else some none

/-- `lpValidateIntegrity`; a callback that always accepts is as good as none. -/
def lpValidateIntegrity (size : Nat) (deep : Bool) (entryCb : Nat → Nat → Bool) : Option Bool :=
  if size < lpHdrSize + 1 then some false
  else do
    let bytes ← lpGetTotalBytes lp
    if bytes ≠ size then some false
    else
      let last ← lp[size - 1]?
      if last ≠ lpEof then some false
      else if !deep then some true
      else
        let numele ← lpGetNumElements lp
        match ← validateLoop lp bytes numele entryCb size (some lpHdrSize) 0 with
        | none => some false
        | some (p, count) =>
          if p ≠ some (size - 1) then some false
          else some (numele = lpHdrNumeleUnknown || numele = count)

def lpSkip (p : Nat) : Option Nat := do
  let entrylen ← lpCurrentEncodedSizeUnsafe (lp.drop p)
  some (p + (entrylen + (lpEncodeBacklen entrylen).length))

/-- The end of `lpNext` and `lpFirst`: nothing at the end mark, else an entry
that has to be valid. -/
def entryOrEof (p : Nat) : Option (Option Nat) := do
  let b ← lp[p]?
  if b = lpEof then some none
  else
    let lpbytes ← lpGetTotalBytes lp
    lpAssertValidEntry lp lpbytes p
    some (some p)

def lpNext (p : Nat) : Option (Option Nat) := do
  let p ← lpSkip lp p
  entryOrEof lp p

def lpPrev (p : Nat) : Option (Option Nat) :=
  if p = lpHdrSize then some none
  else do
    let prevlen ← lpDecodeBacklen lp p
    let prevlen := (prevlen + (lpEncodeBacklen prevlen).length) % 2 ^ 64
    if p < prevlen then none
    else
      let lpbytes ← lpGetTotalBytes lp
      lpAssertValidEntry lp lpbytes (p - prevlen)
      some (some (p - prevlen))

def lpFirst : Option (Option Nat) := entryOrEof lp lpHdrSize

def lpLast : Option (Option Nat) := do
  let bytes ← lpGetTotalBytes lp
  if bytes = 0 then none else lpPrev lp (bytes - 1)

/-- The loop of `lpLength`. -/
def lengthLoop (lp : Bytes) : Nat → Option Nat → Nat → Option Nat
  | 0, _, _ => none
  | _ + 1, none, count => some count
  | fuel + 1, some p, count => do
      let p ← lpNext lp p
      lengthLoop lp fuel p ((count + 1) % 2 ^ 32)

/-- `lpLength`, which may set the number of elements in the header. -/
def lpLength : Option (Nat × Bytes) := do
  let numele ← lpGetNumElements lp
  if numele ≠ lpHdrNumeleUnknown then some (numele, lp)
  else
    let p ← lpFirst lp
    let count ← lengthLoop lp (lp.length + 1) p 0
    if count < lpHdrNumeleUnknown then
      let lp ← lpSetNumElements lp count
      some (count, lp)
    else some (count, lp)

/-- `lpSeek` from left to right. -/
def seekForward (index : Int) : Option (Option Nat) := do
  let ele ← lpFirst lp
  advance (lpNext lp) index.toNat ele

/-- `lpSeek` from right to left. -/
def seekBackward (index : Int) : Option (Option Nat) := do
  let ele ← lpLast lp
  advance (lpPrev lp) (-1 - index).toNat ele

def lpSeek (index : Int) : Option (Option Nat) := do
  let numele ← lpGetNumElements lp
  if numele ≠ lpHdrNumeleUnknown then
    let index := if index < 0 then numele + index else index
    if index < 0 then some none
    else if index ≥ numele then some none
    else if index > numele / 2 then seekBackward lp (index - numele)
    else seekForward lp index
  else if index < 0 then seekBackward lp index
  else seekForward lp index

/-! ## Editing -/

def lpNew : Bytes := toLE 4 (lpHdrSize + 1) ++ toLE 2 0 ++ [lpEof]

def lpShrinkToFit : Option Bytes := do
  let size ← lpGetTotalBytes lp
  if size < lp.length then some (realloc 0 lp size) else some lp

/-- `ASSERT_INTEGRITY_LEN`; with length 0 it is `ASSERT_INTEGRITY`. -/
def assertIntegrityLen (p len : Nat) : Option Unit := do
  let bytes ← lpGetTotalBytes lp
  if lpHdrSize ≤ p ∧ p + len < bytes then some () else none

/-- The arguments `elestr` and `eleint` of `lpInsert`: one of them, or none to
delete. -/
inductive Element
  | string (elestr : Bytes)
  | integer (eleint : Bytes)
  | delete

def Element.enclen : Element → Nat
  | .string elestr => (lpEncodeGetType elestr).2
  | .integer eleint => eleint.length
  | .delete => 0

/-- The bytes that are stored for an element, before its backward length. -/
def Element.stored : Element → Bytes
  | .string elestr => (lpEncodeGetType elestr).1.getD (lpEncodeString elestr)
  | .integer eleint => eleint
  | .delete => []

def Element.isDelete : Element → Bool
  | .delete => true
  | _ => false

/-- The argument `where` of `lpInsert`. -/
inductive Where
  | before
  | after
  | replace
  deriving DecidableEq, Repr

/-- `replaced_len`. -/
def lpReplacedLen (p : Nat) (replace : Bool) : Option Nat :=
  if replace then do
    let size ← lpCurrentEncodedSizeUnsafe (lp.drop p)
    let replacedLen := (size + (lpEncodeBacklen size).length) % 2 ^ 32
    assertIntegrityLen lp p replacedLen
    some replacedLen
  else some 0

/-- The update of the number of elements in `lpInsert`. -/
def lpInsertCount (replace delEle : Bool) : Option Bytes :=
  if !replace || delEle then do
    let numElements ← lpGetNumElements lp
    if numElements ≠ lpHdrNumeleUnknown then
      if !delEle then lpSetNumElements lp (numElements + 1)
      else lpSetNumElements lp (numElements + uint32Max)
    else some lp
  else some lp

/-- `lpInsert` from the offset of the element on.  Nothing is replaced by an
element that is put before `p`.  The inner `none` is NULL; the pointer is
`newp`. -/
def lpInsertAt (ele : Element) (p : Nat) (replace : Bool) :
    Option (Option (Bytes × Option Nat)) := do
  let backlen := if ele.isDelete then [] else lpEncodeBacklen ele.enclen
  let oldBytes ← lpGetTotalBytes lp
  let replacedLen ← lpReplacedLen lp p replace
  let newBytes := oldBytes + ele.enclen + backlen.length - replacedLen
  if newBytes > uint32Max then some none
  else
    let lp := if oldBytes < newBytes then realloc 0 lp newBytes else lp
    let lp ← memmove lp (p + ele.enclen + backlen.length) (p + replacedLen)
      (oldBytes - p - replacedLen)
    let lp := if newBytes < oldBytes then realloc 0 lp newBytes else lp
    let first ← lp[p]?
    let newp := if ele.isDelete && first = lpEof then none else some p
    let lp ← store lp p ele.stored
    let lp ← store lp (p + ele.enclen) backlen
    let lp ← lpInsertCount lp replace ele.isDelete
    let lp ← lpSetTotalBytes lp newBytes
    some (some (lp, newp))

def lpInsert (ele : Element) (p : Nat) (place : Where) : Option (Option (Bytes × Option Nat)) :=
  match if ele.isDelete then .replace else place with
  | .before => lpInsertAt lp ele p false
  | .after => do
      let p ← lpSkip lp p
      assertIntegrityLen lp p 0
      lpInsertAt lp ele p false
  | .replace => lpInsertAt lp ele p true

def lpInsertString (lp s : Bytes) (p : Nat) (place : Where) :
    Option (Option (Bytes × Option Nat)) := lpInsert lp (.string s) p place

def lpInsertInteger (lval : Int64) (p : Nat) (place : Where) :
    Option (Option (Bytes × Option Nat)) :=
  lpInsert lp (.integer (lpEncodeIntegerGetType lval.toInt)) p place

def lpAppend (lp s : Bytes) : Option (Option (Bytes × Option Nat)) := do
  let listpackBytes ← lpGetTotalBytes lp
  if listpackBytes = 0 then none else lpInsert lp (.string s) (listpackBytes - 1) .before

def lpPrepend (lp s : Bytes) : Option (Option (Bytes × Option Nat)) := do
  match ← lpFirst lp with
  | none => lpAppend lp s
  | some p => lpInsert lp (.string s) p .before

def lpReplace (p : Nat) (s : Bytes) : Option (Option (Bytes × Option Nat)) :=
  lpInsert lp (.string s) p .replace

def lpDelete (p : Nat) : Option (Option (Bytes × Option Nat)) := lpInsert lp .delete p .replace

/-- The loop of `lpDeleteRangeWithEntry`: the first entry that stays and the
number of those that go. -/
def deleteLoop (lp : Bytes) (bytes : Nat) : Nat → Nat → Nat → Option (Nat × Nat)
  | 0, tail, deleted => some (tail, deleted)
  | num + 1, tail, deleted => do
      let tail ← lpSkip lp tail
      let b ← lp[tail]?
      if b = lpEof then some (tail, deleted + 1)
      else
        lpAssertValidEntry lp bytes tail
        deleteLoop lp bytes num tail (deleted + 1)

/-- The update of the number of elements after `deleted` of them are gone. -/
def lpDeleteCount (deleted : Nat) : Option Bytes := do
  let numele ← lpGetNumElements lp
  if numele ≠ lpHdrNumeleUnknown then
    lpSetNumElements lp ((numele + 2 ^ 64 - deleted % 2 ^ 64) % 2 ^ 64)
  else some lp

def lpDeleteRangeWithEntry (p num : Nat) : Option (Bytes × Option Nat) := do
  let bytes ← lpGetTotalBytes lp
  if num = 0 then some (lp, some p)
  else
    let (tail, deleted) ← deleteLoop lp bytes num p 0
    let lp ← memmove lp p tail (bytes - tail)
    let lp ← lpSetTotalBytes lp (bytes - (tail - p))
    let lp ← lpDeleteCount lp deleted
    let lp ← lpShrinkToFit lp
    let first ← lp[p]?
    some (lp, if first = lpEof then none else some p)

/-- What `lpDeleteRange` does if the list ends with the range. -/
def lpTruncate (p index : Nat) : Option Bytes := do
  let lp ← store lp p [lpEof]
  let lp ← lpSetTotalBytes lp (p + 1)
  let lp ← lpSetNumElements lp index
  lpShrinkToFit lp

def lpDeleteRange (index : Int) (num : Nat) : Option Bytes := do
  let numele ← lpGetNumElements lp
  if num = 0 then some lp
  else
    match ← lpSeek lp index with
    | none => some lp
    | some p =>
      let index := if numele ≠ lpHdrNumeleUnknown ∧ index < 0 then numele + index else index
      if numele ≠ lpHdrNumeleUnknown ∧ (numele - index : Int) % 2 ^ 64 ≤ num then
        lpTruncate lp p index.toNat
      else (lpDeleteRangeWithEntry lp p num).map Prod.fst

/-- The loop of `lpBatchDelete`: `dst` is where the next part to keep goes. -/
def batchLoop (lpEnd : Nat) : List Nat → Bytes → Nat → Option (Bytes × Nat)
  | [], lp, dst => some (lp, dst)
  | skip :: ps, lp, dst => do
      let b ← lp[skip]?
      if b = lpEof then none
      else
        let keepStart ← lpSkip lp skip
        let keepEnd := ps.headD lpEnd
        if ps ≠ [] ∧ keepStart = keepEnd then batchLoop lpEnd ps lp dst
        else if keepEnd > keepStart then
          let lp ← memmove lp dst keepStart (keepEnd - keepStart)
          batchLoop lpEnd ps lp (dst + (keepEnd - keepStart))
        else none

def lpBatchDelete (ps : List Nat) : Option Bytes :=
  match ps with
  | [] => some lp
  | first :: _ => do
      let totalBytes ← lpGetTotalBytes lp
      let last ← lp[totalBytes - 1]?
      if last ≠ lpEof then none
      else
        let (lp, dst) ← batchLoop totalBytes ps lp first
        let last ← lp[dst - 1]?
        if last ≠ lpEof then none
        else
          let lp ← lpSetTotalBytes lp dst
          let lp ← lpDeleteCount lp ps.length
          lpShrinkToFit lp

/-- The bytes of `lpMerge`: the larger of the two listpacks is extended and the
other is copied behind or in front of its elements. -/
def lpMergeBytes (first second : Bytes) (firstBytes secondBytes lpbytes : Nat) : Option Bytes :=
  if secondBytes ≤ firstBytes then do
    let rest ← load second lpHdrSize (secondBytes - lpHdrSize)
    store (realloc 0 first lpbytes) (firstBytes - 1) rest
  else do
    let source ← load first 0 (firstBytes - 1)
    let target ← memmove (realloc 0 second lpbytes) (firstBytes - 1) lpHdrSize
      (secondBytes - lpHdrSize)
    store target 0 source

/-- `lpMerge`, for two different listpacks. -/
def lpMerge (first second : Bytes) : Option Bytes := do
  let firstBytes ← lpGetTotalBytes first
  let (firstLen, first) ← lpLength first
  let secondBytes ← lpGetTotalBytes second
  let (secondLen, second) ← lpLength second
  let lpbytes := firstBytes + secondBytes - lpHdrSize - 1
  if lpbytes < uint32Max then
    let target ← lpMergeBytes first second firstBytes secondBytes lpbytes
    let target ← lpSetNumElements target (min (firstLen + secondLen) 65535)
    lpSetTotalBytes target lpbytes
  else none

end Dice.Ports.Listpack
