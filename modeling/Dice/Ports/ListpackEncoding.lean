import Dice.Ports.ListpackValidation

/-!
# The encoding of listpack elements

Each element has one encoding: a decimal number that fits in 64 bits the
smallest of the integer encodings, every other string the smallest of the
string encodings.  Reading an encoding gives the element back, at every
boundary between two encodings, and the backward length behind it gives its
length.  A block made of such entries is one the validator accepts.
-/

namespace Dice.Ports.ListpackEncoding

open Nat UInt8 Option

open List Verified Run CString Buffer Walk NumberParsing Resp Listpack
open ListpackValidation

/-- The bytes of an element: `lpGet`, with numbers in decimal. -/
def elementBytes (p : Bytes) : Option Bytes := do
  match ← lpGet p with
  | .str start len => load p start len
  | .int val => some (decimalInt val)

/-- `enc` is read as the element `x`, whatever follows. -/
structure Encodes (enc x : Bytes) : Prop where
  first : ∃ b, enc.head? = some b ∧ b ≠ lpEof ∧ lpCurrentEncodedSizeBytes b ≠ 0 ∧
    lpCurrentEncodedSizeBytes b ≤ enc.length
  size : ∀ rest, lpCurrentEncodedSizeUnsafe (enc ++ rest) = some enc.length
  get : ∀ rest, elementBytes (enc ++ rest) = some x

variable {k : Nat} {v : Int} {s x : Bytes} {xs : List Bytes}

lemma unsigned_lt (hlow : -(2 ^ k : Nat) ≤ v)
    (hhigh : v < (2 ^ k : Nat)) : unsigned k v < 2 ^ k := by
  have hcast : (2 : Int) ^ k = ((2 ^ k : Nat) : Int) := by push_cast; rfl
  rw [unsigned]
  split <;> omega

lemma signed_unsigned (hlow : -(2 ^ k : Nat) ≤ v) (hhigh : v < (2 ^ k : Nat)) :
    signed (unsigned (k + 1) v) (2 ^ k) (2 ^ (k + 1) - 1) = v := by
  have hcast : (2 : Int) ^ (k + 1) = ((2 ^ (k + 1) : Nat) : Int) := by push_cast; rfl
  rw [signed, unsigned]
  split <;> split at * <;> omega

/-- An encoding whose first byte says that a number follows. -/
lemma encodes_getInt {tag : UInt8} {n : Nat} (hn : 0 < n) (hne : tag ≠ lpEof)
    (hbytes : lpCurrentEncodedSizeBytes tag = 1)
    (hsize : ∀ rest, lpCurrentEncodedSizeUnsafe (tag :: rest) = some (n + 1))
    (hget : ∀ rest, lpGetWithSize (tag :: rest) = getInt (tag :: rest) n)
    (hlow : -(2 ^ (8 * n - 1) : Nat) ≤ v) (hhigh : v < (2 ^ (8 * n - 1) : Nat)) :
    Encodes (tag :: toLE n (unsigned (8 * n) v)) (decimalInt v) := by
  have hpow : 2 ^ (8 * n) = 2 * 2 ^ (8 * n - 1) := by
    rw [← pow_succ']
    congr 1
    omega
  have hlt : unsigned (8 * n) v < 256 ^ n := by
    rw [show 256 = 2 ^ 8 from rfl, ← pow_mul]
    exact unsigned_lt (by omega) (by omega)
  refine ⟨⟨tag, rfl, hne, by omega, by simp [hbytes]⟩, ?_, ?_⟩
  · intro rest
    rw [cons_append, hsize, length_cons, length_toLE]
  intro rest
  have hread := readLE_toLE [tag] rest hlt
  rw [singleton_append, length_singleton] at hread
  have hk : 8 * n - 1 + 1 = 8 * n := by omega
  have hsigned := signed_unsigned hlow hhigh
  rw [hk] at hsigned
  rw [elementBytes, lpGet, cons_append, hget, getInt, ← cons_append, hread]
  simp only [some_bind, map_some, hsigned]

lemma encodes_integer (hlow : -(2 ^ 63 : Int) ≤ v) (hhigh : v ≤ (llongMax : Int)) :
    Encodes (lpEncodeIntegerGetType v) (decimalInt v) := by
  have hmax : llongMax = 2 ^ 63 - 1 := rfl
  rw [lpEncodeIntegerGetType]
  split_ifs with h7 h13 h16 h24 h32
  · have hbyte : ∀ n < 128, encodingOf (ofNat n) = some .uint7 ∧ ofNat n ≠ lpEof ∧
      (ofNat n &&& 0x7f).toNat = n := by decide +kernel
    obtain ⟨henc, hne, hval⟩ := hbyte v.toNat (by omega)
    have hbytes : lpCurrentEncodedSizeBytes (ofNat v.toNat) = 1 := by
      rw [lpCurrentEncodedSizeBytes, henc]
    refine ⟨⟨_, rfl, hne, by omega, by simp [hbytes]⟩, ?_, ?_⟩
    · intro rest
      simp only [lpCurrentEncodedSizeUnsafe, singleton_append, head?_cons, some_bind,
        henc, length_singleton]
    intro rest
    have hsigned : signed v.toNat uint64Max 0 = v := by
      have : uint64Max = 2 ^ 64 - 1 := rfl
      rw [signed]
      omega
    simp only [elementBytes, lpGet, lpGetWithSize, singleton_append, head?_cons,
      some_bind, henc, map_some, hval, hsigned]
  · have hbyte : ∀ n < 32, encodingOf (ofNat n ||| 0xC0) = some .int13 ∧
      ofNat n ||| 0xC0 ≠ lpEof ∧ ((ofNat n ||| 0xC0) &&& 0x1f).toNat = n := by
      decide +kernel
    have hlt := unsigned_lt (k := 13) (v := v) (by omega) (by omega)
    obtain ⟨henc, hne, hval⟩ := hbyte (unsigned 13 v >>> 8) (by rw [shiftRight_eq_div_pow]; omega)
    have hbytes : lpCurrentEncodedSizeBytes (ofNat (unsigned 13 v >>> 8) ||| 0xC0) = 1 := by
      rw [lpCurrentEncodedSizeBytes, henc]
    refine ⟨⟨_, rfl, hne, by omega, by simp [hbytes]⟩, ?_, ?_⟩
    · intro rest
      simp only [lpCurrentEncodedSizeUnsafe, cons_append, head?_cons, some_bind, henc,
        length_cons, length_nil]
    intro rest
    have hword : unsigned 13 v >>> 8 <<< 8 ||| (ofNat (unsigned 13 v)).toNat = unsigned 13 v := by
      rw [toNat_ofNat', ← shiftLeft_add_eq_or_of_lt (mod_lt _ (by decide))]
      omega
    have hsigned : signed (unsigned 13 v) (2 ^ 12) 8191 = v :=
      signed_unsigned (k := 12) (by omega) (by omega)
    simp only [elementBytes, lpGet, lpGetWithSize, cons_append, head?_cons,
      getElem?_cons_succ, getElem?_cons_zero, some_bind, henc, map_some, hval,
      hword, hsigned]
  · exact encodes_getInt (n := 2) (by decide) (by decide) (by decide) (fun _ => rfl)
      (fun _ => rfl) (by omega) (by omega)
  · exact encodes_getInt (n := 3) (by decide) (by decide) (by decide) (fun _ => rfl)
      (fun _ => rfl) (by omega) (by omega)
  · exact encodes_getInt (n := 4) (by decide) (by decide) (by decide) (fun _ => rfl)
      (fun _ => rfl) (by omega) (by omega)
  · exact encodes_getInt (n := 8) (by decide) (by decide) (by decide) (fun _ => rfl)
      (fun _ => rfl) (by omega) (by omega)

/-! ## Strings -/

/-- A string behind `start` bytes of tag and length. -/
lemma encodes_str {tag : UInt8} (head : Bytes) (hne : tag ≠ lpEof)
    (hbytes : lpCurrentEncodedSizeBytes tag = head.length + 1)
    (hsize : ∀ rest, lpCurrentEncodedSizeUnsafe (tag :: (head ++ rest)) =
    some (head.length + 1 + s.length)) (hget : ∀ rest, lpGetWithSize (tag :: (head ++ rest)) =
    some (getStr (head.length + 1) s.length)) : Encodes (tag :: (head ++ s)) s := by
  refine ⟨⟨tag, rfl, hne, by omega, ?_⟩, ?_, ?_⟩
  · rw [length_cons, length_append]
    omega
  · intro rest
    rw [cons_append, append_assoc, hsize, length_cons, length_append]
    congr 1
    omega
  · intro rest
    have hload := load_append (tag :: head) s rest
    rw [elementBytes, lpGet, cons_append, append_assoc, hget, ← append_assoc]
    exact hload

lemma encodes_string (h : 5 + s.length < 2 ^ 32) : Encodes (lpEncodeString s) s := by
  rw [lpEncodeString]
  split_ifs with h6 h12
  · have hbyte : ∀ n < 64, encodingOf (ofNat n ||| 0x80) = some .str6 ∧
      ofNat n ||| 0x80 ≠ lpEof ∧ ((ofNat n ||| 0x80) &&& 0x3F).toNat = n := by
      decide +kernel
    obtain ⟨henc, hne, hval⟩ := hbyte s.length h6
    refine encodes_str [] hne (by rw [lpCurrentEncodedSizeBytes, henc]; rfl) ?_ ?_
    · intro rest
      simp only [lpCurrentEncodedSizeUnsafe, head?_cons, some_bind, henc, hval, length_nil]
    · intro rest
      simp only [lpGetWithSize, head?_cons, some_bind, henc, hval, length_nil]
  · have hbyte : ∀ n < 16, encodingOf (ofNat n ||| 0xE0) = some .str12 ∧
      ofNat n ||| 0xE0 ≠ lpEof ∧ ((ofNat n ||| 0xE0) &&& 0xF).toNat = n := by
      decide +kernel
    obtain ⟨henc, hne, hval⟩ := hbyte (s.length >>> 8) (by rw [shiftRight_eq_div_pow]; omega)
    have hword : s.length >>> 8 <<< 8 ||| (ofNat s.length).toNat = s.length := by
      rw [toNat_ofNat', ← shiftLeft_add_eq_or_of_lt (mod_lt _ (by decide))]
      omega
    refine encodes_str [ofNat s.length] hne (by rw [lpCurrentEncodedSizeBytes, henc]; rfl) ?_ ?_
    · intro rest
      simp only [lpCurrentEncodedSizeUnsafe, singleton_append, head?_cons,
        getElem?_cons_succ, getElem?_cons_zero, some_bind, henc, hval, hword,
        length_singleton]
    · intro rest
      simp only [lpGetWithSize, singleton_append, head?_cons, getElem?_cons_succ,
        getElem?_cons_zero, some_bind, henc, hval, hword, length_singleton]
  · have hread : ∀ rest, readLE (0xF0 :: (toLE 4 s.length ++ rest)) 1 4 = some s.length :=
      fun rest => readLE_toLE [0xF0] rest (by omega)
    refine encodes_str _ (by decide) (by rw [length_toLE]; rfl) ?_ ?_
    · intro rest
      have henc : encodingOf 0xF0 = some .str32 := by decide
      simp only [lpCurrentEncodedSizeUnsafe, head?_cons, some_bind, henc, hread, mod_eq_of_lt h,
        length_toLE]
    · intro rest
      have henc : encodingOf 0xF0 = some .str32 := by decide
      simp only [lpGetWithSize, head?_cons, some_bind, henc, hread, length_toLE]

/-- The bytes that are stored for a string are read as that string, and they are
as many as were counted. -/
lemma encodes_stored (h : (Element.string s).enclen < 2 ^ 32) :
    Encodes (Element.string s).stored s := by
  rw [Element.enclen, lpEncodeGetType] at h
  rw [Element.stored, lpEncodeGetType]
  cases hint : lpStringToInt64 s with
  | some v =>
    obtain ⟨htext, hlow, hhigh⟩ := decimalInt_of_string2ll hint
    have henc := encodes_integer hlow hhigh
    rw [htext] at henc
    exact henc
  | none =>
    rw [hint] at h
    apply encodes_string
    split_ifs at h <;> omega

lemma length_stored (s : Bytes) : (Element.string s).stored.length = (Element.string s).enclen := by
  rw [Element.stored, Element.enclen, lpEncodeGetType]
  cases lpStringToInt64 s with
  | some v => rfl
  | none =>
    show (lpEncodeString s).length = _
    rw [lpEncodeString]
    split_ifs <;> simp only [length_cons, length_append, length_toLE] <;> omega

lemma integer_stored (lval : Int64) :
    lpEncodeIntegerGetType lval.toInt = (Element.string (decimalInt lval.toInt)).stored := by
  have hread : lpStringToInt64 (decimalInt lval.toInt) = some lval.toInt :=
    string2ll_decimalInt lval.le_toInt (by have := lval.toInt_lt; simp only [llongMax]; omega)
  rw [Element.stored, lpEncodeGetType, hread]
  rfl

lemma or_shift {a : Nat} (b : Nat) (ha : a < 2 ^ k) : a ||| b <<< k = a + b * 2 ^ k := by
  rw [Nat.or_comm, ← Nat.shiftLeft_add_eq_or_of_lt ha, Nat.shiftLeft_eq, Nat.add_comm]

variable {lp : Bytes} (n : Nat)

lemma decodeLoop_continued (before : Bytes) {shift val : Nat} (l : Nat) (hval : val < 2 ^ shift) :
    decodeBacklenLoop (n + 1) (continued l :: before) shift val =
    decodeBacklenLoop n before (shift + 7) (val + l % 128 * 2 ^ shift) := by
  have hbyte : ∀ n < 128, ((ofNat n ||| 128) &&& 127).toNat = n ∧
    ¬ (ofNat n ||| 128) &&& 128 = 0 := by decide +kernel
  have hmod : l &&& 127 = l % 128 := and_two_pow_sub_one_eq_mod l 7
  obtain ⟨hbits, hmore⟩ := hbyte (l % 128) (mod_lt _ (by decide))
  rw [decodeBacklenLoop, continued, hmod, hbits, if_neg hmore, or_shift _ hval]

lemma decodeLoop_final (before : Bytes) {shift val l : Nat} (hval : val < 2 ^ shift)
    (hl : l < 128) :
    decodeBacklenLoop (n + 1) (ofNat l :: before) shift val = some (val + l * 2 ^ shift) := by
  have hbyte : ∀ n < 128, (ofNat n &&& 127).toNat = n ∧ ofNat n &&& 128 = 0 := by decide +kernel
  obtain ⟨hbits, hlast⟩ := hbyte l hl
  rw [decodeBacklenLoop, hbits, if_pos hlast, or_shift _ hval]

/-- A backward length is read back, whatever precedes it. -/
lemma decode_backlen (pre : Bytes) {l : Nat} (h : l < 2 ^ 35) :
    decodeBacklenLoop 5 (pre ++ lpEncodeBacklen l).reverse 0 0 = some l := by
  rw [lpEncodeBacklen]
  split_ifs with h1 h2 h3 h4 <;>
    simp only [reverse_append, reverse_cons, reverse_nil, nil_append, cons_append]
  · rw [decodeLoop_final _ _ (by omega) (by omega)]
    congr 1
    omega
  · rw [decodeLoop_continued _ _ _ (by omega), decodeLoop_final _ _ (by omega) (by omega)]
    congr 1
    omega
  · rw [decodeLoop_continued _ _ _ (by omega), decodeLoop_continued _ _ _ (by omega),
      decodeLoop_final _ _ (by omega) (by omega)]
    congr 1
    omega
  · rw [decodeLoop_continued _ _ _ (by omega), decodeLoop_continued _ _ _ (by omega),
      decodeLoop_continued _ _ _ (by omega), decodeLoop_final _ _ (by omega) (by omega)]
    congr 1
    omega
  rw [decodeLoop_continued _ _ _ (by omega), decodeLoop_continued _ _ _ (by omega),
    decodeLoop_continued _ _ _ (by omega), decodeLoop_continued _ _ _ (by omega),
    decodeLoop_final _ _ (by omega) (by omega)]
  congr 1
  omega

/-- The entry of an element: its encoding and the backward length. -/
def entry (x : Bytes) : Bytes :=
  (Element.string x).stored ++ lpEncodeBacklen (Element.string x).enclen

lemma length_entry (x : Bytes) : (entry x).length =
    (Element.string x).enclen + (lpEncodeBacklen (Element.string x).enclen).length := by
  rw [entry, length_append, length_stored]

lemma entryAt_entry (pre post : Bytes) (hge : lpHdrSize ≤ pre.length)
    (hpost : post ≠ []) (hsmall : (Element.string x).enclen < 2 ^ 32) :
    EntryAt (pre ++ entry x ++ post) pre.length (pre.length + (entry x).length) := by
  have henc := encodes_stored hsmall
  have hlen := length_stored x
  have hentry := length_entry x
  have hpos := length_pos_iff.mpr hpost
  obtain ⟨b, hb, hne, hknown, hbytes⟩ := henc.first
  obtain ⟨r, hr, hspec, _⟩ := lpValidateNext_spec (pre ++ entry x ++ post) pre.length
  suffices hrun : lpValidateNext (pre ++ entry x ++ post) (some pre.length)
    (pre ++ entry x ++ post).length =
    some (.valid (some (pre.length + (entry x).length))) by
    rw [hrun, some.injEq] at hr
    exact hspec _ hr.symm
  have hdrop : (pre ++ entry x ++ post).drop pre.length =
    (Element.string x).stored ++ (lpEncodeBacklen (Element.string x).enclen ++ post) := by
    rw [append_assoc, drop_left, entry, append_assoc]
  have hfirst : (pre ++ entry x ++ post)[pre.length]? = some b := by
    have := congrArg head? hdrop
    rw [head?_drop, head?_append, hb] at this
    exact this
  have hsize := henc.size (lpEncodeBacklen (Element.string x).enclen ++ post)
  rw [← hdrop, hlen] at hsize
  have hback : lpDecodeBacklen (pre ++ entry x ++ post) (pre.length + (entry x).length) =
    some (Element.string x).enclen := by
    rw [lpDecodeBacklen, if_pos (by simp only [length_append]; omega),
      ← length_append, take_left, entry, ← append_assoc]
    exact decode_backlen _ (by omega)
  have hbacklen := length_backlen_le (Element.string x).enclen
  have hout : ∀ k, k ≤ (entry x).length → ¬ outOfRange (pre ++ entry x ++ post).length
    (pre.length + k) := by
    intro k hk
    rw [not_outOfRange]
    simp only [length_append]
    omega
  have hout0 := hout 0 (by omega)
  have hout1 := hout (lpCurrentEncodedSizeBytes b) (by omega)
  have hout2 := hout (entry x).length (le_refl _)
  rw [add_zero] at hout0
  rw [hentry] at hback hout2 ⊢
  have hmod : ((Element.string x).enclen +
    (lpEncodeBacklen (Element.string x).enclen).length) % 2 ^ 64 =
    (Element.string x).enclen + (lpEncodeBacklen (Element.string x).enclen).length :=
    mod_eq_of_lt (by omega)
  simp only [lpValidateNext, if_neg hout0, hfirst, some_bind, if_neg hne, if_neg hknown,
    if_neg hout1, hsize, if_neg hout2, hback, hmod, ne_eq, not_true_eq_false, if_false]

/-! ## Blocks -/

/-- A block with its header. -/
def block (total n : Nat) (body : Bytes) : Bytes := toLE 4 total ++ toLE 2 n ++ body

section

variable (total n : Nat) (body : Bytes)

@[simp] lemma length_block : (block total n body).length = lpHdrSize + body.length := by
  simp only [block, length_append, length_toLE, lpHdrSize]

lemma getTotalBytes_block {total : Nat} (n : Nat) (body : Bytes) (h : total < 2 ^ 32) :
    lpGetTotalBytes (block total n body) = some total := by
  exact readLE_toLE [] (toLE 2 n ++ body) h

lemma getNumElements_block (total : Nat) {n : Nat} (body : Bytes) (h : n < 2 ^ 16) :
    lpGetNumElements (block total n body) = some n := by
  have hread := readLE_toLE (toLE 4 total) body (n := 2) h
  rwa [length_toLE] at hread

lemma setTotalBytes_block (v : Nat) :
    lpSetTotalBytes (block total n body) v = some (block v n body) := by
  have hstore := store_append [] (toLE 2 n ++ body)
    (show (toLE 4 v).length = (toLE 4 total).length by rw [length_toLE, length_toLE])
  exact hstore

lemma setNumElements_block (v : Nat) :
    lpSetNumElements (block total n body) v = some (block total v body) := by
  have hstore := store_append (toLE 4 total) body
    (show (toLE 2 v).length = (toLE 2 n).length by rw [length_toLE, length_toLE])
  rwa [length_toLE] at hstore

lemma block_count_mod : block total (n % 2 ^ 16) body = block total n body := by
  rw [block, block, show (2 : Nat) ^ 16 = 256 ^ 2 from rfl, toLE_mod]

end

/-- The entries of a list of elements. -/
def entries (xs : List Bytes) : Bytes := (xs.map entry).flatten

@[simp] lemma entries_nil : entries [] = [] := rfl

@[simp] lemma entries_cons (x : Bytes) (xs : List Bytes) :
    entries (x :: xs) = entry x ++ entries xs := rfl

@[simp] lemma entries_append (xs ys : List Bytes) :
    entries (xs ++ ys) = entries xs ++ entries ys := by
  rw [entries, map_append, flatten_append, entries, entries]

/-- The bytes a list of elements takes. -/
def packedSize (xs : List Bytes) : Nat := lpHdrSize + (entries xs).length + 1

/-- The listpack of a list of elements, with a count in its header. -/
def layout (n : Nat) (xs : List Bytes) : Bytes := block (packedSize xs) n (entries xs ++ [lpEof])

lemma length_layout (xs : List Bytes) : (layout n xs).length = packedSize xs := by
  rw [layout, length_block, length_append]
  rfl

/-- A listpack that holds the elements, with their number or without. -/
structure Packed (lp : Bytes) (xs : List Bytes) (n : Nat) : Prop where
  lp_eq : lp = layout n xs
  size_le : packedSize xs ≤ uint32Max
  count : n = lpHdrNumeleUnknown ∨ n = xs.length ∧ n < lpHdrNumeleUnknown

lemma enclen_lt_of_mem (h : packedSize xs ≤ uint32Max)
    (hx : x ∈ xs) : (Element.string x).enclen < 2 ^ 32 := by
  obtain ⟨ys, zs, rfl⟩ := append_of_mem hx
  have hmax : uint32Max = 2 ^ 32 - 1 := rfl
  rw [packedSize, entries_append, entries_cons, length_append, length_append, length_entry] at h
  omega

/-- Where the elements start. -/
def positions (xs : List Bytes) : List Nat := starts lpHdrSize (xs.map entry)

lemma length_positions (xs : List Bytes) : (positions xs).length = xs.length := by
  rw [positions, length_starts, length_map]

/-- The offset behind some elements. -/
def endOf (as : List Bytes) : Nat := lpHdrSize + (entries as).length

/-- The offset of an element, or of the end mark. -/
def offset (xs : List Bytes) (i : Nat) : Nat := endOf (xs.take i)

lemma getElem?_positions {i : Nat} (h : i < xs.length) :
    (positions xs)[i]? = some (offset xs i) := by
  rw [positions, getElem?_starts _ (by rwa [length_map]), ← map_take]
  rfl

lemma chain_entries (pre : Bytes) (hge : lpHdrSize ≤ pre.length)
    (hsmall : ∀ x ∈ xs, (Element.string x).enclen < 2 ^ 32) :
    (starts pre.length (xs.map entry) ++ [(pre ++ entries xs ++ [lpEof]).length - 1]).head? =
      some pre.length ∧
    (starts pre.length (xs.map entry) ++ [(pre ++ entries xs ++ [lpEof]).length - 1]).IsChain
      (EntryAt (pre ++ entries xs ++ [lpEof])) := by
  induction xs generalizing pre with
  | nil => simp [starts]
  | cons x xs ih =>
    have hassoc : pre ++ entries (x :: xs) ++ [lpEof] =
      (pre ++ entry x) ++ entries xs ++ [lpEof] := by
      simp only [entries_cons, append_assoc]
    have hentry := entryAt_entry pre (entries xs ++ [lpEof]) hge (by simp)
      (hsmall x (mem_cons_self ..))
    rw [← append_assoc, ← hassoc] at hentry
    have hrest := ih (pre ++ entry x) (by rw [length_append]; omega)
      (fun y hy => hsmall y (mem_cons_of_mem _ hy))
    rw [← hassoc, length_append] at hrest
    exact ⟨rfl, chain_cons hentry hrest.1 hrest.2⟩

lemma Packed.numElements {n : Nat} (h : Packed lp xs n) : lpGetNumElements lp = some n := by
  have hcount := h.count
  have hunknown : lpHdrNumeleUnknown = 65535 := rfl
  rw [h.lp_eq]
  exact getNumElements_block _ _ (by omega)

lemma Packed.walkable {n : Nat} (h : Packed lp xs n) : Walkable lp (positions xs) := by
  have hmax : uint32Max = 2 ^ 32 - 1 := rfl
  have hsize := h.size_le
  have hcount := h.count
  have hhdr : (toLE 4 (packedSize xs) ++ toLE 2 n).length = lpHdrSize := by rfl
  have hlp : lp = toLE 4 (packedSize xs) ++ toLE 2 n ++ entries xs ++ [lpEof] := by
    rw [h.lp_eq, layout, block, ← append_assoc]
  obtain ⟨hhead, hchain⟩ := chain_entries (toLE 4 (packedSize xs) ++ toLE 2 n)
    (le_of_eq hhdr.symm) (fun x hx => enclen_lt_of_mem hsize hx)
  rw [← hlp] at hhead hchain
  refine ⟨?_, ?_, hhead, hchain, n, h.numElements, ?_⟩
  · rw [h.lp_eq, length_layout]
    exact getTotalBytes_block n _ (by omega)
  · rw [hlp, length_append, length_singleton, Nat.add_sub_cancel,
      getElem?_append_right (Nat.le_refl _), Nat.sub_self]
    rfl
  · rw [length_positions]
    omega

/-- The elements of a listpack, from `lpFirst` by `lpNext`. -/
def lpElements (lp : Bytes) : Option (List Bytes) := do
  let p ← lpFirst lp
  let ps ← collect (lpNext lp) lp.length p
  ps.mapM fun p => elementBytes (lp.drop p)

lemma mapM_elements (pre post : Bytes) (hsmall : ∀ x ∈ xs, (Element.string x).enclen < 2 ^ 32) :
    (starts pre.length (xs.map entry)).mapM
    (fun p => elementBytes ((pre ++ entries xs ++ post).drop p)) = some xs := by
  induction xs generalizing pre with
  | nil => rfl
  | cons x xs ih =>
    have hassoc : pre ++ entries (x :: xs) ++ post = (pre ++ entry x) ++ entries xs ++ post := by
      simp only [entries_cons, append_assoc]
    have hrest := ih (pre ++ entry x) (fun y hy => hsmall y (mem_cons_of_mem _ hy))
    rw [← hassoc, length_append] at hrest
    have hfirst : elementBytes ((pre ++ entries (x :: xs) ++ post).drop pre.length) = some x := by
      rw [hassoc, append_assoc, append_assoc, drop_left, entry, append_assoc]
      exact (encodes_stored (hsmall x (mem_cons_self ..))).get _
    rw [map_cons, starts, mapM_cons, hfirst, hrest]
    rfl

lemma Packed.elements {n : Nat} (h : Packed lp xs n) : lpElements lp = some xs := by
  have hwalk := h.walkable
  have hge := hwalk.length_ge
  have hlp : lp = toLE 4 (packedSize xs) ++ toLE 2 n ++ entries xs ++ [lpEof] := by
    rw [h.lp_eq, layout, block, ← append_assoc]
  have hmap := mapM_elements (toLE 4 (packedSize xs) ++ toLE 2 n) [lpEof]
    (fun x hx => enclen_lt_of_mem h.size_le hx)
  rw [← hlp] at hmap
  simp only [lpElements, hwalk.first_eq, some_bind,
    hwalk.walks_next.collect_eq (show (positions xs).length < lp.length by omega)]
  exact hmap

lemma block_append (total n : Nat) (body rest : Bytes) :
    block total n body ++ rest = block total n (body ++ rest) := by
  simp only [block, append_assoc]

lemma endOf_append (as bs : List Bytes) : endOf (as ++ bs) = endOf as + (entries bs).length := by
  rw [endOf, entries_append, length_append, ← add_assoc, endOf]

lemma length_front (total n : Nat) (as : List Bytes) :
    (block total n (entries as)).length = endOf as := length_block ..

lemma layout_append (as bs : List Bytes) : layout n (as ++ bs) =
    block (packedSize (as ++ bs)) n (entries as) ++ (entries bs ++ [lpEof]) := by
  rw [block_append, layout, entries_append, append_assoc]

variable {lp : Bytes} {as bs : List Bytes} {n : Nat}

section

variable (h : Packed lp (as ++ bs) n)

include h

lemma Packed.drop_eq : lp.drop (endOf as) = entries bs ++ [lpEof] := by
  rw [h.lp_eq, layout_append, ← length_front (packedSize (as ++ bs)) n as, drop_left]

lemma Packed.length_eq : lp.length = endOf as + (entries bs).length + 1 := by
  rw [h.lp_eq, length_layout, packedSize, entries_append, length_append, endOf]
  omega

lemma Packed.byte : lp[endOf as]? = (entries bs ++ [lpEof]).head? := by
  rw [← h.drop_eq, head?_drop]
omit h in
lemma Packed.entryAt (h : Packed lp (as ++ x :: bs) n) :
    EntryAt lp (endOf as) (endOf (as ++ [x])) := by
  have hsmall := enclen_lt_of_mem h.size_le (x := x) (by simp)
  have hentry := entryAt_entry (block (packedSize (as ++ x :: bs)) n (entries as))
    (entries bs ++ [lpEof]) (by rw [length_front, endOf]; omega) (by simp) hsmall
  rw [length_front, append_assoc, ← append_assoc (entry x), ← entries_cons,
    ← layout_append, ← h.lp_eq] at hentry
  rwa [endOf_append, entries_cons, entries_nil, append_nil]

omit h in
lemma head_entries (h : packedSize (as ++ bs) ≤ uint32Max) :
    ∃ first, (entries bs ++ [lpEof]).head? = some first ∧ (first = lpEof ↔ bs = []) := by
  cases bs with
  | nil => exact ⟨lpEof, rfl, by simp⟩
  | cons x bs =>
    obtain ⟨b, hb, hne, _⟩ :=
      (encodes_stored (enclen_lt_of_mem h (show x ∈ as ++ x :: bs by simp))).first
    refine ⟨b, ?_, by simp [hne]⟩
    rw [entries_cons, entry, append_assoc, append_assoc, head?_append, hb]
    rfl

lemma Packed.first : ∃ first, lp[endOf as]? = some first ∧ (first = lpEof ↔ bs = []) := by
  rw [h.byte]
  exact head_entries h.size_le

end

lemma Packed.replacedLen (h : Packed lp (as ++ x :: bs) n) :
    lpReplacedLen lp (endOf as) true = some (entry x).length := by
  have hsmall := enclen_lt_of_mem h.size_le (x := x) (by simp)
  have hlen := h.length_eq
  have hsize := h.size_le
  have hlayout := length_layout n (as ++ x :: bs)
  have hmax : uint32Max = 2 ^ 32 - 1 := rfl
  rw [← h.lp_eq] at hlayout
  rw [entries_cons, length_append] at hlen
  have hunsafe : lpCurrentEncodedSizeUnsafe (lp.drop (endOf as)) =
    some (Element.string x).enclen := by
    rw [h.drop_eq, entries_cons, entry, append_assoc, append_assoc,
      (encodes_stored hsmall).size, length_stored]
  have hmod : ((Element.string x).enclen +
    (lpEncodeBacklen (Element.string x).enclen).length) % 2 ^ 32 = (entry x).length := by
    rw [← length_entry]
    exact mod_eq_of_lt (by omega)
  have hassert : lpHdrSize ≤ endOf as ∧ endOf as + (entry x).length < lp.length := by
    rw [endOf] at hlen ⊢
    omega
  simp only [lpReplacedLen, if_true, hunsafe, some_bind, hmod, assertIntegrityLen, h.walkable.total,
    if_pos hassert]

end Dice.Ports.ListpackEncoding
