import Dice.Ports.ListpackEncoding

/-!
# Editing listpacks

Every edit replaces some consecutive elements by others: the bytes of the
entries change accordingly, the entries behind them are moved, and the header
is adjusted.  The count in the header stays the number of elements until it
does not fit any more; from then on it is the mark for an unknown number.
-/

namespace Dice.Ports.ListpackEdits

open Option Nat

open List Verified Run CString Buffer Walk NumberParsing Resp Listpack
open ListpackValidation ListpackEncoding

variable {lp : Bytes} {as bs : List Bytes} {n : Nat}

/-- What `lpInsert` is given is stored as the entries of `ys`, which is one
element or none. -/
structure StoresAs (ele : Element) (ys : List Bytes) : Prop where
  stored_length : ele.stored.length = ele.enclen
  bytes : ele.stored ++ (if ele.isDelete then [] else lpEncodeBacklen ele.enclen) = entries ys
  length_eq : ys.length = if ele.isDelete then 0 else 1

lemma storesAs_string (s : Bytes) : StoresAs (.string s) [s] where
  stored_length := length_stored s
  bytes := by simp only [Element.isDelete, entries_cons, entries_nil, append_nil, entry,
    Bool.false_eq_true, if_false]
  length_eq := rfl

lemma storesAs_integer (lval : Int64) :
    StoresAs (.integer (lpEncodeIntegerGetType lval.toInt)) [decimalInt lval.toInt] where
  stored_length := rfl
  bytes := by
    have hstored : (Element.integer (lpEncodeIntegerGetType lval.toInt)).stored =
      (Element.string (decimalInt lval.toInt)).stored := integer_stored lval
    have henclen : (Element.integer (lpEncodeIntegerGetType lval.toInt)).enclen =
      (Element.string (decimalInt lval.toInt)).enclen := by
      rw [← length_stored, ← hstored]
      rfl
    rw [hstored, henclen]
    exact (storesAs_string (decimalInt lval.toInt)).bytes
  length_eq := rfl

lemma storesAs_delete : StoresAs .delete [] where
  stored_length := rfl
  bytes := rfl
  length_eq := rfl

variable {len k : Nat} {replace : Bool} {ms ys xs : List Bytes} {x : Bytes}

/-- The count after an edit that takes `k` elements for `l` others. -/
lemma lpInsertCount_spec (total : Nat) (body : Bytes) {l : Nat} {delEle : Bool}
    (hcount : n = lpHdrNumeleUnknown ∨ n = len ∧ n < lpHdrNumeleUnknown)
    (hk : k = if replace then 1 else 0) (hl : l = if delEle then 0 else 1)
    (hrep : delEle → replace) (hlen : k ≤ len) :
    ∃ n', lpInsertCount (block total n body) replace delEle = some (block total n' body) ∧
    (n' = lpHdrNumeleUnknown ∨ n' = len - k + l ∧ n' < lpHdrNumeleUnknown) := by
  have hunknown : lpHdrNumeleUnknown = 65535 := rfl
  have hmax : uint32Max = 2 ^ 32 - 1 := rfl
  have hget := getNumElements_block total body (n := n) (by omega)
  by_cases hnone : n = lpHdrNumeleUnknown
  · refine ⟨n, ?_, .inl hnone⟩
    rw [lpInsertCount, hget]
    simp only [some_bind, hnone, ne_eq, not_true_eq_false, if_false, ite_self]
  obtain ⟨rfl, hlt⟩ := hcount.resolve_left hnone
  cases delEle with
  | true =>
    have hreplace := hrep rfl
    subst hreplace
    simp only [if_true] at hk hl
    refine ⟨n - 1, ?_, .inr ⟨by omega, by omega⟩⟩
    have hmod : (n + uint32Max) % 2 ^ 16 = n - 1 := by omega
    simp only [lpInsertCount, Bool.or_true, if_true, hget, some_bind, ne_eq, hnone,
      not_false_eq_true, Bool.not_true, Bool.false_eq_true, if_false, setNumElements_block]
    rw [← block_count_mod, hmod]
  | false =>
    cases replace with
    | true =>
      simp only [if_true, Bool.false_eq_true, if_false] at hk hl
      exact ⟨n, rfl, .inr ⟨by omega, hlt⟩⟩
    | false =>
      simp only [Bool.false_eq_true, if_false] at hk hl
      refine ⟨n + 1, ?_, by omega⟩
      simp only [lpInsertCount, Bool.not_false, Bool.true_or, if_true, hget, some_bind, ne_eq,
        hnone, not_false_eq_true, setNumElements_block]

lemma replaced_eq (h : Packed lp (as ++ (ms ++ bs)) n)
    (hms : ms.length = if replace then 1 else 0) :
    lpReplacedLen lp (endOf as) replace = some (entries ms).length := by
  cases replace with
  | true =>
    obtain ⟨m, rfl⟩ := length_eq_one_iff.mp hms
    rw [h.replacedLen, entries_cons, entries_nil, append_nil]
  | false =>
    rw [length_eq_zero_iff.mp hms]
    rfl

/-- The pointer `lpInsert` returns: the place of the edit, unless the list ends there. -/
lemma newp_eq (pre : Bytes) {gap : Bytes} {ele : Element} (hele : StoresAs ele ys)
    (hgap : gap.length = (entries ys).length) (hsize : packedSize (as ++ (ys ++ bs)) ≤ uint32Max)
    (p : Nat) :
    ∃ first, (pre ++ gap ++ (entries bs ++ [lpEof]))[pre.length]? = some first ∧
    (if ele.isDelete && first = lpEof then none else some p) =
      if ys ++ bs = [] then none else some p := by
  rw [append_assoc, getElem?_append_right (Nat.le_refl _), Nat.sub_self, ← head?_eq_getElem?]
  cases hdel : ele.isDelete with
  | true =>
    have hlen := hele.length_eq
    rw [hdel, if_pos rfl, length_eq_zero_iff] at hlen
    subst hlen
    rw [length_eq_zero_iff.mp hgap]
    obtain ⟨first, hfirst, heof⟩ := head_entries hsize
    exact ⟨first, hfirst, by simp [heof]⟩
  | false =>
    have hne : ys ≠ [] := by
      have hlen := hele.length_eq
      rw [hdel, if_neg Bool.false_ne_true] at hlen
      exact ne_nil_of_length_pos (by omega)
    cases hfirst : (gap ++ (entries bs ++ [lpEof])).head? with
    | none => simp at hfirst
    | some first =>
      refine ⟨first, rfl, ?_⟩
      simp [hne]

/-- `lpInsert` takes the elements `ms`, one or none, for the elements `ys`. -/
lemma lpInsertAt_spec {ele : Element} (h : Packed lp (as ++ (ms ++ bs)) n) (hele : StoresAs ele ys)
    (hms : ms.length = if replace then 1 else 0) (hdel : ele.isDelete → replace) :
    if packedSize (as ++ (ys ++ bs)) ≤ uint32Max then
    ∃ lp' n', lpInsertAt lp ele (endOf as) replace =
        some (some (lp', if ys ++ bs = [] then none else some (endOf as))) ∧
      Packed lp' (as ++ (ys ++ bs)) n'
    else lpInsertAt lp ele (endOf as) replace = some none := by
  have htotal := h.walkable.total
  have hreplaced := replaced_eq h hms
  have hlen := h.length_eq
  rw [entries_append, length_append] at hlen
  have hsize : packedSize (as ++ (ys ++ bs)) =
    endOf as + (entries ys).length + ((entries bs).length + 1) := by
    rw [packedSize, entries_append, entries_append, length_append, length_append, endOf]
    omega
  generalize hbacklen : (if ele.isDelete then [] else lpEncodeBacklen ele.enclen) = backlen
  have hbytes := hele.bytes
  rw [hbacklen] at hbytes
  have henclen : ele.enclen + backlen.length = (entries ys).length := by
    rw [← hbytes, length_append, hele.stored_length]
  have hnew : lp.length + ele.enclen + backlen.length - (entries ms).length =
    packedSize (as ++ (ys ++ bs)) := by omega
  split
  next hfits =>
    -- the block before the edit, cut at the elements that go
    generalize hpre : block (packedSize (as ++ (ms ++ bs))) n (entries as) = pre
    have hprelen : pre.length = endOf as := by rw [← hpre, length_front]
    have hlp : lp = pre ++ entries ms ++ (entries bs ++ [lpEof]) := by
      rw [h.lp_eq, layout_append, hpre, entries_append]
      simp only [append_assoc]
    obtain ⟨buf, gap, hgap, hmove, hshrunk⟩ :=
      memmove_gap 0 pre (entries ms) (entries bs ++ [lpEof]) (entries ys).length
    rw [← hlp, hprelen, length_append, length_singleton, ← hsize] at hmove hshrunk
    have hdst : endOf as + ele.enclen + backlen.length = endOf as + (entries ys).length := by omega
    have hcnt : lp.length - endOf as - (entries ms).length = (entries bs).length + 1 := by omega
    have hstore := store_store pre (entries bs ++ [lpEof])
      (show gap.length = ele.stored.length + backlen.length by
        rw [hgap, hele.stored_length, henclen])
    rw [hprelen, hbytes, hele.stored_length] at hstore
    obtain ⟨first, hfirst, hnewp⟩ := newp_eq pre hele hgap hfits (endOf as)
    rw [hprelen] at hfirst
    obtain ⟨n', hcount, hn'⟩ := lpInsertCount_spec (packedSize (as ++ (ms ++ bs)))
      (entries as ++ (entries ys ++ (entries bs ++ [lpEof]))) h.count hms hele.length_eq hdel
      (by simp only [length_append]; omega)
    have hblock : pre ++ entries ys ++ (entries bs ++ [lpEof]) =
      block (packedSize (as ++ (ms ++ bs))) n
        (entries as ++ (entries ys ++ (entries bs ++ [lpEof]))) := by
      rw [← hpre, append_assoc, block_append]
    refine ⟨layout n' (as ++ (ys ++ bs)), n', ?_, rfl, hfits, ?_⟩
    · simp only [lpInsertAt, hbacklen, htotal, hreplaced, some_bind, hnew,
        if_neg (show ¬ packedSize (as ++ (ys ++ bs)) > uint32Max by omega), hdst, hcnt, hmove,
        hshrunk, hfirst, hnewp]
      simp only [bind_eq_bind]
      rw [← bind_assoc, hstore, bind_some, hblock, hcount, bind_some,
        setTotalBytes_block, bind_some, layout, entries_append, entries_append,
        append_assoc, append_assoc]
    · simp only [length_append] at hn' ⊢
      omega
  next hbig =>
    simp only [lpInsertAt, hbacklen, htotal, hreplaced, some_bind, hnew,
      if_pos (show packedSize (as ++ (ys ++ bs)) > uint32Max by omega)]

/-- The count after `k` elements are gone. -/
lemma lpDeleteCount_spec (total : Nat) (body : Bytes)
    (hcount : n = lpHdrNumeleUnknown ∨ n = len ∧ n < lpHdrNumeleUnknown) (hk : k ≤ len) :
    ∃ n', lpDeleteCount (block total n body) k = some (block total n' body) ∧
    (n' = lpHdrNumeleUnknown ∨ n' = len - k ∧ n' < lpHdrNumeleUnknown) := by
  have hunknown : lpHdrNumeleUnknown = 65535 := rfl
  have hget := getNumElements_block total body (n := n) (by omega)
  by_cases hnone : n = lpHdrNumeleUnknown
  · refine ⟨n, ?_, .inl hnone⟩
    rw [lpDeleteCount, hget, some_bind, if_neg (not_not_intro hnone)]
  obtain ⟨rfl, hlt⟩ := hcount.resolve_left hnone
  have hsub : (n + 2 ^ 64 - k % 2 ^ 64) % 2 ^ 64 = n - k := by omega
  refine ⟨n - k, ?_, .inr ⟨rfl, by omega⟩⟩
  simp only [lpDeleteCount, hget, some_bind, ne_eq, hnone, not_false_eq_true, if_true, hsub,
    setNumElements_block]

lemma lpShrinkToFit_block (n : Nat) (body rest : Bytes) (h : lpHdrSize + body.length < 2 ^ 32) :
    lpShrinkToFit (block (lpHdrSize + body.length) n (body ++ rest)) =
    some (block (lpHdrSize + body.length) n body) := by
  have hget := getTotalBytes_block n (body ++ rest) h
  rw [lpShrinkToFit, hget, some_bind, length_block]
  split
  next hlong =>
    rw [realloc_of_le 0 (by rw [length_block]; omega), ← block_append, take_left' (length_block ..)]
  next hfit =>
    have hnil : rest = [] := by
      rw [length_append] at hfit
      exact length_eq_zero_iff.mp (by omega)
    rw [hnil, append_nil]

lemma deleteLoop_spec (h : Packed lp (as ++ (ms ++ bs)) n) {num : Nat}
    (hnum : num = ms.length ∨ ms.length ≤ num ∧ ms ≠ [] ∧ bs = []) (deleted : Nat) :
    deleteLoop lp lp.length num (endOf as) deleted =
    some (endOf (as ++ ms), deleted + ms.length) := by
  induction ms generalizing as num deleted with
  | nil =>
    have hzero : num = 0 := by simpa using hnum
    rw [hzero, append_nil]
    rfl
  | cons m ms ih =>
    have hskip := (show Packed lp (as ++ m :: (ms ++ bs)) n from h).entryAt.skip
    have hassoc : as ++ (m :: ms ++ bs) = as ++ [m] ++ (ms ++ bs) := by simp
    rw [hassoc] at h
    obtain ⟨first, hfirst, heof⟩ := h.first
    have hcons : as ++ m :: ms = as ++ [m] ++ ms := by simp
    rw [length_cons] at hnum
    rw [hcons, length_cons]
    cases num with
    | zero => omega
    | succ num =>
      simp only [deleteLoop, hskip, some_bind, hfirst]
      cases hrest : ms ++ bs with
      | nil =>
        rw [if_pos (heof.mpr hrest), (append_eq_nil_iff.mp hrest).1, append_nil]
        rfl
      | cons x xs =>
        have hne : first ≠ lpEof := fun heq => by
          rw [heof.mp heq] at hrest
          cases hrest
        have hassert := (hrest ▸ h).entryAt.assert
        rw [if_neg hne, hassert, some_bind, ih h ?_ (deleted + 1), add_assoc, add_comm 1]
        rcases hnum with heq | ⟨hle, _, hnil⟩
        · exact .inl (by omega)
        refine .inr ⟨by omega, ?_, hnil⟩
        rintro rfl
        rw [hnil] at hrest
        cases hrest

/-- The end of every function that cuts `k` elements out, after the remaining ones
are moved: the header is adjusted and what is left over at the end is cut off. -/
lemma cut_block (hcount : n = lpHdrNumeleUnknown ∨ n = len ∧ n < lpHdrNumeleUnknown)
    (hlen : xs.length + k = len) (hsize : packedSize xs ≤ uint32Max) (total : Nat) (rest : Bytes) :
    ∃ n' lp1 lp2,
    lpSetTotalBytes (block total n (entries xs ++ [lpEof] ++ rest)) (packedSize xs) = some lp1 ∧
      lpDeleteCount lp1 k = some lp2 ∧ lpShrinkToFit lp2 = some (layout n' xs) ∧
      Packed (layout n' xs) xs n' := by
  have hmax : uint32Max = 2 ^ 32 - 1 := rfl
  have htotal : packedSize xs = lpHdrSize + (entries xs ++ [lpEof]).length := by
    rw [packedSize, length_append, length_singleton, add_assoc]
  obtain ⟨n', hdel, hn'⟩ := lpDeleteCount_spec (packedSize xs)
    (entries xs ++ [lpEof] ++ rest) hcount (show k ≤ len by omega)
  have hshrink := lpShrinkToFit_block n' (entries xs ++ [lpEof]) rest (by omega)
  rw [← htotal] at hshrink
  exact ⟨n', _, _, setTotalBytes_block .., hdel, hshrink, rfl, hsize, by omega⟩

/-- `lpDeleteRangeWithEntry` cuts out as many elements as there are, at most `num`. -/
lemma lpDeleteRangeWithEntry_spec (h : Packed lp (as ++ (ms ++ bs)) n)
    (num : Nat) (hne : ms ≠ []) (hnum : num = ms.length ∨ ms.length ≤ num ∧ bs = []) :
    ∃ lp' n', lpDeleteRangeWithEntry lp (endOf as) num =
      some (lp', if bs = [] then none else some (endOf as)) ∧ Packed lp' (as ++ bs) n' := by
  have hpos := length_pos_iff.mpr hne
  have hlen := h.length_eq
  rw [entries_append, length_append] at hlen
  have hloop := deleteLoop_spec h (hnum.imp_right fun hle => ⟨hle.1, hne, hle.2⟩) 0
  rw [zero_add, endOf_append] at hloop
  generalize hpre : block (packedSize (as ++ (ms ++ bs))) n (entries as) = pre
  have hprelen : pre.length = endOf as := by rw [← hpre, length_front]
  have hlp : lp = pre ++ entries ms ++ (entries bs ++ [lpEof]) ++ [] := by
    rw [h.lp_eq, layout_append, hpre, entries_append]
    simp only [append_assoc, append_nil]
  have hmove := memmove_after pre (entries ms) (entries bs ++ [lpEof]) [] (n := 0)
    (by simp only [length_append]; omega)
  rw [← hlp, hprelen, length_append, length_singleton, take_zero, append_nil, add_zero] at hmove
  have hcnt : lp.length - (endOf as + (entries ms).length) = (entries bs).length + 1 := by omega
  have hsub : lp.length - (endOf as + (entries ms).length - endOf as) = packedSize (as ++ bs) := by
    rw [hlen, packedSize, entries_append, length_append, endOf]
    omega
  generalize lp.drop (endOf as + ((entries bs).length + 1)) = junk at hmove
  have hblock : pre ++ (entries bs ++ [lpEof]) ++ junk = block (packedSize (as ++ (ms ++ bs))) n
    (entries (as ++ bs) ++ [lpEof] ++ junk) := by
    rw [← hpre, block_append, block_append, entries_append]
    simp only [append_assoc]
  have hsize : packedSize (as ++ bs) ≤ uint32Max := by
    have hle := h.size_le
    simp only [packedSize, entries_append, length_append] at hle ⊢
    omega
  obtain ⟨n', lp1, lp2, htotal, hcount, hshrink, hpacked⟩ := cut_block h.count
    (show (as ++ bs).length + ms.length = _ by simp only [length_append]; omega) hsize
    (packedSize (as ++ (ms ++ bs))) junk
  obtain ⟨first, hfirst, heof⟩ := hpacked.first
  refine ⟨layout n' (as ++ bs), n', ?_, hpacked⟩
  simp only [lpDeleteRangeWithEntry, h.walkable.total, some_bind, if_neg (show ¬ num = 0 by omega),
    hloop, hcnt, hmove, hsub, hblock, htotal, hcount, hshrink, hfirst, heof]

/-- The end mark is moved to an element, if the count is known. -/
lemma lpTruncate_spec (h : Packed lp (as ++ bs) n) (hknown : n ≠ lpHdrNumeleUnknown) :
    ∃ lp' n', lpTruncate lp (endOf as) as.length = some lp' ∧ Packed lp' as n' := by
  have hmax : uint32Max = 2 ^ 32 - 1 := rfl
  have hcount := (h.count.resolve_left hknown)
  rw [length_append] at hcount
  obtain ⟨first, hfirst, _⟩ := head_entries h.size_le
  obtain ⟨rest, hrest⟩ : ∃ rest, entries bs ++ [lpEof] = [first] ++ rest := by
    rw [head?_eq_some_iff] at hfirst
    exact hfirst
  have hstore := store_append (block (packedSize (as ++ bs)) n (entries as)) rest
    (show [lpEof].length = [first].length from rfl)
  rw [length_front, append_assoc, ← hrest, ← layout_append, ← h.lp_eq, block_append,
    block_append] at hstore
  have hsize : endOf as + 1 = lpHdrSize + (entries as ++ [lpEof]).length := by
    rw [endOf, length_append, length_singleton, add_assoc]
  have hle := h.size_le
  have hshrink := lpShrinkToFit_block as.length (entries as ++ [lpEof]) rest (by
    simp only [packedSize, entries_append, length_append] at hle
    rw [length_append, length_singleton]
    omega)
  refine ⟨layout as.length as, as.length, ?_, rfl, ?_, .inr ⟨rfl, by omega⟩⟩
  · simp only [lpTruncate, hstore, some_bind, setTotalBytes_block, setNumElements_block, hsize,
      hshrink]
    rw [← hsize]
    rfl
  · simp only [packedSize, entries_append, length_append] at hle ⊢
    omega

/-- The place of an index that counts from the end if it is negative. -/
def listIndex (len : Nat) (index : Int) : Option Nat :=
  if 0 ≤ index then if index < len then some index.toNat else none
  else if 0 ≤ len + index then some (len + index).toNat else none

lemma listIndex_lt {i : Nat} {index : Int} (h : listIndex len index = some i) :
    i < len ∧ (i : Int) = if index < 0 then len + index else index := by
  rw [listIndex] at h
  split_ifs at h ⊢ <;> cases h <;> omega

lemma atIndex_positions (xs : List Bytes) (index : Int) :
    atIndex (positions xs) index = (listIndex xs.length index).map (offset xs) := by
  have hlen := length_positions xs
  rw [atIndex, listIndex]
  split
  · split
    next hlt => rw [getElem?_positions (by omega), map_some]
    next hge => rw [getElem?_eq_none (by omega), map_none]
  split
  next hin =>
    rw [getElem?_reverse (by omega), hlen,
      show xs.length - 1 - (-1 - index).toNat = (xs.length + index).toNat by omega]
    exact getElem?_positions (by omega)
  next hout => rw [getElem?_eq_none (by rw [length_reverse]; omega), map_none]

/-- `lpDeleteRange` cuts out up to `num` elements from an index on. -/
lemma lpDeleteRange_spec (h : Packed lp xs n) (index : Int) (num : Nat) :
    ∃ lp' n', lpDeleteRange lp index num = some lp' ∧
    Packed lp' ((listIndex xs.length index).elim xs fun i => xs.take i ++ xs.drop (i + num))
      n' := by
  have hseek := h.walkable.seek_eq index
  rw [atIndex_positions] at hseek
  by_cases hzero : num = 0
  · subst hzero
    refine ⟨lp, n, by simp only [lpDeleteRange, h.numElements, some_bind, if_true], ?_⟩
    cases listIndex xs.length index with
    | none => exact h
    | some i => rwa [elim_some, add_zero, take_append_drop]
  cases hindex : listIndex xs.length index with
  | none =>
    rw [hindex, map_none] at hseek
    exact ⟨lp, n, by simp only [lpDeleteRange, h.numElements, some_bind, if_neg hzero, hseek], h⟩
  | some i =>
    rw [hindex, map_some] at hseek
    obtain ⟨hi, hsigned⟩ := listIndex_lt hindex
    have hcount := h.count
    have hunknown : lpHdrNumeleUnknown = 65535 := rfl
    have hsplit : xs = xs.take i ++ (xs.drop i).take num ++ xs.drop (i + num) := by
      rw [append_assoc, ← drop_drop, take_append_drop, take_append_drop]
    have htake : (xs.take i).length = i := by
      rw [length_take]
      omega
    by_cases hcut : n ≠ lpHdrNumeleUnknown ∧
      (n - (if n ≠ lpHdrNumeleUnknown ∧ index < 0 then n + index else index) : Int) %
        2 ^ 64 ≤ num
    · -- the count is known and the range reaches the end
      have hknown := hcount.resolve_left hcut.1
      have hle := hcut.2
      have hplace : (if n ≠ lpHdrNumeleUnknown ∧ index < 0 then n + index else index) = i := by
        rw [hsigned]
        simp only [ne_eq, ← hknown.1, hcut.1, not_false_eq_true, true_and]
      rw [hplace] at hle
      rw [← take_append_drop i xs] at h
      obtain ⟨lp', n', hrun, hpacked⟩ := lpTruncate_spec h hcut.1
      refine ⟨lp', n', ?_, ?_⟩
      · simp only [lpDeleteRange, h.numElements, some_bind, if_neg hzero, hseek, hplace]
        rw [if_pos ⟨hcut.1, hle⟩, ← hrun, htake]
        rfl
      · rw [elim_some, drop_eq_nil_of_le (by omega), append_nil]
        exact hpacked
    · have h' := h
      rw [hsplit, append_assoc] at h'
      obtain ⟨lp', n', hrun, hpacked⟩ := lpDeleteRangeWithEntry_spec h' num
        (ne_nil_of_length_pos (by rw [length_take, length_drop]; omega)) (by
          rw [length_take, length_drop, drop_eq_nil_iff]
          omega)
      refine ⟨lp', n', ?_, hpacked⟩
      simp only [lpDeleteRange, h.numElements, some_bind, if_neg hzero, hseek, if_neg hcut]
      rw [offset, hrun]
      rfl

/-! ## Deleting elements here and there -/

/-- The elements whose index is not listed; the first one has index `j`. -/
def without {α : Type*} (is : List Nat) (j : Nat) (xs : List α) : List α :=
  ((xs.zipIdx j).filter fun x => x.2 ∉ is).map Prod.fst

section Without

variable {α : Type*} {is : List Nat} {i j : Nat}

lemma without_append (xs ys : List α) :
    without is j (xs ++ ys) = without is j xs ++ without is (j + xs.length) ys := by
  rw [without, zipIdx_append, filter_append, map_append]
  rfl

lemma without_of_notMem {xs : List α} (h : ∀ i, j ≤ i → i < j + xs.length → i ∉ is) :
    without is j xs = xs := by
  induction xs generalizing j with
  | nil => rfl
  | cons x xs ih =>
    have hrest := ih (j := j + 1) fun i hge hlt => h i (by omega) (by
      rw [length_cons]
      omega)
    have hfirst := h j (le_refl _) (by rw [length_cons]; omega)
    rw [without, zipIdx_cons, filter_cons_of_pos (by simpa using hfirst)]
    exact congrArg (x :: ·) hrest

lemma without_split (xs : List α) (hsorted : (i :: is).Pairwise (· < ·)) (hge : j ≤ i)
    (hlt : i < j + xs.length) :
    ∃ keep x rest, xs = keep ++ x :: rest ∧ i = j + keep.length ∧
    without (i :: is) j xs = keep ++ without is (i + 1) rest := by
  have hxs : xs = xs.take (i - j) ++ xs[i - j] :: xs.drop (i - j + 1) := by
    rw [getElem_cons_drop, take_append_drop]
  have hlen : i = j + (xs.take (i - j)).length := by
    rw [length_take]
    omega
  refine ⟨_, _, _, hxs, hlen, ?_⟩
  generalize xs.take (i - j) = keep at hxs hlen
  generalize xs.drop (i - j + 1) = rest at hxs
  rw [pairwise_cons] at hsorted
  have hkeep : without (i :: is) j keep = keep := without_of_notMem fun k hk hlt hmem => by
    rcases mem_cons.mp hmem with rfl | hmem
    · omega
    · have := hsorted.1 k hmem
      omega
  have hrest : without (i :: is) (i + 1) rest = without is (i + 1) rest := by
    rw [without, without]
    congr 1
    apply filter_congr
    intro x hx
    have := le_snd_of_mem_zipIdx hx
    simp only [mem_cons, not_or, decide_eq_decide]
    constructor
    · exact And.right
    · exact fun h => ⟨by omega, h⟩
  conv_lhs => rw [hxs]
  rw [without_append, ← hlen, ← hrest]
  congr 1
  rw [without, zipIdx_cons, filter_cons_of_neg (by simp)]
  rfl

lemma length_without {xs : List α} (hsorted : is.Pairwise (· < ·))
    (hmem : ∀ i ∈ is, j ≤ i ∧ i < j + xs.length) :
    (without is j xs).length + is.length = xs.length := by
  induction is generalizing j xs with
  | nil => rw [without_of_notMem (by simp), length_nil, add_zero]
  | cons i is ih =>
    obtain ⟨hge, hlt⟩ := hmem i (mem_cons_self ..)
    obtain ⟨keep, x, rest, rfl, hi, heq⟩ := without_split xs hsorted hge hlt
    rw [length_append, length_cons] at hmem
    rw [pairwise_cons] at hsorted
    have hrest : (without is (i + 1) rest).length + is.length = rest.length := by
      apply ih hsorted.2
      intro k hk
      have := hsorted.1 k hk
      have := hmem k (mem_cons_of_mem _ hk)
      omega
    rw [heq, length_append, length_append, length_cons, length_cons]
    omega

lemma without_sublist (is : List Nat) (j : Nat) (xs : List α) : (without is j xs).Sublist xs := by
  have h := (filter_sublist (p := fun x : α × Nat => x.2 ∉ is) (l := xs.zipIdx j)).map Prod.fst
  rwa [zipIdx_map_fst] at h

end Without

lemma length_entries_le (h : xs.Sublist ys) : (entries xs).length ≤ (entries ys).length := by
  induction h with
  | slnil => exact le_refl _
  | cons y _ ih =>
    rw [entries_cons, length_append]
    omega
  | cons_cons y _ ih =>
    rw [entries_cons, entries_cons, length_append, length_append]
    omega

lemma lpSkip_entry (pre post : Bytes) (h : (Element.string x).enclen < 2 ^ 32) :
    lpSkip (pre ++ (entry x ++ post)) pre.length = some (pre.length + (entry x).length) := by
  rw [lpSkip, drop_left, entry, append_assoc, (encodes_stored h).size, length_stored,
    length_append, length_stored]
  rfl

lemma offset_append (as bs : List Bytes) : offset (as ++ bs) as.length = endOf as := by
  rw [offset, take_left]

lemma length_entries_pos (h : xs ≠ []) : 0 < (entries xs).length := by
  cases xs with
  | nil => exact absurd rfl h
  | cons x xs =>
    have := length_backlen_pos (Element.string x).enclen
    rw [entries_cons, length_append, length_entry]
    omega

/-- One round of `lpBatchDelete` up to the bytes that are kept. -/
lemma batchLoop_cons {rest : List Bytes}
    (hsize : packedSize (as ++ x :: rest) ≤ uint32Max) {buf : Bytes}
    (hlen : buf.length = endOf as) (lpEnd : Nat) (ps : List Nat) (dst : Nat) :
    batchLoop lpEnd (endOf as :: ps) (buf ++ (entries (x :: rest) ++ [lpEof])) dst =
    if ps ≠ [] ∧ endOf (as ++ [x]) = ps.headD lpEnd then
      batchLoop lpEnd ps (buf ++ (entries (x :: rest) ++ [lpEof])) dst
    else if ps.headD lpEnd > endOf (as ++ [x]) then
      (memmove (buf ++ (entries (x :: rest) ++ [lpEof])) dst (endOf (as ++ [x]))
        (ps.headD lpEnd - endOf (as ++ [x]))).bind fun lp =>
          batchLoop lpEnd ps lp (dst + (ps.headD lpEnd - endOf (as ++ [x])))
    else none := by
  obtain ⟨first, hfirst, heof⟩ := head_entries hsize
  have hbyte : (buf ++ (entries (x :: rest) ++ [lpEof]))[endOf as]? = some first := by
    rw [← hlen, getElem?_append_right (Nat.le_refl _), Nat.sub_self, ← head?_eq_getElem?, hfirst]
  have hne : ¬ first = lpEof := by simp [heof]
  have hskip := lpSkip_entry buf (entries rest ++ [lpEof])
    (enclen_lt_of_mem hsize (show x ∈ as ++ x :: rest by simp))
  rw [← append_assoc (entry x), ← entries_cons, hlen] at hskip
  have hend : endOf (as ++ [x]) = endOf as + (entry x).length := by
    rw [endOf_append, entries_cons, entries_nil, append_nil]
  simp only [batchLoop, hbyte, some_bind, if_neg hne, hskip, hend]
  rfl

/-- The bytes of an element to delete are not needed any more. -/
lemma batch_skip {pre junk : Bytes} (hlen : (pre ++ junk).length = endOf as) (x : Bytes)
    (rest : List Bytes) :
    endOf (as ++ [x]) = pre.length + (junk ++ entry x).length ∧
    pre ++ junk ++ (entries (x :: rest) ++ [lpEof]) =
      pre ++ (junk ++ entry x) ++ (entries rest ++ [lpEof]) := by
  constructor
  · rw [endOf_append, ← hlen]
    simp only [entries_cons, entries_nil, append_nil, length_append]
    omega
  · simp only [entries_cons, append_assoc]

/-- The loop of `lpBatchDelete`.  The elements from the next one to delete on are
where they were; before it stands what is kept so far, and some bytes that are not
needed any more. -/
lemma batchLoop_spec (hsize : packedSize xs ≤ uint32Max) {i : Nat}
    {is : List Nat} (hsorted : (i :: is).Pairwise (· < ·)) (hlt : ∀ k ∈ i :: is, k < xs.length)
    {rest : List Bytes} (hxs : xs = as ++ x :: rest) (hi : i = as.length)
    (pre junk : Bytes) (hlen : (pre ++ junk).length = endOf as) :
    ∃ junk', batchLoop (endOf xs + 1) ((i :: is).map (offset xs))
      (pre ++ junk ++ (entries (x :: rest) ++ [lpEof])) pre.length =
    some (pre ++ (entries (without is (i + 1) rest) ++ [lpEof]) ++ junk',
      pre.length + (entries (without is (i + 1) rest)).length + 1) := by
  induction is generalizing i as x rest pre junk with
  | nil =>
    obtain ⟨hstart, hbuf⟩ := batch_skip hlen x rest
    have hoff : offset xs i = endOf as := by rw [hxs, hi, offset_append]
    have hend : endOf xs = endOf (as ++ [x]) + (entries rest).length := by
      rw [hxs, append_cons, endOf_append]
    have hmove := memmove_after pre (junk ++ entry x) (entries rest ++ [lpEof]) [] (n := 0)
      (by simp only [length_append]; omega)
    rw [add_zero, ← hstart, length_append, length_singleton, take_zero,
      append_nil, append_nil, ← hbuf] at hmove
    rw [map_cons, map_nil, hoff, batchLoop_cons (hxs ▸ hsize) hlen,
      if_neg (by simp), headD_nil, if_pos (by omega),
      show endOf xs + 1 - endOf (as ++ [x]) = (entries rest).length + 1 by omega, hmove,
      without_of_notMem (by simp)]
    exact ⟨_, rfl⟩
  | cons i' is ih =>
    obtain ⟨hstart, hbuf⟩ := batch_skip hlen x rest
    have hoff : offset xs i = endOf as := by rw [hxs, hi, offset_append]
    have hii' := (pairwise_cons.mp hsorted).1 i' (by simp)
    have hsorted' := (pairwise_cons.mp hsorted).2
    have hlt' : ∀ k ∈ i' :: is, k < xs.length := fun k hk => hlt k (mem_cons_of_mem _ hk)
    obtain ⟨keep, x', rest', hrest, hi', hkeep⟩ := without_split rest hsorted'
      (show i + 1 ≤ i' by omega) (by
        have := hlt' i' (mem_cons_self ..)
        rw [hxs, length_append, length_cons] at this
        omega)
    have hxs' : xs = as ++ x :: keep ++ x' :: rest' := by
      rw [hxs, hrest]
      simp only [append_assoc, cons_append]
    have hlen' : i' = (as ++ x :: keep).length := by
      rw [length_append, length_cons]
      omega
    have hoff' : offset xs i' = endOf (as ++ x :: keep) := by rw [hxs', hlen', offset_append]
    have hend : endOf (as ++ x :: keep) = endOf (as ++ [x]) + (entries keep).length := by
      rw [append_cons, endOf_append]
    rw [map_cons, hoff, batchLoop_cons (hxs ▸ hsize) hlen, hbuf, hkeep, entries_append,
      hrest, entries_append]
    by_cases hnil : keep = []
    · -- the next one to delete follows at once
      subst hnil
      rw [if_pos ⟨by simp, by rw [map_cons, headD_cons, hoff']⟩]
      exact ih hsorted' hlt' hxs' hlen' pre (junk ++ entry x) (by rw [length_append, ← hstart])
    have hpos := length_entries_pos hnil
    have hmove := memmove_after pre (junk ++ entry x) (entries keep)
      (entries (x' :: rest') ++ [lpEof]) (n := 0)
      (by simp only [length_append]; omega)
    rw [add_zero, ← hstart, take_zero, append_nil,
      drop_append_of_le_length (by simp only [length_append]; omega)] at hmove
    rw [if_neg, map_cons, headD_cons, hoff', if_pos (by omega),
      show endOf (as ++ x :: keep) - endOf (as ++ [x]) = (entries keep).length by omega,
      append_assoc (entries keep), ← append_assoc (pre ++ (junk ++ entry x)), hmove]
    · obtain ⟨junk', hloop⟩ := ih hsorted' hlt' hxs' hlen' (pre ++ entries keep)
        ((pre ++ (junk ++ entry x) ++ entries keep).drop (pre ++ entries keep).length)
        (by
          simp only [length_append, length_drop] at hstart ⊢
          omega)
      rw [map_cons, hoff'] at hloop
      refine ⟨junk', ?_⟩
      rw [bind_some, ← append_assoc (pre ++ entries keep), ← length_append, hloop]
      simp only [append_assoc, length_append, add_assoc]
    · rw [map_cons, headD_cons]
      omega

lemma lpBatchDelete_spec (h : Packed lp xs n) {is : List Nat}
    (hsorted : is.Pairwise (· < ·)) (hlt : ∀ i ∈ is, i < xs.length) :
    ∃ lp' n', lpBatchDelete lp (is.map (offset xs)) = some lp' ∧
    Packed lp' (without is 0 xs) n' := by
  cases is with
  | nil => exact ⟨lp, n, rfl, by rwa [without_of_notMem (by simp)]⟩
  | cons i is =>
    have hlength := length_without (j := 0) hsorted fun k hk => ⟨zero_le k, by
      rw [zero_add]
      exact hlt k hk⟩
    obtain ⟨as, x, rest, hxs, hi, hwithout⟩ := without_split xs (j := 0) hsorted (zero_le i)
      (by rw [zero_add]; exact hlt i (mem_cons_self ..))
    rw [zero_add] at hi
    have hoff : offset xs i = endOf as := by rw [hxs, hi, offset_append]
    generalize hpre : block (packedSize xs) n (entries as) = pre
    have hprelen : pre.length = endOf as := by rw [← hpre, length_front]
    have hlp : lp = pre ++ [] ++ (entries (x :: rest) ++ [lpEof]) := by
      rw [h.lp_eq, hxs, layout_append, ← hxs, hpre, append_nil]
    obtain ⟨junk, hloop⟩ := batchLoop_spec h.size_le hsorted hlt hxs hi pre []
      (by rw [append_nil, hprelen])
    have hlen : lp.length = endOf xs + 1 := by
      rw [h.lp_eq, length_layout]
      rfl
    have hsize := h.size_le
    have hsub := length_entries_le (without_sublist is (i + 1) rest)
    have hdst : packedSize (as ++ without is (i + 1) rest) =
      pre.length + (entries (without is (i + 1) rest)).length + 1 := by
      rw [hprelen, packedSize, entries_append, length_append, endOf]
      omega
    have hfit : packedSize (as ++ without is (i + 1) rest) ≤ uint32Max := by
      rw [hxs] at hsize
      simp only [packedSize, entries_append, entries_cons, length_append] at hsize ⊢
      omega
    have hlast : (pre ++ (entries (without is (i + 1) rest) ++ [lpEof]) ++ junk)[
      packedSize (as ++ without is (i + 1) rest) - 1]? = some lpEof := by
      rw [hdst, Nat.add_sub_cancel, ← append_assoc, append_assoc, ← length_append,
        getElem?_append_right (Nat.le_refl _), Nat.sub_self]
      rfl
    have hblock : pre ++ (entries (without is (i + 1) rest) ++ [lpEof]) ++ junk =
      block (packedSize xs) n (entries (as ++ without is (i + 1) rest) ++ [lpEof] ++ junk) := by
      rw [← hpre, block_append, block_append, entries_append]
      simp only [append_assoc]
    rw [hwithout] at hlength ⊢
    obtain ⟨n', lp1, lp2, htotal, hcount, hshrink, hpacked⟩ := cut_block h.count hlength hfit
      (packedSize xs) junk
    rw [hblock] at hlast
    rw [← hlp, ← hdst, hprelen, ← hoff, hblock, ← hlen, map_cons] at hloop
    rw [← length_map (offset xs), map_cons] at hcount
    refine ⟨layout n' (as ++ without is (i + 1) rest), n', ?_, hpacked⟩
    rw [map_cons]
    simp only [lpBatchDelete, h.walkable.total, some_bind, h.walkable.eof, hloop, hlast, ne_eq,
      not_true_eq_false, if_false, htotal, hcount, hshrink]

lemma lpLength_spec (h : Packed lp xs n) :
    ∃ lp' n', lpLength lp = some (xs.length, lp') ∧ Packed lp' xs n' := by
  obtain ⟨lp', hrun, hlp'⟩ := h.walkable.length_eq
  rw [length_positions] at hrun hlp'
  rcases hlp' with ⟨rfl, _⟩ | ⟨_, hset, hlt⟩
  · exact ⟨lp', n, hrun, h⟩
  · rw [h.lp_eq, layout, setNumElements_block, some.injEq] at hset
    exact ⟨lp', xs.length, hrun, hset.symm, h.size_le, .inr ⟨rfl, hlt⟩⟩

lemma realloc_grow (buf : Bytes) (k : Nat) :
    realloc 0 buf (buf.length + k) = buf ++ replicate k 0 := by
  rw [realloc, take_of_length_le (by omega), Nat.add_sub_cancel_left]

section

variable {first second : Bytes} {m : Nat} (hfirst : Packed first xs n)
  (hsecond : Packed second ys m)

include hfirst hsecond

/-- The elements of the second listpack follow those of the first one, whichever
of the two blocks is kept. -/
lemma lpMergeBytes_spec : ∃ total k, lpMergeBytes first second first.length second.length
      (first.length + second.length - lpHdrSize - 1) =
    some (block total k (entries (xs ++ ys) ++ [lpEof])) := by
  have hx : first.length = endOf xs + 1 := by
    rw [hfirst.lp_eq, length_layout]
    rfl
  have hy : second.length = endOf ys + 1 := by
    rw [hsecond.lp_eq, length_layout]
    rfl
  have hxs : endOf xs = lpHdrSize + (entries xs).length := rfl
  have hys : endOf ys = lpHdrSize + (entries ys).length := rfl
  have hfront := length_front (packedSize xs) n xs
  have hfirst' : first = block (packedSize xs) n (entries xs) ++ [lpEof] := by
    rw [hfirst.lp_eq]
    rfl
  have hsecond' : second = block (packedSize ys) m [] ++ (entries ys ++ [lpEof]) := by
    rw [hsecond.lp_eq]
    rfl
  rw [lpMergeBytes]
  split
  next hle =>
    have hload : load second lpHdrSize ((entries ys).length + 1) =
      some (entries ys ++ [lpEof]) := by
      have h := load_append (block (packedSize ys) m []) (entries ys ++ [lpEof]) []
      rw [append_nil, ← hsecond', length_append] at h
      exact h
    have hgrow := realloc_grow first (entries ys).length
    have hstore := store_append (block (packedSize xs) n (entries xs)) []
      (show (entries ys ++ [lpEof]).length = ([lpEof] ++ replicate (entries ys).length 0).length by
        simp only [length_append, length_replicate]
        omega)
    rw [append_nil, append_nil, ← append_assoc, ← hfirst', hfront, block_append] at hstore
    refine ⟨packedSize xs, n, ?_⟩
    rw [show second.length - lpHdrSize = (entries ys).length + 1 by omega,
      show first.length + second.length - lpHdrSize - 1 = first.length + (entries ys).length by
        omega,
      show first.length - 1 = endOf xs by omega, hgrow, hload, some_bind, hstore, entries_append,
      append_assoc]
  next hgt =>
    have hload := load_append [] (block (packedSize xs) n (entries xs)) [lpEof]
    rw [nil_append, ← hfirst', hfront, length_nil] at hload
    -- the elements of the second one make room for those of the first
    obtain ⟨buf, gap, hgap, hmove, hbuf⟩ := memmove_gap 0 (block (packedSize ys) m []) []
      (entries ys ++ [lpEof]) (entries xs).length
    have hnew : (block (packedSize ys) m []).length + (entries xs).length +
      (entries ys ++ [lpEof]).length = first.length + second.length - lpHdrSize - 1 := by
      simp only [length_block, length_append, length_singleton, length_nil]
      omega
    rw [append_nil, ← hsecond', hnew] at hmove hbuf
    rw [if_neg (by omega)] at hbuf
    have hgrow : (if second.length < first.length + second.length - lpHdrSize - 1 then
      realloc 0 second (first.length + second.length - lpHdrSize - 1) else second) =
      realloc 0 second (first.length + second.length - lpHdrSize - 1) := by
      split
      · rfl
      · rw [realloc_of_le 0 (by omega), take_of_length_le (by omega)]
    rw [hgrow, hbuf] at hmove
    have hstore := store_append [] (entries ys ++ [lpEof])
      (show (block (packedSize xs) n (entries xs)).length =
        (block (packedSize ys) m [] ++ gap).length by
        rw [length_append, length_block, length_block, hgap, length_nil, Nat.add_zero])
    rw [nil_append, nil_append, block_append (packedSize xs), length_nil] at hstore
    have hpost : (entries ys ++ [lpEof]).length = second.length - lpHdrSize := by
      rw [length_append, length_singleton]
      omega
    rw [length_block, length_nil, Nat.add_zero, ← hxs, hpost] at hmove
    refine ⟨packedSize xs, n, ?_⟩
    simp only [show first.length - 1 = endOf xs by omega, hload, hmove, some_bind, hstore]
    rw [entries_append, append_assoc]

/-- `lpMerge` of two listpacks whose elements fit together. -/
lemma lpMerge_spec :
    if packedSize (xs ++ ys) < uint32Max then
    ∃ lp' n', lpMerge first second = some lp' ∧ Packed lp' (xs ++ ys) n'
    else lpMerge first second = none := by
  obtain ⟨lp1, n1, hlen1, hp1⟩ := lpLength_spec hfirst
  obtain ⟨lp2, n2, hlen2, hp2⟩ := lpLength_spec hsecond
  obtain ⟨total, k, hmerge⟩ := lpMergeBytes_spec hp1 hp2
  have heq1 : lp1.length = first.length := by
    rw [hp1.lp_eq, hfirst.lp_eq, length_layout, length_layout]
  have heq2 : lp2.length = second.length := by
    rw [hp2.lp_eq, hsecond.lp_eq, length_layout, length_layout]
  have hbytes : first.length + second.length - lpHdrSize - 1 = packedSize (xs ++ ys) := by
    rw [hfirst.lp_eq, hsecond.lp_eq, length_layout, length_layout]
    simp only [packedSize, entries_append, length_append]
    omega
  rw [heq1, heq2, hbytes] at hmerge
  split
  next hfits =>
    refine ⟨layout (min (xs.length + ys.length) 65535) (xs ++ ys), _, ?_, rfl, by omega, ?_⟩
    · simp only [lpMerge, hfirst.walkable.total, hsecond.walkable.total, hlen1, hlen2, some_bind,
        hbytes, if_pos hfits, hmerge]
      rfl
    · have hunknown : lpHdrNumeleUnknown = 65535 := rfl
      rw [length_append]
      omega
  next hbig =>
    simp only [lpMerge, hfirst.walkable.total, hsecond.walkable.total, hlen1, hlen2, some_bind,
      hbytes, if_neg hbig]

end

end Dice.Ports.ListpackEdits
