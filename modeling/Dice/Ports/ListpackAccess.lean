import Dice.Ports.ListpackRefinement

/-!
# Reading a listpack by position

Every listpack the validator accepts, whatever encodings its entries have, is
read by index from both ends, and walking back undoes walking on.  Its length
can be found by a walk and is then written to the header.  The entries do not
depend on that: only the backward length of the first entry lies close enough to
be read beyond it, and an unknown count is two bytes that make such a reading
too long for the entry.
-/

namespace Dice.Ports.ListpackAccess

open List Option Verified CString Buffer Run Walk Listpack ListpackValidation
open ListpackEncoding ListpackRefinement

variable {lp : Bytes} {xs : List Bytes} {ps : List Nat}

lemma mapM_eq_some_iff {α β : Type*} {f : α → Option β} {as : List α} {bs : List β} :
    as.mapM f = some bs ↔ as.map f = bs.map some := by
  induction as generalizing bs with
  | nil => cases bs <;> simp
  | cons a as ih => cases bs <;> simp [bind_eq_some_iff, ← ih]

lemma elements_iff (h : Walkable lp ps) :
    lpElements lp = some xs ↔ ps.map (fun p => elementBytes (lp.drop p)) = xs.map some := by
  have hge := h.length_ge
  simp only [lpElements, h.first_eq, some_bind,
    h.walks_next.collect_eq (show ps.length < lp.length by omega), mapM_eq_some_iff]

lemma exists_walkable (h : Represents lp xs) :
    ∃ ps, Walkable lp ps ∧ ps.map (fun p => elementBytes (lp.drop p)) = xs.map some := by
  obtain ⟨ok, hrun, hwalk⟩ := validate_walkable lp
  rw [h.valid] at hrun
  cases hrun
  obtain ⟨ps, hps⟩ := hwalk rfl
  exact ⟨ps, hps, (elements_iff hps).mp h.elements⟩

/-- A backward length that is small for the bytes before it does not depend on
what precedes them, if that ended with a byte of an unknown count. -/
lemma decodeLoop_behind (n : Nat) (near : Bytes) {far far' : Bytes} {shift val e : Nat}
    (hval : val < 2 ^ shift) (h : decodeBacklenLoop n (near ++ 255 :: far) shift val = some e)
    (hsmall : n ≤ near.length ∨ e < 127) :
    decodeBacklenLoop n (near ++ far') shift val = some e := by
  induction n generalizing near shift val with
  | zero => exact h
  | succ n ih =>
    cases near with
    | nil =>
      have hlt : e < 127 := hsmall.resolve_left (by simp)
      have hbits : 127 ≤ (255 &&& 127 : UInt8).toNat <<< shift := by
        rw [Nat.shiftLeft_eq]
        exact Nat.le_mul_of_pos_right _ (Nat.two_pow_pos _)
      rcases decodeLoop_spec _ _ _ _ (accumulate_lt 255 hval) h with rfl | ⟨_, hmod⟩
      · exact absurd hlt (by decide)
      have hle := Nat.mod_le e (2 ^ (shift + 7))
      rw [hmod] at hle
      have := Nat.right_le_or.trans hle
      omega
    | cons b near =>
      rw [cons_append, decodeBacklenLoop] at h ⊢
      split at h
      next hlast => rw [if_pos hlast, h]
      next hmore =>
        rw [if_neg hmore]
        exact ih near (accumulate_lt b hval) h (hsmall.imp_left (by simp))

variable {lp' : Bytes} {p q e : Nat}

lemma decode_recount (hdrop : lp'.drop 6 = lp.drop 6) (hmark : lp[5]? = some 255)
    (hq : 6 ≤ q) (hle : q ≤ lp.length) (hle' : q ≤ lp'.length)
    (h : lpDecodeBacklen lp q = some e) (hsmall : 11 ≤ q ∨ e < 127) :
    lpDecodeBacklen lp' q = some e := by
  obtain ⟨k, rfl⟩ := Nat.exists_eq_add_of_le hq
  have hnear : ((lp.drop 6).take k).reverse.length = k := by
    rw [length_reverse, length_take, length_drop]
    omega
  rw [lpDecodeBacklen, if_pos hle, take_add, take_add_one, hmark, reverse_append,
    reverse_append] at h
  rw [lpDecodeBacklen, if_pos hle', take_add, hdrop, reverse_append]
  exact decodeLoop_behind 5 _ (by decide) h (hsmall.imp_left fun _ => by omega)

lemma drop_recount (hdrop : lp'.drop 6 = lp.drop 6) (hge : 6 ≤ p) : lp'.drop p = lp.drop p := by
  rw [← Nat.add_sub_cancel' hge, ← drop_drop, ← drop_drop, hdrop]

/-- Another count in the header leaves the entries where they are. -/
lemma entry_recount (h : EntryAt lp p q) (hlen : lp'.length = lp.length)
    (hdrop : lp'.drop 6 = lp.drop 6) (hmark : lp[5]? = some 255) : EntryAt lp' p q := by
  obtain ⟨e, hback, hlt, hq⟩ := h.back
  have hge : 6 ≤ p := h.ge
  have hend := h.lt_length
  have hback' : lpDecodeBacklen lp' q = some e :=
    decode_recount hdrop hmark (by omega) (by omega) (by omega) hback (by omega)
  have hsame := drop_recount hdrop hge
  have hget : lp'[p]? = lp[p]? := by rw [← head?_drop, ← head?_drop, hsame]
  have hskip := h.skip
  rw [lpSkip, bind_eq_bind, bind_eq_some_iff] at hskip
  obtain ⟨size, hsize, hnext⟩ := hskip
  rw [some.injEq] at hnext
  have hvalid : lpValidateNext lp' (some p) lp'.length = some (.valid (some q)) := by
    rw [← h.valid]
    simp only [lpValidateNext, hlen, hsame, hget, hsize, some_bind, hnext, hback, hback']
  obtain ⟨r, hr, hentry, _⟩ := lpValidateNext_spec lp' p
  rw [hvalid, some.injEq] at hr
  exact hentry q hr.symm

lemma walkable_recount (h : Walkable lp ps)
    (hunknown : lpGetNumElements lp = some lpHdrNumeleUnknown)
    (hset : lpSetNumElements lp ps.length = some lp') (hlt : ps.length < lpHdrNumeleUnknown) :
    Walkable lp' ps ∧ lp'.drop 6 = lp.drop 6 ∧ lpGetNumElements lp' = some ps.length := by
  have hge : 6 + ps.length + 1 ≤ lp.length := h.length_ge
  have hfront : (lp.take 4).length = 4 := by
    rw [length_take]
    omega
  rw [lpSetNumElements, writeLE, store, length_toLE, if_pos (by omega), some.injEq] at hset
  have hset : lp.take 4 ++ toLE 2 ps.length ++ lp.drop 6 = lp' := hset
  subst hset
  have hlen : (lp.take 4 ++ toLE 2 ps.length ++ lp.drop 6).length = lp.length := by
    simp only [length_append, length_toLE, length_take, length_drop]
    omega
  have hdrop : (lp.take 4 ++ toLE 2 ps.length ++ lp.drop 6).drop 6 = lp.drop 6 :=
    drop_left' (by rw [length_append, hfront, length_toLE])
  have hmark : lp[5]? = some 255 := by
    rw [lpGetNumElements, readLE, load_of_le (by omega), drop_eq_getElem_cons (by omega),
      drop_eq_getElem_cons (by omega)] at hunknown
    have hsum : lp[4].toNat + 256 * (lp[5].toNat + 256 * 0) = 65535 := some.inj hunknown
    have := lp[4].toNat_lt
    rw [getElem?_eq_getElem (by omega), some.injEq, ← UInt8.toNat_inj]
    show lp[5].toNat = 255
    omega
  have hnum := readLE_toLE (n := 2) (lp.take 4) (lp.drop 6) (hlt.trans (by decide))
  rw [hfront] at hnum
  refine ⟨⟨?_, ?_, ?_, ?_, _, hnum, .inr rfl⟩, hdrop, hnum⟩
  · rw [hlen, ← h.total, lpGetTotalBytes, lpGetTotalBytes, readLE, readLE, load_of_le (by omega),
      load_of_le (by omega), drop_zero, drop_zero, append_assoc, take_left' hfront]
  · rw [hlen, ← h.eof, ← head?_drop, ← head?_drop, drop_recount hdrop (by omega)]
  · rw [hlen]
    exact h.head
  · rw [hlen]
    exact h.chain.imp fun _ _ hentry => entry_recount hentry hlen hdrop hmark

/-- The elements lie at increasing offsets.  Every index, from either end, finds
the one it counts to, walking back undoes walking on, and the length is found
and, if it fits, written to the header, with the same elements behind it. -/
theorem access_exact (h : Represents lp xs) :
    ∃ ps : List Nat, ps.Pairwise (· < ·) ∧
      ps.map (fun p => elementBytes (lp.drop p)) = xs.map some ∧
      (∀ index, lpSeek lp index = some (atIndex ps index)) ∧
      (∀ i p, ps[i]? = some p → lpNext lp p = some ps[i + 1]?) ∧
      (∀ p ∈ ps, ∀ q, lpNext lp p = some (some q) → lpPrev lp q = some (some p)) ∧
      ∃ lp', lpLength lp = some (xs.length, lp') ∧ Represents lp' xs ∧
        (xs.length < lpHdrNumeleUnknown → lpGetNumElements lp' = some xs.length) := by
  obtain ⟨ps, hwalk, hmap⟩ := exists_walkable h
  have hcount : ps.length = xs.length := by simpa using congrArg length hmap
  have hlt : (ps ++ [lp.length - 1]).Pairwise (· < ·) :=
    isChain_iff_pairwise.mp (hwalk.chain.imp fun _ _ hentry => hentry.lt)
  refine ⟨ps, (pairwise_append.mp hlt).1, hmap, hwalk.seek_eq,
    fun i p hp => (hwalk.neighbours hp).1, ?_, ?_⟩
  · intro p hp q hnext
    obtain ⟨i, hi⟩ := getElem?_of_mem hp
    rw [(hwalk.neighbours hi).1, some.injEq] at hnext
    rw [(hwalk.neighbours hnext).2, if_neg (Nat.succ_ne_zero i), Nat.add_sub_cancel, hi]
  obtain ⟨lp', hrun, hlp'⟩ := hwalk.length_eq
  rw [hcount] at hrun
  refine ⟨lp', hrun, ?_⟩
  rcases hlp' with ⟨rfl, hexact⟩ | ⟨hunknown, hset, hlt⟩
  · exact ⟨h, fun hfits => hcount ▸ hexact.resolve_right (by omega)⟩
  obtain ⟨hwalk', hdrop, hnum⟩ := walkable_recount hwalk hunknown hset hlt
  rw [hcount] at hnum
  refine ⟨⟨(elements_iff hwalk').mpr ?_, hwalk'.total, .inl hnum, hwalk'.validate⟩,
    fun _ => hnum⟩
  rw [← hmap]
  apply map_congr_left
  intro p hp
  obtain ⟨q, hentry⟩ := hwalk.entry_of_mem hp
  rw [drop_recount hdrop hentry.ge]

theorem access_exact_mixed : ∃ p q r, p < q ∧ q < r ∧
    (lpSeek mixed 0 = some (some p) ∧ lpSeek mixed 1 = some (some q)) ∧
    (lpSeek mixed (-1) = some (some r) ∧ lpSeek mixed (-2) = some (some q)) ∧
    lpSeek mixed (-4) = some none ∧
    (lpNext mixed q = some (some r) ∧ lpPrev mixed r = some (some q)) ∧
    ∃ lp', lpLength mixed = some (3, lp') ∧
      Represents lp' (["ab", "1", "-1"].map ofString) ∧ lpGetNumElements lp' = some 3 := by
  have h : Represents mixed (["ab", "1", "-1"].map ofString) :=
    ⟨by decide, by decide, by decide, by decide⟩
  obtain ⟨ps, hlt, hmap, hseek, hnext, hprev, lp', hlen, hlp', hnum⟩ := access_exact h
  have hthree : ps.length = 3 := by simpa using congrArg length hmap
  obtain ⟨p, q, r, rfl⟩ := length_eq_three.mp hthree
  simp only [pairwise_cons, mem_cons, forall_eq_or_imp] at hlt
  have hqr := hnext 1 q rfl
  exact ⟨p, q, r, hlt.1.1, hlt.2.1.1, ⟨hseek 0, hseek 1⟩, ⟨hseek (-1), hseek (-2)⟩, hseek (-4),
    ⟨hqr, hprev q (by simp) r hqr⟩, lp', hlen, hlp', hnum (by decide)⟩

end Dice.Ports.ListpackAccess
