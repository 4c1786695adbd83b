import Mathlib.Data.Nat.Bitwise

/-!
# Cursors counted from the highest bit

A cursor of `w` bits that is incremented on its reversed bits.  Its rank is
the number the reversed bits make.  A table of `2 ^ k` buckets, in which the
bucket of a number is given by its lowest `k` bits, cuts the ranks into
`2 ^ k` blocks of equal length, so that tables of different sizes only cut the
same line of ranks more or less finely.  Setting the bits the table does not use
and incrementing takes the cursor from anywhere in a block to the next one.
-/

namespace Dice.Verified.ReverseCursor

open Nat BitVec

variable {w : Nat}

/-- The place of a cursor in the order of reversed bits. -/
def rank (v : BitVec w) : Nat := v.reverse.toNat

lemma rank_lt (v : BitVec w) : rank v < 2 ^ w := v.reverse.isLt

lemma testBit_rank (v : BitVec w) (i : Nat) :
    (rank v).testBit i = (decide (i < w) && v.getLsbD (w - 1 - i)) := by
  rw [rank, testBit_toNat, getLsbD_reverse, getMsbD_eq_getLsbD]

lemma rank_eq_zero_iff (v : BitVec w) : rank v = 0 ↔ v = 0 := by
  rw [rank, ← toNat_zero (w := w), toNat_inj]
  exact reverse_eq_zero_iff

variable {k r : Nat}

/-- The cursors of one bucket are the ranks of one block. -/
theorem mod_eq_iff_div_eq (hk : k ≤ w) (u v : BitVec w) :
    u.toNat % 2 ^ k = v.toNat % 2 ^ k ↔ rank u / 2 ^ (w - k) = rank v / 2 ^ (w - k) := by
  constructor
  · intro h
    apply eq_of_testBit_eq
    intro i
    rw [testBit_div_two_pow, testBit_div_two_pow, testBit_rank, testBit_rank]
    by_cases hi : i + (w - k) < w
    · have hbit := congrArg (fun n => n.testBit (w - 1 - (i + (w - k)))) h
      simp only [testBit_mod_two_pow, testBit_toNat] at hbit
      have hlt : w - 1 - (i + (w - k)) < k := by omega
      simp only [hlt, decide_true, Bool.true_and] at hbit
      rw [hbit]
    · simp [hi]
  intro h
  apply eq_of_testBit_eq
  intro i
  rw [testBit_mod_two_pow, testBit_mod_two_pow]
  by_cases hi : i < k
  · have hbit := congrArg (fun n => n.testBit (k - 1 - i)) h
    simp only [testBit_div_two_pow, testBit_rank] at hbit
    have hlt : k - 1 - i + (w - k) < w := by omega
    have hpos : w - 1 - (k - 1 - i + (w - k)) = i := by omega
    simp only [hlt, hpos, decide_true, Bool.true_and] at hbit
    simp only [testBit_toNat, hbit]
  · simp [hi]

/-- The bits that a table of `2 ^ k` buckets uses. -/
def mask (w k : Nat) : BitVec w := BitVec.ofNat w (2 ^ k - 1)

lemma getLsbD_mask (k i : Nat) : (mask w k).getLsbD i = (decide (i < w) && decide (i < k)) := by
  rw [mask, getLsbD_ofNat, testBit_two_pow_sub_one]

/-- The cursor after the bucket that `v` is in. -/
def next (k : Nat) (v : BitVec w) : BitVec w := ((v ||| ~~~mask w k).reverse + 1).reverse

/-- The end of the block that a rank is in. -/
def blockEnd (w k r : Nat) : Nat := (r / 2 ^ (w - k) + 1) * 2 ^ (w - k)

lemma lt_blockEnd (k r : Nat) : r < blockEnd w k r := by
  rw [blockEnd, mul_comm]
  exact Nat.lt_mul_div_succ r (Nat.two_pow_pos _)

/-- All ranks, cut into blocks. -/
theorem two_pow_eq_mul (hk : k ≤ w) : 2 ^ w = 2 ^ k * 2 ^ (w - k) := by
  rw [← pow_add]
  congr 1
  omega

lemma blockEnd_le (hk : k ≤ w) (hr : r < 2 ^ w) : blockEnd w k r ≤ 2 ^ w := by
  rw [two_pow_eq_mul hk]
  apply Nat.mul_le_mul_right
  apply Nat.div_lt_of_lt_mul
  rwa [Nat.mul_comm, ← two_pow_eq_mul hk]

lemma dvd_blockEnd (k r : Nat) : 2 ^ (w - k) ∣ blockEnd w k r := dvd_mul_left _ _

/-- Up to the end of its block a rank stays in the block. -/
theorem div_eq_of_lt_blockEnd {s : Nat} (hle : r ≤ s) (hlt : s < blockEnd w k r) :
    s / 2 ^ (w - k) = r / 2 ^ (w - k) := by
  apply le_antisymm
  · exact Nat.le_of_lt_succ (Nat.div_lt_of_lt_mul (by rwa [Nat.mul_comm]))
  · exact Nat.div_le_div_right hle

/-- No block ends between a rank and the end of its block. -/
theorem blockEnd_le_of_dvd {m : Nat} (hlt : r < m) (hdvd : 2 ^ (w - k) ∣ m) :
    blockEnd w k r ≤ m := by
  obtain ⟨c, rfl⟩ := hdvd
  rw [mul_comm (2 ^ (w - k)) c]
  apply Nat.mul_le_mul_right
  exact Nat.div_lt_of_lt_mul hlt

lemma blockEnd_eq_of_lt {s : Nat} (hle : r ≤ s) (hlt : s < blockEnd w k r) :
    blockEnd w k s = blockEnd w k r := by
  rw [blockEnd, blockEnd, div_eq_of_lt_blockEnd hle hlt]

/-- A block of a smaller table is made of blocks of a larger one. -/
theorem two_pow_sub_dvd {k0 k1 : Nat} (hle : k0 ≤ k1) : 2 ^ (w - k1) ∣ 2 ^ (w - k0) :=
  pow_dvd_pow 2 (by omega)

lemma or_two_pow_sub_one (r n : Nat) : r ||| (2 ^ n - 1) = r / 2 ^ n * 2 ^ n + (2 ^ n - 1) := by
  apply eq_of_testBit_eq
  intro i
  rw [testBit_or, testBit_two_pow_sub_one, mul_comm,
    Nat.testBit_two_pow_mul_add _ (by have := Nat.two_pow_pos n; omega)]
  by_cases hi : i < n
  · simp [hi]
  · simp only [hi, decide_false, Bool.or_false, testBit_div_two_pow]
    congr 1
    omega

/-- Setting the bits a table does not use fills the rank up to the end of its block. -/
theorem rank_or_not_mask (hk : k ≤ w) (v : BitVec w) :
    rank (v ||| ~~~mask w k) = rank v ||| (2 ^ (w - k) - 1) := by
  apply eq_of_testBit_eq
  intro i
  rw [testBit_or, testBit_rank, testBit_rank, getLsbD_or, getLsbD_not, getLsbD_mask]
  by_cases hi : i < w
  · have hiff : decide (w - 1 - i < k) = !decide (i < w - k) := by
      by_cases h : i < w - k
      · simp only [h, decide_true, Bool.not_true, decide_eq_false_iff_not]
        omega
      · simp only [h, decide_false, Bool.not_false, decide_eq_true_eq]
        omega
    have hlt : w - 1 - i < w := by omega
    simp [hi, hiff, hlt]
  · have hno : ¬ i < w - k := by omega
    simp [hi, hno]

lemma rank_next (hk : k ≤ w) (v : BitVec w) : rank (next k v) = blockEnd w k (rank v) % 2 ^ w := by
  have hinc : rank (next k v) = (rank (v ||| ~~~mask w k) + 1) % 2 ^ w := by
    rw [rank, next, reverse_reverse_eq, toNat_add, rank, ofNat_eq_ofNat,
      toNat_ofNat, Nat.add_mod_mod]
  rw [hinc, rank_or_not_mask hk, or_two_pow_sub_one, blockEnd, Nat.add_mul, Nat.one_mul,
    Nat.add_assoc, Nat.sub_add_cancel (Nat.two_pow_pos _)]

lemma two_pow_dvd_iff (r n : Nat) : 2 ^ n ∣ r ↔ ∀ i < n, r.testBit i = false := by
  rw [dvd_iff_mod_eq_zero]
  constructor
  · intro h i hi
    have hbit := congrArg (fun m => m.testBit i) h
    simpa [hi] using hbit
  intro h
  apply eq_of_testBit_eq
  intro i
  by_cases hi : i < n
  · simp [h i hi]
  · simp [hi]

/-- A cursor at the start of a block of the larger table is at the start of a
block of the smaller one when the bits between the two masks are clear. -/
theorem and_xor_mask_eq_zero_iff {k0 k1 : Nat} (hle : k0 ≤ k1) (hk : k1 ≤ w) {v : BitVec w}
    (hv : 2 ^ (w - k1) ∣ rank v) : v &&& (mask w k0 ^^^ mask w k1) = 0 ↔ 2 ^ (w - k0) ∣ rank v := by
  rw [two_pow_dvd_iff] at hv ⊢
  constructor
  · intro h i hi
    by_cases hlow : i < w - k1
    · exact hv i hlow
    have hbit := congrArg (fun u => u.getLsbD (w - 1 - i)) h
    have h0 : ¬ w - 1 - i < k0 := by omega
    have h1 : w - 1 - i < k1 := by omega
    have hw : w - 1 - i < w := by omega
    simp only [getLsbD_and, getLsbD_xor, getLsbD_mask, h0, h1, hw] at hbit
    rw [testBit_rank]
    simp only [decide_true, decide_false, Bool.and_false, Bool.false_xor,
      Bool.and_true, ofNat_eq_ofNat, getLsbD_zero] at hbit
    rw [hbit, Bool.and_false]
  intro h
  apply eq_of_getLsbD_eq
  intro i hi
  rw [getLsbD_and, getLsbD_xor, getLsbD_mask, getLsbD_mask, ofNat_eq_ofNat, getLsbD_zero]
  by_cases h0 : i < k0
  · have h1 : i < k1 := by omega
    simp [h0, h1]
  have hbit := h (w - 1 - i) (by omega)
  have hw : w - 1 - i < w := by omega
  have hpos : w - 1 - (w - 1 - i) = i := by omega
  rw [testBit_rank, hpos] at hbit
  simp only [hw, decide_true, Bool.true_and] at hbit
  rw [hbit, Bool.false_and]

end Dice.Verified.ReverseCursor
