import Mathlib.NumberTheory.Padics.PadicVal.Basic

/-!
# Binary indexed trees

A tree over positions `1 .. n` in which node `i` holds the sum of the
positions from `i - lowbit i` (excluded) to `i`, where `lowbit i` is the lowest
set bit of `i`.  It is described by its cumulative sums: node `i` is the
difference of two of them.  Reading walks down by `lowbit`, an update walks up
by it and meets exactly the nodes that contain the position, and a search
for a cumulative sum descends by powers of two.
-/

namespace Dice.Verified.Fenwick

open Nat

/-- The lowest set bit. -/
def lowbit (n : Nat) : Nat := 2 ^ padicValNat 2 n

lemma lowbit_two_pow_mul (s m : Nat) : lowbit (2 ^ s * (2 * m + 1)) = 2 ^ s := by
  rw [lowbit, padicValNat.mul (by positivity) (by omega), padicValNat.prime_pow,
    padicValNat.eq_zero_of_not_dvd (by omega), add_zero]

variable {n a : Nat} {f : Nat → Int}

lemma exists_lowbit (h : 0 < n) : ∃ s m, n = 2 ^ s * (2 * m + 1) ∧ lowbit n = 2 ^ s := by
  obtain ⟨s, q, hq, rfl⟩ := exists_eq_pow_mul_and_not_dvd (by omega : n ≠ 0) 2 (by decide)
  have hodd : q = 2 * (q / 2) + 1 := by omega
  refine ⟨s, q / 2, by rw [← hodd], ?_⟩
  rw [hodd]
  exact lowbit_two_pow_mul s (q / 2)

lemma lowbit_pos (n : Nat) : 0 < lowbit n := Nat.two_pow_pos _

lemma lowbit_le (h : 0 < n) : lowbit n ≤ n := by
  obtain ⟨s, m, hn, hlow⟩ := exists_lowbit h
  rw [hlow, hn]
  exact Nat.le_mul_of_pos_right _ (by omega)

/-- A multiple of `2 ^ (j + 1)` with bit `j` set. -/
theorem lowbit_add_two_pow {r j : Nat} (h : 2 ^ (j + 1) ∣ r) : lowbit (r + 2 ^ j) = 2 ^ j := by
  obtain ⟨m, rfl⟩ := h
  have : 2 ^ (j + 1) * m + 2 ^ j = 2 ^ j * (2 * m + 1) := by ring
  rw [this, lowbit_two_pow_mul]

/-- Two's complement negation leaves the lowest set bit in common. -/
theorem toNat_and_neg {w : Nat} (v : BitVec w) (h : 0 < v.toNat) :
    (v &&& -v).toNat = lowbit v.toNat := by
  obtain ⟨s, m, hn, hlow⟩ := exists_lowbit h
  have hlt := v.isLt
  have hsw : s < w := by
    apply Classical.byContradiction
    intro hge
    have hpow : 2 ^ w ≤ 2 ^ s := Nat.pow_le_pow_right (by decide) (by omega)
    have := lowbit_le h
    omega
  have hpow : 2 ^ w = 2 ^ s * (2 * 2 ^ (w - s - 1)) := by
    rw [← Nat.pow_succ', ← Nat.pow_add]
    congr 1
    omega
  have hm : m < 2 ^ (w - s - 1) := by
    rw [hn, hpow] at hlt
    have := lt_of_mul_lt_mul_left hlt
    omega
  have hneg : (-v).toNat = 2 ^ s * (2 * (2 ^ (w - s - 1) - (m + 1)) + 1) := by
    rw [BitVec.toNat_neg, Nat.mod_eq_of_lt (by omega), hpow, hn, ← Nat.mul_sub]
    congr 1
    omega
  rw [BitVec.toNat_and, hlow, hneg, hn]
  apply eq_of_testBit_eq
  intro i
  rw [testBit_and, testBit_two_pow_mul, testBit_two_pow_mul]
  by_cases hi : s ≤ i
  · cases hd : i - s with
    | zero =>
      have : s = i := by omega
      simp [this]
    | succ j =>
      have hne : s ≠ i := by omega
      have hodd : ∀ a, (2 * a + 1).testBit (j + 1) = a.testBit j := by
        intro a
        rw [testBit_succ]
        congr 1
        omega
      rw [hodd, hodd, testBit_two_pow_sub_succ hm]
      cases m.testBit j <;> simp [hne]
  · have hne : s ≠ i := by omega
    simp [hi, hne]

/-- Node `i` contains position `p`. -/
def Covers (i p : Nat) : Prop := i - lowbit i < p ∧ p ≤ i

instance (i p : Nat) : Decidable (Covers i p) := inferInstanceAs (Decidable (_ ∧ _))

/-- The nodes that contain a position are the one of that number and those that
contain the next position an update goes to. -/
theorem covers_step {p : Nat} (hp : 0 < p) (i : Nat) (hi : 0 < i) :
    Covers i p ↔ i = p ∨ Covers i (p + lowbit p) := by
  obtain ⟨s, m, hsi, hlowi⟩ := exists_lowbit hi
  obtain ⟨t, k, htp, hlowp⟩ := exists_lowbit hp
  have hbase : i - lowbit i = 2 ^ (s + 1) * m := by
    rw [hlowi, pow_succ]
    have : 2 ^ s * (2 * m + 1) = 2 ^ s * 2 * m + 2 ^ s := by ring
    omega
  have hdvdp : 2 ^ t ∣ p := ⟨_, htp⟩
  rw [Covers, Covers, hbase]
  constructor
  · rintro ⟨hlt, hle⟩
    by_cases heq : i = p
    · exact .inl heq
    refine .inr ⟨by omega, ?_⟩
    -- the position is a multiple of a smaller power of two only
    have hts : t < s := by
      apply Classical.byContradiction
      intro hge
      obtain ⟨c, hc⟩ := dvd_trans (pow_dvd_pow 2 (by omega : s ≤ t)) hdvdp
      have h1 : 2 ^ s * (2 * m) < 2 ^ s * c := by
        rw [← hc]
        calc 2 ^ s * (2 * m) = 2 ^ (s + 1) * m := by ring
          _ < p := hlt
      have h2 : 2 ^ s * c < 2 ^ s * (2 * m + 1) := by omega
      have := lt_of_mul_lt_mul_left h1
      have := lt_of_mul_lt_mul_left h2
      omega
    have hdvd : 2 ^ t ∣ i - p := by
      apply dvd_sub _ hdvdp
      rw [hsi]
      exact dvd_trans (pow_dvd_pow 2 (by omega)) (dvd_mul_right _ _)
    have := le_of_dvd (by omega) hdvd
    omega
  · rintro (rfl | ⟨hlt, hle⟩)
    · refine ⟨?_, le_refl _⟩
      omega
    refine ⟨?_, by omega⟩
    apply Classical.byContradiction
    intro hge
    by_cases hts : t ≤ s
    · -- the base of node i would be the position itself, but has more low zeros
      have hdvd : 2 ^ t ∣ 2 ^ (s + 1) * m - p := dvd_sub
        (dvd_trans (pow_dvd_pow 2 (by omega)) (dvd_mul_right _ _)) hdvdp
      have hsame : 2 ^ (s + 1) * m = p := by
        rcases Nat.eq_zero_or_pos (2 ^ (s + 1) * m - p) with h0 | hpos
        · omega
        · have := le_of_dvd hpos hdvd
          omega
      have hdvd' : 2 ^ (t + 1) ∣ p := by
        rw [← hsame]
        exact dvd_trans (pow_dvd_pow 2 (by omega)) (dvd_mul_right _ _)
      obtain ⟨c, hc⟩ := hdvd'
      rw [htp, pow_succ, mul_assoc] at hc
      have := Nat.eq_of_mul_eq_mul_left (Nat.two_pow_pos t) hc
      omega
    · have hdvd : 2 ^ (s + 1) ∣ p + 2 ^ t - 2 ^ (s + 1) * m := by
        apply Nat.dvd_sub _ (Nat.dvd_mul_right _ _)
        have hpow : 2 ^ (s + 1) ∣ 2 ^ t := Nat.pow_dvd_pow 2 (by omega)
        exact dvd_add (dvd_trans hpow hdvdp) hpow
      have := le_of_dvd (by omega) hdvd
      omega

/-- `T` is the tree over `1 .. n` of the cumulative sums `P`. -/
def IsTree (n : Nat) (P T : Nat → Int) : Prop := ∀ i, 0 < i → i ≤ n → T i = P i - P (i - lowbit i)

/-- Adding to the nodes that contain a position. -/
theorem IsTree.update {p : Nat} {P P' T T' : Nat → Int} {delta : Int} (h : IsTree n P T)
    (hP : ∀ i, P' i = P i + if p ≤ i then delta else 0)
    (hT : ∀ i, 0 < i → i ≤ n → T' i = T i + if Covers i p then delta else 0) : IsTree n P' T' := by
  intro i hpos hle
  rw [hT i hpos hle, h i hpos hle, hP i, hP (i - lowbit i)]
  have hcovers : Covers i p ↔ i - lowbit i < p ∧ p ≤ i := Iff.rfl
  grind

/-- The sum of the first positions. -/
def cumulative (f : Nat → Int) (i : Nat) : Int := ∑ j ∈ Finset.range i, f j

@[simp] lemma cumulative_zero (f : Nat → Int) : cumulative f 0 = 0 := rfl

lemma cumulative_succ (f : Nat → Int) (i : Nat) :
    cumulative f (i + 1) = cumulative f i + f i := Finset.sum_range_succ f i

lemma cumulative_eq_zero (h : ∀ j < n, f j = 0) {i : Nat} (hi : i ≤ n) : cumulative f i = 0 := by
  apply Finset.sum_eq_zero
  intro j hj
  exact h j (by have := Finset.mem_range.mp hj; omega)

/-- A change at one position. -/
theorem cumulative_change (f f' : Nat → Int) (h : ∀ j, j ≠ a → f' j = f j)
    (i : Nat) : cumulative f' i = cumulative f i + if a + 1 ≤ i then f' a - f a else 0 := by
  induction i with
  | zero => simp
  | succ i ih =>
    rw [cumulative_succ, cumulative_succ, ih]
    rcases lt_trichotomy a i with hlt | rfl | hgt
    · rw [h i (by omega)]
      omega
    · omega
    · rw [h i (by omega)]
      omega

lemma cumulative_mono (hf : ∀ j, 0 ≤ f j) {b : Nat} (h : a ≤ b) :
    cumulative f a ≤ cumulative f b := by
  apply Finset.sum_le_sum_of_subset_of_nonneg (Finset.range_mono h)
  intro i _ _
  exact hf i

/-- A node that contains a position holds at least its value. -/
theorem le_cumulative_sub (hf : ∀ j, 0 ≤ f j) {j b : Nat} (haj : a ≤ j)
    (hjb : j < b) : f j ≤ cumulative f b - cumulative f a := by
  induction b with
  | zero => omega
  | succ b ih =>
    rw [cumulative_succ]
    have hb := hf b
    rcases lt_or_ge j b with hlt | hge
    · have := ih hlt
      omega
    have hjb' : j = b := by omega
    subst hjb'
    have := cumulative_mono hf haj
    omega

/-- Counting as a sum. -/
theorem countP_range (p : Nat → Bool) (n : Nat) :
    ((List.range n).countP p : Int) = cumulative (fun j => if p j then 1 else 0) n := by
  induction n with
  | zero => rfl
  | succ n ih =>
    rw [List.range_succ, List.countP_append, cast_add, ih, cumulative_succ, List.countP_singleton]
    split <;> simp

end Dice.Verified.Fenwick
