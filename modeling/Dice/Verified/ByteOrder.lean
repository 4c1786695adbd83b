import Dice.Verified.CString
import Mathlib.Data.List.Lex

/-!
# The order of byte strings

Bytes are ordered as unsigned numbers and byte strings lexicographically, which
is what `memcmp` on the common length and then the lengths decide.
-/

namespace Dice.Verified.ByteOrder

open CString List

instance instLinearOrderUInt8 : LinearOrder UInt8 where
  le_refl := UInt8.le_refl
  le_trans _ _ _ := UInt8.le_trans
  le_antisymm _ _ := UInt8.le_antisymm
  le_total := UInt8.le_total
  lt_iff_le_not_ge a b := by
    simp only [UInt8.not_le, iff_and_self]
    exact UInt8.le_of_lt
  toDecidableLE := inferInstance

/-- `memcmp` of as many bytes as both have. -/
def memcmp : Bytes → Bytes → Int
  | x :: xs, y :: ys => if x = y then memcmp xs ys else (x.toNat : Int) - y.toNat
  | _, _ => 0

/-- The difference of the first bytes that differ, or of the lengths. -/
def compareBytes (a b : Bytes) : Int :=
  if memcmp a b = 0 then (a.length : Int) - b.length else memcmp a b

lemma compareBytes_cons (x y : UInt8) (a b : Bytes) : compareBytes (x :: a) (y :: b) =
    if x = y then compareBytes a b else (x.toNat : Int) - y.toNat := by
  rw [compareBytes, memcmp]
  split
  · rw [length_cons, length_cons]
    congr 1
    omega
  next hne =>
    have : x.toNat ≠ y.toNat := fun h => hne (UInt8.toNat_inj.mp h)
    rw [if_neg (by omega)]

variable {a b : Bytes}

lemma compareBytes_lt : compareBytes a b < 0 ↔ a < b := by
  induction a generalizing b with
  | nil =>
    cases b with
    | nil => simp [compareBytes, memcmp]
    | cons y b =>
      simp only [compareBytes, memcmp, if_true, length_nil, length_cons, nil_lt_cons, iff_true]
      omega
  | cons x a ih =>
    cases b with
    | nil =>
      simp only [compareBytes, memcmp, length_nil, not_lt_nil, iff_false]
      omega
    | cons y b =>
      rw [compareBytes_cons, cons_lt_cons_iff]
      split
      next heq => simp [heq, ih]
      next hne =>
        rw [UInt8.lt_iff_toNat_lt]
        simp only [hne, false_and, or_false]
        omega

lemma memcmp_swap (a b : Bytes) : memcmp b a = -memcmp a b := by
  induction a generalizing b with
  | nil => cases b <;> rfl
  | cons x a ih =>
    cases b with
    | nil => rfl
    | cons y b => by_cases h : x = y <;> simp [memcmp, h, ih, Ne.symm, Int.neg_sub]

lemma compareBytes_pos : 0 < compareBytes a b ↔ b < a := by
  rw [← compareBytes_lt, compareBytes, compareBytes, memcmp_swap a b]
  split_ifs <;> omega

lemma compareBytes_eq : compareBytes a b = 0 ↔ a = b := by
  have hlt := compareBytes_lt (a := a) (b := b)
  have hpos := compareBytes_pos (a := a) (b := b)
  constructor
  · intro h
    exact le_antisymm (not_lt.mp (mt hpos.mpr (by omega))) (not_lt.mp (mt hlt.mpr (by omega)))
  · rintro rfl
    have h1 := mt hlt.mp (lt_irrefl a)
    have h2 := mt hpos.mp (lt_irrefl a)
    omega

end Dice.Verified.ByteOrder
