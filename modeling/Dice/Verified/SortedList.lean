import Mathlib.Order.Lattice
import Mathlib.Data.List.Basic

/-!
# Sorted lists

Lists without repetition in the order of a linear order.  A property that is
inherited by smaller elements holds on the front of such a list only; whoever
finds one place where it stops to hold has found where to cut the list.
-/

namespace Dice.Verified.SortedList

open List

variable {α : Type*}

variable {p : α → Bool} {xs ys : List α}

lemma filter_append_left (hxs : ∀ x ∈ xs, p x)
    (hys : ∀ y ∈ ys, p y = false) : (xs ++ ys).filter p = xs := by
  rw [filter_append, filter_eq_self.mpr hxs,
    filter_eq_nil_iff.mpr fun y hy => by simp [hys y hy], append_nil]

lemma filter_append_right (hxs : ∀ x ∈ xs, p x = false)
    (hys : ∀ y ∈ ys, p y) : (xs ++ ys).filter p = ys := by
  rw [filter_append, filter_eq_self.mpr hys,
    filter_eq_nil_iff.mpr fun x hx => by simp [hxs x hx], nil_append]

/-- What a range takes out of the middle, and what it leaves. -/
theorem filter_middle {zs : List α} (hxs : ∀ x ∈ xs, p x = false)
    (hys : ∀ y ∈ ys, p y) (hzs : ∀ z ∈ zs, p z = false) :
    (xs ++ (ys ++ zs)).filter p = ys ∧ (xs ++ (ys ++ zs)).filter (!p ·) = xs ++ zs := by
  constructor
  · rw [filter_append, filter_eq_nil_iff.mpr fun x hx => by simp [hxs x hx],
      nil_append, filter_append_left hys hzs]
  · rw [filter_append, filter_eq_self.mpr fun x hx => by simp [hxs x hx],
      filter_append_right (fun y hy => by simp [hys y hy]) fun z hz => by simp [hzs z hz]]

/-- The second list has one more element somewhere. -/
def Adds (x : α) (xs ys : List α) : Prop := ∃ as bs, xs = as ++ bs ∧ ys = as ++ x :: bs

section Adds

variable {x : α} {xs ys : List α}

lemma Adds.map {β : Type*} (f : α → β) (h : Adds x xs ys) : Adds (f x) (xs.map f) (ys.map f) := by
  obtain ⟨as, bs, rfl, rfl⟩ := h
  exact ⟨as.map f, bs.map f, map_append, by rw [map_append, map_cons]⟩

lemma Adds.append (h : Adds x xs ys) (pre post : List α) :
    Adds x (pre ++ (xs ++ post)) (pre ++ (ys ++ post)) := by
  obtain ⟨as, bs, rfl, rfl⟩ := h
  exact ⟨pre ++ as, bs ++ post, by simp, by simp⟩

lemma Adds.length (h : Adds x xs ys) : ys.length = xs.length + 1 := by
  obtain ⟨as, bs, rfl, rfl⟩ := h
  simp only [length_append, length_cons]
  omega

lemma Adds.mem_iff (h : Adds x xs ys) {y : α} : y ∈ ys ↔ y = x ∨ y ∈ xs := by
  obtain ⟨as, bs, rfl, rfl⟩ := h
  simp only [mem_append, mem_cons]
  tauto

lemma Adds.singleton (h : Adds x [] ys) : ys = [x] := by
  obtain ⟨as, bs, hnil, rfl⟩ := h
  obtain ⟨rfl, rfl⟩ := append_eq_nil_iff.mp hnil.symm
  rfl

end Adds

variable [LinearOrder α]

/-- Strictly increasing. -/
def Sorted (xs : List α) : Prop := xs.Pairwise (· < ·)

/-- Where a property that smaller elements inherit stops to hold. -/
theorem Sorted.cut {p : α → Prop} (h : Sorted (xs ++ ys))
    (hp : ∀ a ∈ xs ++ ys, ∀ b ∈ xs ++ ys, a < b → p b → p a) (hlast : ∀ x ∈ xs.getLast?, p x)
    (hhead : ∀ y ∈ ys.head?, ¬ p y) : (∀ x ∈ xs, p x) ∧ ∀ y ∈ ys, ¬ p y := by
  have hpair := pairwise_append.mp h
  constructor
  · intro x hx
    rcases eq_nil_or_concat' xs with rfl | ⟨zs, z, rfl⟩
    · simp at hx
    have hz : p z := hlast z (by simp)
    rcases mem_append.mp hx with hx | hx
    · exact hp x (by simp [hx]) z (by simp) ((pairwise_append.mp hpair.1).2.2 x hx z (by simp)) hz
    · rwa [mem_singleton.mp hx]
  intro y hy
  cases ys with
  | nil => simp at hy
  | cons z zs =>
    have hz : ¬ p z := hhead z rfl
    rcases mem_cons.mp hy with rfl | hy
    · exact hz
    · exact fun hpy => hz (hp z (by simp) y (by simp [hy])
        ((pairwise_cons.mp hpair.2.1).1 y hy) hpy)

/-- The list with `k` at its place. -/
def insertKey (k : α) (xs : List α) : List α := xs.filter (· < k) ++ k :: xs.filter (k < ·)

lemma insertKey_append {k : α} (hxs : ∀ x ∈ xs, x < k)
    (hys : ∀ y ∈ ys, k < y) : insertKey k (xs ++ ys) = xs ++ k :: ys := by
  rw [insertKey, filter_append_left, filter_append_right]
  · exact fun x hx => decide_eq_false (hxs x hx).not_gt
  · exact fun y hy => decide_eq_true (hys y hy)
  · exact fun x hx => decide_eq_true (hxs x hx)
  · exact fun y hy => decide_eq_false (hys y hy).not_gt

lemma Sorted.insertKey {k : α} (h : Sorted xs) : Sorted (insertKey k xs) := by
  rw [SortedList.insertKey, Sorted, pairwise_append, pairwise_cons]
  refine ⟨h.filter _, ⟨?_, h.filter _⟩, ?_⟩
  · intro y hy
    exact of_decide_eq_true (mem_filter.mp hy).2
  intro x hx y hy
  have hxk : x < k := of_decide_eq_true (mem_filter.mp hx).2
  rcases mem_cons.mp hy with rfl | hy
  · exact hxk
  · exact hxk.trans (of_decide_eq_true (mem_filter.mp hy).2)

/-- Cutting out the element with a key. -/
theorem Sorted.filter_ne {β : Type*} {f : β → α} {x : β} {xs ys : List β} {p : β → Bool}
    (h : Sorted ((xs ++ x :: ys).map f)) (hp : ∀ z, p z ↔ f z ≠ f x) :
    (xs ++ x :: ys).filter p = xs ++ ys := by
  rw [map_append] at h
  have hpair := pairwise_append.mp h
  have hys := (pairwise_cons.mp hpair.2.1).1
  rw [filter_append, filter_cons_of_neg (by simp [hp]), filter_eq_self.mpr, filter_eq_self.mpr]
  · exact fun y hy => (hp y).mpr (hys _ (mem_map_of_mem hy)).ne'
  · exact fun z hz => (hp z).mpr (hpair.2.2 _ (mem_map_of_mem hz) _ (mem_cons_self ..)).ne

lemma Adds.not_mem {x : α} (h : Adds x xs ys) (hys : Sorted ys) : x ∉ xs := by
  obtain ⟨as, bs, rfl, rfl⟩ := h
  rw [Sorted, pairwise_append, pairwise_cons] at hys
  intro hx
  rcases mem_append.mp hx with hx | hx
  · exact lt_irrefl x (hys.2.2 x hx x (mem_cons_self ..))
  · exact lt_irrefl x (hys.2.1.1 x hx)

end Dice.Verified.SortedList
