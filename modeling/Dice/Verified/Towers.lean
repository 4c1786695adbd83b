import Mathlib.Data.List.Basic

/-!
# Towers in a row

A list whose elements have heights, with links on every level: the link of an
element on a level that it reaches leads to the next element that reaches it
too, and says how far away that is; if there is none it says how far away the

end is.  Replacing a part of the list changes, on each level, only the link of

the last element before that part which reaches the level.
-/

namespace Dice.Verified.Towers

open List

/-- A link: where it leads to, and how far away that is. -/
structure Link (κ : Type*) where
  forward : Option κ
  span : Nat
  deriving DecidableEq, Repr

variable {α κ : Type*} (height : α → Nat) (key : α → κ)

/-- The first element that reaches level `i`. -/
def above (i : Nat) : List α → Option α
  | [] => none
  | x :: xs => if i < height x then some x else above i xs

/-- How far it is to that element, or to the end. -/
def dist (i : Nat) : List α → Nat
  | [] => 0
  | x :: xs => if i < height x then 1 else dist i xs + 1

/-- The links of level `i` are right. -/
def Linked (i : Nat) (link : κ → Option (Link κ)) : List α → Prop
  | [] => True
  | x :: xs =>
    (i < height x → link (key x) = some ⟨(above height i xs).map key, dist height i xs⟩) ∧
      Linked i link xs

/-- No element reaches level `i`. -/
def Low (i : Nat) (xs : List α) : Prop := ∀ x ∈ xs, height x ≤ i

variable {height key} {i : Nat} {xs ys : List α}

lemma Low.append (hxs : Low height i xs) (hys : Low height i ys) : Low height i (xs ++ ys) := by
  intro x hx
  rcases mem_append.mp hx with hx | hx
  · exact hxs x hx
  · exact hys x hx

lemma Low.mono {j : Nat} (h : Low height i xs) (hij : i ≤ j) : Low height j xs :=
  fun x hx => Nat.le_trans (h x hx) hij

lemma above_append_low (h : Low height i xs) (ys : List α) :
    above height i (xs ++ ys) = above height i ys := by
  induction xs with
  | nil => rfl
  | cons x xs ih =>
    have hx := h x (mem_cons_self ..)
    rw [cons_append, above, if_neg (by omega), ih fun y hy => h y (mem_cons_of_mem _ hy)]

lemma dist_append_low (h : Low height i xs) (ys : List α) :
    dist height i (xs ++ ys) = xs.length + dist height i ys := by
  induction xs with
  | nil => rw [nil_append, length_nil, Nat.zero_add]
  | cons x xs ih =>
    have hx := h x (mem_cons_self ..)
    rw [cons_append, dist, if_neg (by omega),
      ih fun y hy => h y (mem_cons_of_mem _ hy), length_cons]
    omega

variable {x u : α}

lemma above_cons_high (hx : i < height x) (xs : List α) :
    above height i (x :: xs) = some x := if_pos hx

lemma dist_cons_high (hx : i < height x) (xs : List α) : dist height i (x :: xs) = 1 := if_pos hx

lemma above_cons_low (hx : height x ≤ i) (xs : List α) :
    above height i (x :: xs) = above height i xs := if_neg (Nat.not_lt.mpr hx)

lemma dist_cons_low (hx : height x ≤ i) (xs : List α) :
    dist height i (x :: xs) = dist height i xs + 1 := if_neg (Nat.not_lt.mpr hx)

/-- What follows an element that reaches the level does not matter. -/
theorem above_append_cons (hu : i < height u) (xs ys zs : List α) :
    above height i (xs ++ u :: ys) = above height i (xs ++ u :: zs) := by
  induction xs with
  | nil => rw [nil_append, nil_append, above, above, if_pos hu, if_pos hu]
  | cons x xs ih => rw [cons_append, cons_append, above, above, ih]

lemma dist_append_cons (hu : i < height u) (xs ys zs : List α) :
    dist height i (xs ++ u :: ys) = dist height i (xs ++ u :: zs) := by
  induction xs with
  | nil => rw [nil_append, nil_append, dist, dist, if_pos hu, if_pos hu]
  | cons x xs ih => rw [cons_append, cons_append, dist, dist, ih]

section

variable {β : Type*} (f : β → α) (xs : List β)

lemma above_map : above height i (xs.map f) = (above (fun x => height (f x)) i xs).map f := by
  induction xs with
  | nil => rfl
  | cons x xs ih =>
    rw [map_cons, above, above, ih]
    split <;> rfl

lemma dist_map : dist height i (xs.map f) = dist (fun x => height (f x)) i xs := by
  induction xs with
  | nil => rfl
  | cons x xs ih => rw [map_cons, dist, dist, ih]

end

lemma above_eq_none (h : above height i xs = none) : Low height i xs := by
  induction xs with
  | nil => simp [Low]
  | cons x xs ih =>
    rw [above] at h
    split at h
    · cases h
    next hx =>
      intro y hy
      rcases mem_cons.mp hy with rfl | hy
      · omega
      · exact ih h y hy

lemma above_of_low (h : Low height i xs) : above height i xs = none := by
  have := above_append_low h []
  rwa [append_nil] at this

lemma dist_of_low (h : Low height i xs) : dist height i xs = xs.length := by
  have := dist_append_low h []
  rwa [append_nil] at this

/-- The next element that reaches the level, and what lies before it. -/
theorem above_eq_some {y : α} (h : above height i xs = some y) :
    ∃ low rest, xs = low ++ y :: rest ∧ Low height i low ∧ i < height y ∧
    dist height i xs = low.length + 1 := by
  induction xs with
  | nil => cases h
  | cons x xs ih =>
    rw [above] at h
    split at h
    next hx =>
      cases h
      exact ⟨[], xs, rfl, by simp [Low], hx, by rw [dist, if_pos hx]; rfl⟩
    next hx =>
      obtain ⟨low, rest, rfl, hlow, hy, hdist⟩ := ih h
      refine ⟨x :: low, rest, rfl, ?_, hy, by rw [dist, if_neg hx, hdist]; rfl⟩
      intro z hz
      rcases mem_cons.mp hz with rfl | hz
      · omega
      · exact hlow z hz

variable {link link' : κ → Option (Link κ)}

lemma Linked.congr (h : Linked height key i link xs)
    (heq : ∀ x ∈ xs, i < height x → link' (key x) = link (key x)) :
    Linked height key i link' xs := by
  induction xs with
  | nil => trivial
  | cons x xs ih =>
    refine ⟨fun hx => ?_, ih h.2 fun y hy => heq y (mem_cons_of_mem _ hy)⟩
    rw [heq x (mem_cons_self ..) hx]
    exact h.1 hx

lemma Linked.of_append (h : Linked height key i link (xs ++ ys)) : Linked height key i link ys := by
  induction xs with
  | nil => exact h
  | cons x xs ih => exact ih h.2

lemma linked_append_low (hlow : Low height i xs) :
    Linked height key i link (xs ++ ys) ↔ Linked height key i link ys := by
  induction xs with
  | nil => rfl
  | cons x xs ih =>
    have hx := hlow x (mem_cons_self ..)
    rw [cons_append, Linked, ih fun y hy => hlow y (mem_cons_of_mem _ hy)]
    constructor
    · exact And.right
    · exact fun h => ⟨fun hlt => by omega, h⟩

lemma Linked.link_eq (h : Linked height key i link (xs ++ x :: ys)) (hx : i < height x) :
    link (key x) = some ⟨(above height i ys).map key, dist height i ys⟩ := by
  exact h.of_append.1 hx

/-- A part of the list is replaced.  On level `i` the last element that reaches it
before that part gets a new link; the others before it keep theirs. -/
theorem Linked.splice {low old new : List α}
    (h : Linked height key i link (xs ++ u :: (low ++ old))) (hu : i < height u)
    (hlow : Low height i low) (hframe : ∀ x ∈ xs, link' (key x) = link (key x))
    (hlink : link' (key u) = some ⟨(above height i new).map key, low.length + dist height i new⟩)
    (hnew : Linked height key i link' new) :
    Linked height key i link' (xs ++ u :: (low ++ new)) := by
  induction xs with
  | nil =>
    refine ⟨fun _ => ?_, (linked_append_low hlow).mpr hnew⟩
    rw [hlink, above_append_low hlow, dist_append_low hlow]
  | cons x xs ih =>
    rw [cons_append] at h ⊢
    refine ⟨fun hx => ?_, ih h.2 fun y hy => hframe y (mem_cons_of_mem _ hy)⟩
    rw [hframe x (mem_cons_self ..), h.1 hx]
    rw [above_append_cons hu xs _ (low ++ new), dist_append_cons hu xs _ (low ++ new)]

end Dice.Verified.Towers
