import Dice.Verified.Table

/-!
# Lists of members under a key

Several parts of a server answer "who waits for this key" by a dictionary
from keys to lists.  A list is created by its first member and freed together
with its dictionary entry by the last one, so that no entry is empty.
`members` forgets the difference between an absent entry and an empty list;
`Tidy` is the invariant under which nothing is lost by that.
-/

namespace Dice.Verified.Index

open Table Function

variable {K C : Type} [DecidableEq K]

/-- The list kept under `k`. -/
def members (d : Dict K (List C)) (k : K) : List C := (d.lookup k).getD []

/-- Append `c` to the list of `k`, creating the list if needed. -/
def link (d : Dict K (List C)) (k : K) (c : C) : Dict K (List C) := d.insert k (members d k ++ [c])

/-- No list is empty and no list has a member twice. -/
structure Tidy (d : Dict K (List C)) : Prop where
  nonempty : ∀ k, d.lookup k ≠ some []
  nodup : ∀ k, (members d k).Nodup

variable {d : Dict K (List C)} {k : K} {c : C}

lemma members_of_lookup {l : List C} (h : d.lookup k = some l) : members d k = l := by
  simp [members, h]

/-- A key with a member has an entry. -/
theorem lookup_of_mem (h : c ∈ members d k) : d.lookup k = some (members d k) := by
  unfold members at h ⊢
  cases hl : d.lookup k with
  | none => simp [hl] at h
  | some l => rfl

lemma tidy_empty : Tidy (∅ : Dict K (List C)) where
  nonempty k := by simp
  nodup k := by simp [members]

lemma members_link (d : Dict K (List C)) (k k' : K) (c : C) :
    members (link d k c) k' = if k' = k then members d k ++ [c] else members d k' := by
  simp only [link, members, lookup_insert_eq]
  split <;> rfl

lemma mem_members_link {k' : K} {c' : C} :
    c' ∈ members (link d k c) k' ↔ c' ∈ members d k' ∨ (k' = k ∧ c' = c) := by
  rw [members_link]
  by_cases hk : k' = k
  · subst hk
    simp
  · simp [hk]

lemma Tidy.link (h : Tidy d) (hnew : c ∉ members d k) : Tidy (link d k c) where
  nonempty k' := by
    rw [Index.link, lookup_insert_eq]
    split
    · simp
    · exact h.nonempty k'
  nodup k' := by
    rw [members_link]
    split
    · exact List.nodup_append.mpr ⟨h.nodup k, by simp, by
        intro x hx y hy
        rw [List.mem_singleton] at hy
        exact fun heq => hnew (hy ▸ heq ▸ hx)⟩
    · exact h.nodup k'

section Removal

variable [DecidableEq C]

/-- Take `c` out of the list of `k`, and drop the list with its last member. -/
def unlink (d : Dict K (List C)) (k : K) (c : C) : Dict K (List C) :=
  if (members d k).erase c = [] then d.erase k
  else d.insert k ((members d k).erase c)

lemma members_unlink (d : Dict K (List C)) (k k' : K) (c : C) :
    members (unlink d k c) k' = if k' = k then (members d k).erase c else members d k' := by
  unfold unlink
  by_cases hlast : (members d k).erase c = []
  · rw [if_pos hlast, hlast]
    simp only [members, lookup_erase_eq]
    split <;> rfl
  · rw [if_neg hlast]
    simp only [members, lookup_insert_eq]
    split <;> rfl

lemma Tidy.unlink (h : Tidy d) (k : K) (c : C) : Tidy (unlink d k c) where
  nonempty k' := by
    unfold Index.unlink
    split
    · rw [lookup_erase_eq]
      split
      · simp
      · exact h.nonempty k'
    next hlast =>
    rw [lookup_insert_eq]
    split
    · exact fun heq => hlast (Option.some.inj heq)
    · exact h.nonempty k'
  nodup k' := by
    rw [members_unlink]
    split
    · exact (h.nodup k).erase c
    · exact h.nodup k'

end Removal

section Family

variable {D : Type} [DecidableEq D] (b : D → Dict K (List C)) (d d' : D) (k k' : K) (c : C)

@[grind =] lemma members_update_link :
    members (update b d (link (b d) k c) d') k' =
    if d' = d ∧ k' = k then members (b d') k' ++ [c] else members (b d') k' := by
  by_cases hd : d' = d
  · subst hd
    rw [update_self, members_link]
    grind
  · simp [hd]

lemma mem_update_link {c' : C} : c' ∈ members (update b d (link (b d) k c) d') k' ↔
    c' ∈ members (b d') k' ∨ d' = d ∧ k' = k ∧ c' = c := by
  rw [members_update_link]
  split
  next heq => simp [heq]
  next hne => simp [← and_assoc, hne]

variable {b d k c} in
lemma nodup_update_link (h : ∀ d k, (members (b d) k).Nodup) (hnew : c ∉ members (b d) k) :
    (members (update b d (link (b d) k c) d') k').Nodup := by
  rw [members_update_link]
  split
  next heq =>
    rw [heq.1, heq.2]
    exact (h d k).append (List.nodup_singleton c) (by simpa using hnew)
  next => exact h d' k'

variable {b} in
lemma tidy_update_link (h : ∀ d, Tidy (b d)) {d : D} {k : K} {c : C}
    (hnew : c ∉ members (b d) k) (d' : D) : Tidy (update b d (link (b d) k c) d') := by
  by_cases hd : d' = d
  · subst hd
    rw [update_self]
    exact (h d').link hnew
  · rw [update_of_ne hd]
    exact h d'

variable [DecidableEq C]

@[grind =] lemma members_update_unlink :
    members (update b d (unlink (b d) k c) d') k' =
    if d' = d ∧ k' = k then (members (b d') k').erase c else members (b d') k' := by
  by_cases hd : d' = d
  · subst hd
    rw [update_self, members_unlink]
    grind
  · simp [hd]

lemma mem_update_unlink (h : ∀ d k, (members (b d) k).Nodup) {c' : C} :
    c' ∈ members (update b d (unlink (b d) k c) d') k' ↔
    c' ∈ members (b d') k' ∧ ¬ (d' = d ∧ k' = k ∧ c' = c) := by
  rw [members_update_unlink]
  split
  next heq =>
    rw [(h d' k').mem_erase_iff]
    simp [heq, and_comm]
  next hne => simp [← and_assoc, hne]

variable {b} in
lemma nodup_update_unlink (h : ∀ d k, (members (b d) k).Nodup) :
    (members (update b d (unlink (b d) k c) d') k').Nodup := by
  rw [members_update_unlink]
  split
  · exact (h d' k').erase c
  · exact h d' k'

variable {b} in
lemma tidy_update_unlink (h : ∀ d, Tidy (b d)) : Tidy (update b d (unlink (b d) k c) d') := by
  by_cases hd : d' = d
  · subst hd
    rw [update_self]
    exact (h d').unlink k c
  · rw [update_of_ne hd]
    exact h d'

end Family

end Dice.Verified.Index
