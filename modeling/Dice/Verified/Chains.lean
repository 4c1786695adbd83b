import Mathlib.Data.List.Perm.Basic

/-!
# Chained buckets

A table of chains, with a function that says in which chain an element
belongs.  All a hash table does to its chains is to replace one chain by
another, so what is needed is the effect of that on the elements as a whole,
and that the elements stay in the chains they belong to.
-/

namespace Dice.Verified.Chains

open List

variable {α : Type}

variable {t : List (List α)} {i : Nat} {chain : List α}

section

variable (h : t[i]? = some chain)

include h

/-- The elements of a table are those of one chain and those of the others. -/
theorem flatten_perm : t.flatten.Perm (chain ++ (t.eraseIdx i).flatten) := by
  induction t generalizing i with
  | nil => simp at h
  | cons c t ih =>
    cases i with
    | zero =>
      rw [getElem?_cons_zero, Option.some.injEq] at h
      subst h
      exact List.Perm.refl _
    | succ i =>
      have hswap : (c ++ (chain ++ (t.eraseIdx i).flatten)).Perm
        (chain ++ (c ++ (t.eraseIdx i).flatten)) := by
        rw [← append_assoc, ← append_assoc]
        exact perm_append_comm.append_right _
      exact ((ih h).append_left c).trans hswap

/-- Replacing a chain leaves the elements of the others. -/
theorem flatten_set_perm (chain' : List α) :
    (t.set i chain').flatten.Perm (chain' ++ (t.eraseIdx i).flatten) := by
  have hlt : i < t.length := (List.getElem?_eq_some_iff.mp h).1
  have hset : (t.set i chain')[i]? = some chain' := by simp [hlt]
  have hperm := flatten_perm hset
  rwa [eraseIdx_set_eq] at hperm

/-- Adding elements to one chain adds them to the table. -/
theorem flatten_set_append (es : List α) :
    (t.set i (es ++ chain)).flatten.Perm (es ++ t.flatten) := by
  refine (flatten_set_perm h (es ++ chain)).trans ?_
  rw [append_assoc]
  exact (flatten_perm h).symm.append_left es

/-- Emptying a chain takes its elements out of the table. -/
theorem flatten_set_nil : t.flatten.Perm (chain ++ (t.set i []).flatten) :=
  (flatten_perm h).trans ((flatten_set_perm h []).symm.append_left chain)

end

/-- A chain of the table after one was replaced. -/
theorem getElem?_set_cases {j : Nat} {c : List α}
    (h : (t.set i chain)[j]? = some c) : i = j ∧ c = chain ∨ i ≠ j ∧ t[j]? = some c := by
  rw [getElem?_set] at h
  split at h
  next hij =>
    split at h
    · exact .inl ⟨hij, (Option.some.inj h).symm⟩
    · cases h
  next hij => exact .inr ⟨hij, h⟩

/-- Every element is in the chain that `pos` gives for it. -/
def Placed (pos : α → Nat) (t : List (List α)) : Prop :=
  ∀ i chain, t[i]? = some chain → ∀ e ∈ chain, pos e = i

lemma placed_nil (pos : α → Nat) : Placed pos [] := by simp [Placed]

lemma placed_replicate (pos : α → Nat) (n : Nat) : Placed pos (replicate n []) := by
  intro i chain hchain e he
  obtain ⟨_, hget⟩ := List.getElem?_eq_some_iff.mp hchain
  simp [← hget] at he

lemma Placed.set {pos : α → Nat} (h : Placed pos t) (hchain : ∀ e ∈ chain, pos e = i) :
    Placed pos (t.set i chain) := by
  intro j c hc e he
  rcases getElem?_set_cases hc with ⟨rfl, rfl⟩ | ⟨_, hc⟩
  · exact hchain e he
  · exact h j c hc e he

/-- An element is looked for in the chain it belongs to. -/
theorem Placed.mem_flatten {pos : α → Nat} {e : α}
    (h : Placed pos t) (hchain : t[pos e]? = some chain) : e ∈ t.flatten ↔ e ∈ chain := by
  constructor
  · intro he
    obtain ⟨c, hc, hec⟩ := List.mem_flatten.mp he
    obtain ⟨i, hi⟩ := getElem?_of_mem hc
    have hpos := h i c hi e hec
    rw [hpos, hi] at hchain
    cases hchain
    exact hec
  · intro he
    exact List.mem_flatten.mpr ⟨chain, List.mem_of_getElem? hchain, he⟩

end Dice.Verified.Chains
