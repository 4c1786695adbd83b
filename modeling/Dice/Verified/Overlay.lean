import Mathlib.Data.List.Basic

/-!
# Partial overwrites

A state is a function of coordinates; a write sets some coordinates to fixed
values and leaves the others alone.  A sequence of writes is then determined
at each coordinate by the last write that touches it, and a write may be
dropped from the sequence as soon as a later one sets everything it sets.

This is the argument behind logs that are compacted while they grow: what is
replayed is not the history, but it leads to the same state.
-/

namespace Dice.Verified.Overlay

variable {ι β ρ : Type}

/-- The coordinates a write sets, with their new values. -/
abbrev Write (ι β : Type) := ι → Option β

/-- The state after one write. -/
def overwrite (w : Write ι β) (s : ι → β) : ι → β := fun i => (w i).getD (s i)

/-- The state after a sequence of writes. -/
def replay (ws : List (Write ι β)) (s : ι → β) : ι → β := ws.foldl (fun s w => overwrite w s) s

/-- `w` sets every coordinate that `v` sets. -/
def Covers (w v : Write ι β) : Prop := ∀ i, w i = none → v i = none

@[simp] lemma replay_nil (s : ι → β) : replay [] s = s := rfl

lemma replay_cons (w : Write ι β) (ws : List (Write ι β)) (s : ι → β) :
    replay (w :: ws) s = replay ws (overwrite w s) := rfl

lemma replay_concat (ws : List (Write ι β)) (w : Write ι β) (s : ι → β) :
    replay (ws ++ [w]) s = overwrite w (replay ws s) := by
  simp [replay]

/-- A property of the value at one coordinate that the start has and that
every write there has. -/
theorem replay_property {P : β → Prop} {ws : List (Write ι β)} {s : ι → β} {i : ι}
    (hs : P (s i)) (hws : ∀ w ∈ ws, ∀ b, w i = some b → P b) : P (replay ws s i) := by
  induction ws generalizing s with
  | nil => exact hs
  | cons w ws ih =>
    rw [replay_cons]
    apply ih
    · unfold overwrite
      cases hw : w i with
      | none => exact hs
      | some b => exact hws w (by simp) b hw
    · intro w' hw'
      exact hws w' (by simp [hw'])

section

variable {write : ρ → Write ι β} {keep : ρ → Bool} {rs : List ρ}

/-- Dropping writes that do not set a coordinate does not change it. -/
theorem replay_filter {i : ι} (h : ∀ r ∈ rs, keep r = false → write r i = none) {s t : ι → β}
    (hst : s i = t i) :
    replay ((rs.filter keep).map write) s i = replay (rs.map write) t i := by
  induction rs generalizing s t with
  | nil => exact hst
  | cons r rs ih =>
    have hrest : ∀ r' ∈ rs, keep r' = false → write r' i = none :=
      fun r' hr' => h r' (by simp [hr'])
    cases hk : keep r with
    | true =>
      rw [List.filter_cons_of_pos hk, List.map_cons]
      apply ih hrest
      simp [overwrite, hst]
    | false =>
      rw [List.filter_cons_of_neg (by simp [hk])]
      apply ih hrest
      simp [overwrite, h r (by simp) hk, hst]

/-- **Compaction.**  Writes that are covered by a new one can be dropped when
the new one is appended. -/
theorem replay_compact {r : ρ} (h : ∀ r' ∈ rs, keep r' = false → Covers (write r) (write r'))
    (s : ι → β) :
    replay ((rs.filter keep ++ [r]).map write) s =
    overwrite (write r) (replay (rs.map write) s) := by
  rw [List.map_append, List.map_singleton, replay_concat]
  funext i
  unfold overwrite
  cases hw : write r i with
  | some b => rfl
  | none => exact replay_filter (fun r' hr' hk => h r' hr' hk i hw) rfl

end

end Dice.Verified.Overlay
