/-!
# Runs of an event-driven program

A program is given by what one event does to its state; an event that is not
enabled, or in which the program dies, has no successor.  The results below
are the only inductions over runs in the package: an invariant, an invariant
that also speaks about the events performed so far, and a forward simulation.
-/

namespace Dice.Verified.Run

variable {σ τ ε : Type}

/-- The state reached from `s` by performing `events` in order. -/
def run (step : σ → ε → Option σ) : σ → List ε → Option σ
  | s, [] => some s
  | s, e :: events => (step s e).bind fun s' => run step s' events

variable (step : σ → ε → Option σ)

@[simp] theorem run_nil (s : σ) : run step s [] = some s := rfl

theorem run_cons (s : σ) (e : ε) (events : List ε) : run step s (e :: events) =
      (step s e).bind fun s' => run step s' events := rfl

variable {step : σ → ε → Option σ} {s t : σ} {events : List ε} {I : σ → Prop} {α : Type}

/-- A completed run splits at its first event. -/
theorem run_cons_some {e : ε} (h : run step s (e :: events) = some t) :
    ∃ s', step s e = some s' ∧ run step s' events = some t := by
  rw [run_cons] at h
  cases hs : step s e with
  | none => simp [hs] at h
  | some s' => exact ⟨s', rfl, by simpa [hs] using h⟩

theorem run_append (s : σ) (xs ys : List ε) :
    run step s (xs ++ ys) = (run step s xs).bind fun t => run step t ys := by
  induction xs generalizing s with
  | nil => rfl
  | cons e xs ih =>
    simp only [List.cons_append, run_cons]
    cases step s e with
    | none => rfl
    | some s' => simpa using ih s'

/-- Every event of the run is one that `G` allows in the state it finds. -/
def Within (step : σ → ε → Option σ) (G : σ → ε → Prop) : σ → List ε → Prop
  | _, [] => True
  | s, e :: events =>
    G s e ∧ match step s e with
      | none => True
      | some s' => Within step G s' events

instance instDecidableWithin {step : σ → ε → Option σ} {G : σ → ε → Prop}
    [∀ s e, Decidable (G s e)] : ∀ s events, Decidable (Within step G s events)
  | _, [] => inferInstanceAs (Decidable True)
  | s, e :: events =>
    match h : step s e with
    | none => decidable_of_iff (G s e) (by simp [Within, h])
    | some s' =>
      have : Decidable (Within step G s' events) := instDecidableWithin s' events
      decidable_of_iff (G s e ∧ Within step G s' events) (by simp [Within, h])

/-- A property kept by every event allowed by `G` holds at the end of every
run made of such events. -/
theorem run_invariant {G : σ → ε → Prop} (hstep : ∀ s e s', I s → G s e → step s e = some s' → I s')
    (hs : I s) (hok : Within step G s events) (hrun : run step s events = some t) : I t := by
  induction events generalizing s with
  | nil =>
    simp only [run_nil, Option.some.injEq] at hrun
    exact hrun ▸ hs
  | cons e events ih =>
    obtain ⟨s', hse, hrest⟩ := run_cons_some hrun
    rw [Within, hse] at hok
    exact ih (hstep s e s' hs hok.1 hse) hok.2 hrest

theorem within_true (s : σ) (events : List ε) : Within step (fun _ _ => True) s events := by
  induction events generalizing s with
  | nil => trivial
  | cons e events ih => exact ⟨trivial, by split <;> simp [ih]⟩

/-- The unconditional form of `run_invariant`. -/
theorem run_invariant' (hstep : ∀ s e s', I s → step s e = some s' → I s') (hs : I s)
    (hrun : run step s events = some t) : I t :=
  run_invariant (fun s e s' hI _ => hstep s e s' hI) hs (within_true s events) hrun

/-- The total form of `run_invariant`: when an allowed event always has a
successor, the program does not stop. -/
theorem run_total {G : σ → ε → Prop} (hstep : ∀ s e, I s → G s e → ∃ s', step s e = some s' ∧ I s')
    (hs : I s) (hok : Within step G s events) : ∃ t, run step s events = some t ∧ I t := by
  induction events generalizing s with
  | nil => exact ⟨s, rfl, hs⟩
  | cons e events ih =>
    obtain ⟨s', hse, hs'⟩ := hstep s e hs hok.1
    rw [Within, hse] at hok
    obtain ⟨t, hrun, ht⟩ := ih hs' hok.2
    exact ⟨t, by rw [run_cons, hse]; exact hrun, ht⟩

/-- The unconditional form of `run_total`. -/
theorem run_total' (hstep : ∀ s e, I s → ∃ s', step s e = some s' ∧ I s')
    (hs : I s) (events : List ε) : ∃ t, run step s events = some t ∧ I t :=
  run_total (fun s e hI _ => hstep s e hI) hs (within_true s events)

section

variable {abs : τ → ε → τ} {R : τ → σ → Prop}

/-- Forward simulation: a relation kept by every allowed event and its
abstract counterpart relates the two final states. -/
theorem run_simulation {G : ε → Prop}
    (hstep : ∀ a s e s', R a s → G e → step s e = some s' → R (abs a e) s') {a : τ} (hs : R a s)
    (hok : ∀ e ∈ events, G e) (hrun : run step s events = some t) : R (events.foldl abs a) t := by
  induction events generalizing a s with
  | nil =>
    simp only [run_nil, Option.some.injEq] at hrun
    exact hrun ▸ hs
  | cons e events ih =>
    obtain ⟨s', hse, hrest⟩ := run_cons_some hrun
    refine ih (hstep a s e s' hs (hok e (by simp)) hse) ?_ hrest
    intro e' he'
    exact hok e' (by simp [he'])

/-- The total form of `run_simulation`: when related states step together, the
program never stops. -/
theorem run_simulation_total (hstep : ∀ a s e, R a s → ∃ s', step s e = some s' ∧ R (abs a e) s')
    {a : τ} (hs : R a s) (events : List ε) :
    ∃ t, run step s events = some t ∧ R (events.foldl abs a) t := by
  induction events generalizing a s with
  | nil => exact ⟨s, rfl, hs⟩
  | cons e events ih =>
    obtain ⟨s', hse, hR⟩ := hstep a s e hs
    obtain ⟨t, hrun, ht⟩ := ih hR
    exact ⟨t, by rw [run_cons, hse]; exact hrun, ht⟩

end

theorem rel_bind {β γ δ : Type} {R : α → β → Prop} {S : γ → δ → Prop} {a : Option α}
    {b : Option β} {f : α → Option γ} {g : β → Option δ} (h : Option.Rel R a b)
    (hfg : ∀ x y, R x y → Option.Rel S (f x) (g y)) : Option.Rel S (a.bind f) (b.bind g) := by
  cases h with
  | none => exact .none
  | some hxy => exact hfg _ _ hxy

theorem rel_imp {β : Type} {R S : α → β → Prop} {a : Option α} {b : Option β}
    (h : Option.Rel R a b) (himp : ∀ x y, R x y → S x y) : Option.Rel S a b := by
  cases h with
  | none => exact .none
  | some hxy => exact .some (himp _ _ hxy)

/-- Two programs whose steps from related states are both missing or lead to
related states again. -/
theorem run_rel {step' : τ → ε → Option τ} {R : σ → τ → Prop}
    (hstep : ∀ s t e, R s t → Option.Rel R (step s e) (step' t e)) {t : τ} (hs : R s t)
    (events : List ε) : Option.Rel R (run step s events) (run step' t events) := by
  induction events generalizing s t with
  | nil => exact .some hs
  | cons e events ih => exact rel_bind (hstep s t e hs) fun _ _ hs' => ih hs'

/-- The first step of a computation that has succeeded. -/
theorem some_bind {β : Type} (a : α) (f : α → Option β) : (some a >>= f) = f a := rfl

section

variable {err β : Type} {x : Except err α}

theorem map_ok {f : α → β} {b : β} (h : x.map f = .ok b) : ∃ a, x = .ok a ∧ f a = b := by
  cases x with
  | error e => cases h
  | ok a => exact ⟨a, rfl, Except.ok.inj h⟩

theorem bind_ok {f : α → Except err β} {b : β} (h : x.bind f = .ok b) :
    ∃ a, x = .ok a ∧ f a = .ok b := by
  cases x with
  | error e => cases h
  | ok a => exact ⟨a, rfl, h⟩

variable {f : σ → α → Except err σ} {xs : List α}

/-- A successful loop over a list splits at its first element. -/
theorem foldlM_cons_ok {x : α} (h : (x :: xs).foldlM f s = .ok t) :
    ∃ s', f s x = .ok s' ∧ xs.foldlM f s' = .ok t :=
  bind_ok (by rwa [List.foldlM_cons] at h)

/-- A property kept by every successful step of a loop over a list holds when
the loop succeeds. -/
theorem foldlM_invariant (hstep : ∀ s x s', x ∈ xs → I s → f s x = .ok s' → I s')
    (hs : I s) (h : xs.foldlM f s = .ok t) : I t := by
  induction xs generalizing s with
  | nil =>
    cases h
    exact hs
  | cons x xs ih =>
    obtain ⟨s', hx, h⟩ := foldlM_cons_ok h
    refine ih (fun s x s' hmem => hstep s x s' (by simp [hmem])) ?_ h
    exact hstep s x s' (by simp) hs hx

end

end Dice.Verified.Run
