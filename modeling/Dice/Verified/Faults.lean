/-!
# Programs that can fail and die

A program works on a persistent state through system calls.  A call takes
effect and says so, or it reports an error, with or without having taken
effect, or it is the one the process does not live to make.  What the process
held in memory is gone then, and the persistent state stays as it was left.
The rules below give pre- and postconditions for such programs, and a third
condition for the state a dead process leaves behind.
-/

namespace Dice.Verified.Faults

variable {σ α β : Type}

/-- How a system call goes. -/
inductive Outcome
  | done
  | failed
  | unsynced
  | died
  deriving DecidableEq, Repr

/-- A program: no result means that the process is gone. -/
def Prog (σ α : Type) := σ → Option α × σ

instance : Monad (Prog σ) where
  pure a := fun s => (some a, s)
  bind m f := fun s =>
    match m s with
    | (some a, s') => f a s'
    | (none, s') => (none, s')

/-- The persistent state. -/
def get : Prog σ σ := fun s => (some s, s)

/-- The process ends itself. -/
def exit : Prog σ α := fun s => (none, s)

/-- A system call; where `effect` is undefined it can only fail. -/
def call (o : Outcome) (effect : σ → Option σ) : Prog σ Bool := fun s =>
  match o, effect s with
  | .died, _ => (none, s)
  | .done, some s' => (some true, s')
  | .unsynced, some s' => (some false, s')
  | _, _ => (some false, s)

/-- From a state in `P` the program ends with a result in `Q`, or dies in `D`. -/
def Triple (P : σ → Prop) (m : Prog σ α) (Q : α → σ → Prop) (D : σ → Prop) : Prop :=
  ∀ s, P s →
    match m s with
    | (some a, s') => Q a s'
    | (none, s') => D s'

variable {P : σ → Prop} {Q : α → σ → Prop} {D : σ → Prop}

theorem triple_pure {a : α} (h : ∀ s, P s → Q a s) : Triple P (pure a) Q D := fun s hs => h s hs

theorem triple_exit (h : ∀ s, P s → D s) : Triple P (exit : Prog σ α) Q D := fun s hs => h s hs

theorem triple_get {Q : σ → σ → Prop} (h : ∀ s, P s → Q s s) : Triple P get Q D :=
  fun s hs => h s hs

variable {m : Prog σ α}

section

variable {o : Outcome} {effect : σ → Option σ}

theorem triple_bind {f : α → Prog σ β} {R : α → σ → Prop}
    {Q : β → σ → Prop} (hm : Triple P m R D) (hf : ∀ a, Triple (R a) (f a) Q D) :
    Triple P (m >>= f) Q D := by
  intro s hs
  have hfirst := hm s hs
  show match (match m s with
    | (some a, s') => f a s'
    | (none, s') => (none, s')) with
    | (some b, s') => Q b s'
    | (none, s') => D s'
  cases hres : m s with
  | mk a s' =>
    rw [hres] at hfirst
    cases a with
    | none => exact hfirst
    | some a => exact hf a s' hfirst

theorem triple_pre {P' : σ → Prop} (h : Triple P m Q D)
    (hpre : ∀ s, P' s → P s) : Triple P' m Q D :=
  fun s hs => h s (hpre s hs)

theorem triple_post {Q' : α → σ → Prop} (h : Triple P m Q D)
    (hpost : ∀ a s, Q a s → Q' a s) : Triple P m Q' D := by
  intro s hs
  have hres := h s hs
  cases heq : m s with
  | mk a s' =>
    rw [heq] at hres
    cases a with
    | none => exact hres
    | some a => exact hpost a s' hres

/-- A pure part of the precondition can be taken out. -/
theorem triple_assume {p : Prop} (h : p → Triple P m Q D) : Triple (fun s => p ∧ P s) m Q D :=
  fun s hs => h hs.1 s hs.2

/-- So can what it implies in every state. -/
theorem triple_assuming {p : Prop} (hp : ∀ s, P s → p) (h : p → Triple P m Q D) : Triple P m Q D :=
  fun s hs => h (hp s hs) s hs

theorem triple_ite {c : Prop} [Decidable c] {n : Prog σ α} (hm : c → Triple P m Q D)
    (hn : ¬ c → Triple P n Q D) : Triple P (if c then m else n) Q D := by
  split
  next hc => exact hm hc
  next hc => exact hn hc

theorem triple_call {Q : Bool → σ → Prop} (hdied : ∀ s, P s → D s) (hfailed : ∀ s, P s → Q false s)
    (hdone : ∀ s s', P s → effect s = some s' → Q true s')
    (hunsynced : ∀ s s', P s → o = .unsynced → effect s = some s' → Q false s') :
    Triple P (call o effect) Q D := by
  intro s hs
  unfold call
  cases o with
  | died => exact hdied s hs
  | failed => exact hfailed s hs
  | done =>
    cases heff : effect s with
    | none => exact hfailed s hs
    | some s' => exact hdone s s' hs heff
  | unsynced =>
    cases heff : effect s with
    | none => exact hfailed s hs
    | some s' => exact hunsynced s s' hs rfl heff

/-- A call whose effect, reported or not, keeps what holds. -/
theorem triple_call_keep (hdied : ∀ s, P s → D s)
    (heffect : ∀ s s', P s → effect s = some s' → P s') : Triple P (call o effect) (fun _ => P) D :=
  triple_call hdied (fun _ hs => hs) heffect fun s s' hs _ => heffect s s' hs

/-- A call whose effect keeps `J`, and brings about `R` when it is reported. -/
theorem triple_call_brings {J R : σ → Prop} (hdied : ∀ s, P s → D s) (hfailed : ∀ s, P s → J s)
    (heffect : ∀ s s', P s → effect s = some s' → J s' ∧ R s') :
    Triple P (call o effect) (fun ok s => J s ∧ (ok → R s)) D := by
  apply triple_call hdied
  · exact fun s hs => ⟨hfailed s hs, Bool.noConfusion⟩
  · exact fun s s' hs heff => ⟨(heffect s s' hs heff).1, fun _ => (heffect s s' hs heff).2⟩
  · exact fun s s' hs _ heff => ⟨(heffect s s' hs heff).1, Bool.noConfusion⟩

end

/-- One call for each element of a list, the results being ignored. -/
def callAll (f : α → Prog σ Bool) : List α → Prog σ Unit
  | [] => pure ()
  | a :: as => do
      let _ ← f a
      callAll f as

theorem triple_callAll {f : α → Prog σ Bool} {as : List α}
    (hf : ∀ a ∈ as, Triple P (f a) (fun _ => P) D) : Triple P (callAll f as) (fun _ => P) D := by
  induction as with
  | nil => exact triple_pure fun _ hs => hs
  | cons a as ih =>
    apply triple_bind (hf a (by simp))
    intro _
    exact ih fun a' ha' => hf a' (by simp [ha'])

end Dice.Verified.Faults
