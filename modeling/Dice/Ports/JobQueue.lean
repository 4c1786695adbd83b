import Dice.Verified.Run
import Mathlib.Logic.Function.Basic
import Mathlib.Data.List.Basic

/-!
# The job queue of an I/O thread

The main thread pushes jobs into a ring and the I/O thread runs them.  Each
thread stores one of the two indices and reads both.  Every access to a field of
a slot and every store of an index is a step of its own.
-/

namespace Dice.Ports.JobQueue

open List Function Verified Run

variable {η δ : Type}

/-- `iojob`; `none` is NULL. -/
structure Iojob (η δ : Type) where
  handler : Option η := none
  data : Option δ := none

/-- Where the main thread is: `room` after `IOJobQueue_isFull` said no, `push` and
the rest in `IOJobQueue_push`. -/
inductive Main (η δ : Type) where
  | idle
  | room
  | push (job : Iojob η δ)
  | checkHandler (job : Iojob η δ)
  | storeData (job : Iojob η δ)
  | storeHandler (job : Iojob η δ)
  | storeHead (job : Iojob η δ)

/-- Where `IOThreadMain` is, with the number of jobs left in the batch; `peekData` is
in `IOJobQueue_peek`, the last three are in `IOJobQueue_removeJob`. -/
inductive Io (η δ : Type) where
  | poll
  | batch (k : Nat)
  | peekData (handler : Option η) (k : Nat)
  | running (job : Iojob η δ) (k : Nat)
  | remove (k : Nat)
  | clearHandler (k : Nat)
  | storeTail (k : Nat)

/-- `IOJobQueue` with the threads; `pushed`, `ran` and `removed` are the past. -/
structure State (η δ : Type) where
  ring : Nat → Iojob η δ := fun _ => {}
  head : Nat := 0
  tail : Nat := 0
  main : Main η δ := .idle
  io : Io η δ := .poll
  pushed : List (Iojob η δ) := []
  ran : List (Iojob η δ) := []
  removed : Nat := 0

inductive Event (η δ : Type) where
  | isFull
  | push (job : Iojob η δ)
  | main
  | io

section

variable (size : Nat) (s : State η δ)

def isFull : Bool := (s.head + 1) % size == s.tail

def isEmpty : Bool := s.head == s.tail

def availableJobs : Nat :=
  if s.head ≥ s.tail then s.head - s.tail else size - (s.tail - s.head)

/-- The next step of `IOJobQueue_push`. -/
def mainStep : Option (State η δ) :=
  match s.main with
  | .push job =>
    if (s.ring s.head).data.isNone then some { s with main := .checkHandler job } else none
  | .checkHandler job =>
    if (s.ring s.head).handler.isNone then some { s with main := .storeData job } else none
  | .storeData job => some { s with
      ring := update s.ring s.head { s.ring s.head with data := job.data }
      main := .storeHandler job }
  | .storeHandler job => some { s with
      ring := update s.ring s.head { s.ring s.head with handler := job.handler }
      main := .storeHead job }
  | .storeHead job => some { s with
      head := (s.head + 1) % size, main := .idle, pushed := s.pushed ++ [job] }
  | _ => some s

/-- The next step of `IOThreadMain`. -/
def ioStep : State η δ :=
  match s.io with
  | .poll => { s with io := .batch (availableJobs size s) }
  | .batch 0 => { s with io := .poll }
  | .batch (k + 1) => { s with io := .peekData (s.ring s.tail).handler k }
  | .peekData handler k => { s with io := .running ⟨handler, (s.ring s.tail).data⟩ k }
  | .running job k => { s with ran := s.ran ++ [job], io := .remove k }
  | .remove k => { s with
      ring := update s.ring s.tail { s.ring s.tail with data := none }, io := .clearHandler k }
  | .clearHandler k => { s with
      ring := update s.ring s.tail { s.ring s.tail with handler := none }, io := .storeTail k }
  | .storeTail k => { s with
      tail := (s.tail + 1) % size, removed := s.removed + 1, io := .batch k }

/-- One step of either thread; it has no successor if an assertion fails.  The
main thread pushes only after `IOJobQueue_isFull` said no. -/
def step : Event η δ → Option (State η δ)
  | .isFull =>
    match s.main with
    | .idle | .room => some { s with main := if isFull size s then .idle else .room }
    | _ => some s
  | .push job =>
    match s.main with
    | .room => if isFull size s then none else some { s with main := .push job }
    | _ => some s
  | .main => mainStep size s
  | .io => some (ioStep size s)

end

/-- What is in the slot of the next job. -/
def Main.begun : Main η δ → Iojob η δ
  | .storeHandler job => { data := job.data }
  | .storeHead job => job
  | _ => {}

/-- What is left of the first job in its slot. -/
def Io.left (job : Iojob η δ) : Io η δ → Iojob η δ
  | .clearHandler _ => { handler := job.handler }
  | .storeTail _ => {}
  | _ => job

/-- The jobs that have been run and not been removed. -/
def Io.done : Io η δ → Nat
  | .remove _ | .clearHandler _ | .storeTail _ => 1
  | _ => 0

/-- The jobs of the batch that have not been removed. -/
def Io.claimed : Io η δ → Nat
  | .poll => 0
  | .batch k => k
  | .peekData _ k | .running _ k | .remove k | .clearHandler k | .storeTail k => k + 1

/-- What has been read is of the first job. -/
def Io.Peeked (job : Iojob η δ) : Io η δ → Prop
  | .peekData handler _ => handler = job.handler
  | .running job' _ => job' = job
  | _ => True

/-- What the slot of the `i`th job holds. -/
def slot (s : State η δ) (i : Nat) : Iojob η δ :=
  match s.pushed[i]? with
  | some job => if i = s.removed then s.io.left job else job
  | none => if i = s.pushed.length then s.main.begun else {}

structure Inv (size : Nat) (s : State η δ) : Prop where
  head_eq : s.head = s.pushed.length % size
  tail_eq : s.tail = s.removed % size
  claimed_le : s.removed + s.io.claimed ≤ s.pushed.length
  lt : s.pushed.length < s.removed + size
  room : s.main = .idle ∨ s.pushed.length + 1 < s.removed + size
  ran_eq : s.ran = s.pushed.take (s.removed + s.io.done)
  peeked : ∀ job, s.pushed[s.removed]? = some job → s.io.Peeked job
  cells : ∀ i, s.removed ≤ i → i < s.removed + size → s.ring (i % size) = slot s i

variable {size : Nat} {s : State η δ}

/-- Two jobs less than a round apart have different slots. -/
lemma mod_ne {i j r : Nat} (hi : r ≤ i) (hi' : i < r + size) (hj : r ≤ j) (hj' : j < r + size)
    (hne : i ≠ j) : i % size ≠ j % size := by
  intro h
  have hij := Nat.sub_mod_eq_zero_of_mod_eq h
  have hji := Nat.sub_mod_eq_zero_of_mod_eq h.symm
  rw [Nat.mod_eq_of_lt (by omega)] at hij hji
  omega

/-- Without a job there is nothing to run or to clear. -/
lemma quiet {io : Io η δ} (h : io.claimed = 0) :
    io.done = 0 ∧ ∀ job, io.left job = job ∧ io.Peeked job := by
  cases io with
  | poll | batch => exact ⟨rfl, fun _ => ⟨rfl, trivial⟩⟩
  | _ => exact absurd h (Nat.succ_ne_zero _)

section

variable (h : Inv size s)

include h

lemma Inv.le : s.removed ≤ s.pushed.length := Nat.le_trans (Nat.le_add_right _ _) h.claimed_le

lemma first (hclaimed : s.io.claimed ≠ 0) : ∃ job, s.pushed[s.removed]? = some job := by
  have hle := h.claimed_le
  exact ⟨_, getElem?_eq_getElem (by omega)⟩

lemma isFull_iff : isFull size s ↔ s.pushed.length + 1 = s.removed + size := by
  have hle := h.le
  have hlt := h.lt
  rw [isFull, beq_iff_eq, h.head_eq, h.tail_eq, Nat.mod_add_mod]
  constructor
  · intro heq
    by_contra hne
    exact mod_ne (r := s.removed) (by omega) (by omega) (Nat.le_refl _) (by omega) (by omega) heq
  · intro heq
    rw [heq, Nat.add_mod_right]

lemma isEmpty_iff : isEmpty s ↔ s.pushed.length = s.removed := by
  rw [isEmpty, beq_iff_eq, h.head_eq, h.tail_eq]
  constructor
  · intro heq
    by_contra hne
    exact mod_ne h.le h.lt (Nat.le_refl _) (by have := h.lt; have := h.le; omega) hne heq
  · exact congrArg (· % size)

lemma availableJobs_eq : availableJobs size s = s.pushed.length - s.removed := by
  have hle := h.le
  have hlt := h.lt
  have hr := Nat.mod_lt s.removed (show 0 < size by omega)
  have hhead : s.pushed.length % size =
    (s.removed % size + (s.pushed.length - s.removed)) % size := by
    rw [Nat.mod_add_mod, Nat.add_sub_of_le hle]
  rw [availableJobs, h.head_eq, h.tail_eq, hhead]
  by_cases hwrap : s.removed % size + (s.pushed.length - s.removed) < size
  · rw [Nat.mod_eq_of_lt hwrap]
    split <;> omega
  · rw [Nat.mod_eq_sub_mod (by omega), Nat.mod_eq_of_lt (by omega)]
    split <;> omega

lemma ring_head : s.ring s.head = s.main.begun := by
  rw [h.head_eq, h.cells _ h.le h.lt]
  simp [slot]

/-- The first job is in its slot, up to what was cleared. -/
lemma ring_tail {job : Iojob η δ} (hjob : s.pushed[s.removed]? = some job) :
    s.ring s.tail = s.io.left job := by
  have hle := h.le
  have hlt := h.lt
  rw [h.tail_eq, h.cells _ (Nat.le_refl _) (by omega)]
  simp [slot, hjob]

lemma setMain {main : Main η δ} (hbegun : main.begun = s.main.begun)
    (hroom : main = .idle ∨ s.pushed.length + 1 < s.removed + size) :
    Inv size { s with main := main } :=
  { h with
    room := hroom
    cells := fun i hi hi' => (h.cells i hi hi').trans (by simp only [slot, hbegun]) }

lemma setIo {ran : List (Iojob η δ)} {io : Io η δ} (hleft : ∀ job, io.left job = s.io.left job)
    (hclaimed : s.removed + io.claimed ≤ s.pushed.length)
    (hran : ran = s.pushed.take (s.removed + io.done))
    (hpeeked : ∀ job, s.pushed[s.removed]? = some job → io.Peeked job) :
    Inv size { s with io := io, ran := ran } :=
  { h with
    claimed_le := hclaimed
    ran_eq := hran
    peeked := hpeeked
    cells := fun i hi hi' => (h.cells i hi hi').trans (by simp only [slot, hleft]) }

/-- A write to the slot of the next job. -/
lemma writeHead (main : Main η δ) (hroom : s.pushed.length + 1 < s.removed + size) :
    Inv size { s with ring := update s.ring s.head main.begun, main := main } :=
  { h with
    room := .inr hroom
    cells := by
      intro i hi hi'
      dsimp only
      rw [h.head_eq]
      by_cases heq : i = s.pushed.length
      · simp [heq, slot]
      · rw [update_of_ne (mod_ne hi hi' h.le h.lt heq), h.cells i hi hi']
        simp only [slot, if_neg heq] }

/-- A write to the slot of the first job. -/
lemma writeTail (io : Io η δ) {job : Iojob η δ} (hjob : s.pushed[s.removed]? = some job)
    (hclaimed : io.claimed = s.io.claimed) (hdone : io.done = s.io.done)
    (hpeeked : ∀ job, io.Peeked job) :
    Inv size { s with ring := update s.ring s.tail (io.left job), io := io } :=
  { h with
    claimed_le := hclaimed ▸ h.claimed_le
    ran_eq := hdone ▸ h.ran_eq
    peeked := fun job _ => hpeeked job
    cells := by
      intro i hi hi'
      dsimp only at hi hi' ⊢
      rw [h.tail_eq]
      by_cases heq : i = s.removed
      · simp [heq, slot, hjob]
      · rw [update_of_ne (mod_ne hi hi' (Nat.le_refl _) (by omega) heq), h.cells i hi hi']
        simp only [slot, if_neg heq] }

/-- The job that has been stored is the last of the queue. -/
lemma storeHead {job : Iojob η δ} (hmain : s.main = .storeHead job) :
    Inv size { s with
      head := (s.head + 1) % size, main := .idle, pushed := s.pushed ++ [job] } := by
  obtain ⟨head_eq, tail_eq, hclaimed, lt, room, ran_eq, peeked, cells⟩ := h
  have hroom : s.pushed.length + 1 < s.removed + size := by simpa [hmain] using room
  have hdone : s.io.done ≤ s.io.claimed := by cases s.io <;> simp [Io.done, Io.claimed]
  have hempty : s.removed = s.pushed.length → s.io.claimed = 0 := by omega
  refine ⟨by simp [head_eq], tail_eq, ?_, by simpa using hroom, .inl rfl, ?_, fun job' hjob' => ?_,
    fun i hi hi' => ?_⟩
  all_goals dsimp only at *
  · rw [length_append]
    omega
  · rw [ran_eq, take_append_of_le_length (by omega)]
  · by_cases hlast : s.removed = s.pushed.length
    · exact ((quiet (hempty hlast)).2 job').2
    · exact peeked job' (by rwa [getElem?_append_left (by omega)] at hjob')
  · rw [cells i hi hi']
    rcases Nat.lt_trichotomy i s.pushed.length with hlt | rfl | hgt
    · simp [slot, getElem?_append_left hlt, getElem?_eq_getElem hlt]
    · -- the new job, which is the first one if the queue was empty
      by_cases hfirst : s.pushed.length = s.removed
      · simp [slot, hmain, Main.begun, ((quiet (hempty hfirst.symm)).2 job).1]
      · simp [slot, hmain, Main.begun, hfirst]
    · have hnone : s.pushed[i]? = none := getElem?_eq_none (by omega)
      have hnone' : (s.pushed ++ [job])[i]? = none := getElem?_eq_none (by simp; omega)
      simp only [slot, hnone, hnone', if_neg (show i ≠ s.pushed.length by omega), Main.begun,
        ite_self]

lemma mainStep_inv : ∃ s', mainStep size s = some s' ∧ Inv size s' := by
  obtain ⟨ring, head, tail, main, io, pushed, ran, removed⟩ := s
  have hhead : ring head = main.begun := ring_head h
  have hroom := h.room.resolve_left
  cases main with
  | idle | room => exact ⟨_, rfl, h⟩
  | push job | checkHandler job =>
    exact ⟨_, if_pos (by dsimp only; rw [hhead]; rfl), setMain h rfl (.inr (hroom nofun))⟩
  | storeData job =>
    dsimp only [mainStep]
    rw [hhead]
    exact ⟨_, rfl, writeHead h (.storeHandler job) (hroom nofun)⟩
  | storeHandler job =>
    dsimp only [mainStep]
    rw [hhead]
    exact ⟨_, rfl, writeHead h (.storeHead job) (hroom nofun)⟩
  | storeHead job => exact ⟨_, rfl, storeHead h rfl⟩

lemma ioStep_inv : Inv size (ioStep size s) := by
  obtain ⟨ring, head, tail, main, io, pushed, ran, removed⟩ := s
  have htail : ∀ job, pushed[removed]? = some job → ring tail = io.left job :=
    fun _ => ring_tail h
  have hfirst := first h
  cases io with
  | poll =>
    refine setIo h (fun _ => rfl) ?_ h.ran_eq fun _ _ => trivial
    exact Nat.le_of_eq (by rw [Io.claimed, availableJobs_eq h, Nat.add_sub_of_le h.le])
  | batch k =>
    cases k with
    | zero => exact setIo h (fun _ => rfl) h.claimed_le h.ran_eq fun _ _ => trivial
    | succ k =>
      refine setIo h (fun _ => rfl) h.claimed_le h.ran_eq fun job hjob => ?_
      exact congrArg Iojob.handler (htail job hjob)
  | peekData handler k =>
    refine setIo h (fun _ => rfl) h.claimed_le h.ran_eq fun job hjob => ?_
    show (⟨handler, (ring tail).data⟩ : Iojob η δ) = job
    rw [htail job hjob, show handler = job.handler from h.peeked job hjob]
    rfl
  | running job k =>
    obtain ⟨job', hjob⟩ := hfirst (Nat.succ_ne_zero k)
    obtain rfl : job = job' := h.peeked job' hjob
    refine setIo h (fun _ => rfl) h.claimed_le ?_ fun _ _ => trivial
    show ran ++ [job] = pushed.take (removed + 1)
    rw [take_add_one, hjob, show ran = pushed.take removed from h.ran_eq]
    rfl
  | remove k =>
    obtain ⟨job, hjob⟩ := hfirst (Nat.succ_ne_zero k)
    dsimp only [ioStep]
    rw [htail job hjob]
    exact writeTail h (.clearHandler k) hjob rfl rfl fun _ => trivial
  | clearHandler k =>
    obtain ⟨job, hjob⟩ := hfirst (Nat.succ_ne_zero k)
    dsimp only [ioStep]
    rw [htail job hjob]
    exact writeTail h (.storeTail k) hjob rfl rfl fun _ => trivial
  | storeTail k =>
    obtain ⟨job, hjob⟩ := hfirst (Nat.succ_ne_zero k)
    obtain ⟨head_eq, tail_eq, hclaimed, lt, room, ran_eq, -, cells⟩ := h
    dsimp only [Io.claimed] at *
    refine ⟨head_eq, by simp [tail_eq, ioStep], ?_, ?_, room.imp_right ?_, ran_eq,
      fun _ _ => trivial, fun i hi hi' => ?_⟩
    all_goals dsimp only [ioStep, Io.claimed] at *
    any_goals omega
    by_cases hlast : i = removed + size
    · -- the slot that becomes free
      have hnone : pushed[i]? = none := getElem?_eq_none (by omega)
      rw [hlast, Nat.add_mod_right, ← tail_eq, htail job hjob, ← hlast]
      simp [slot, Io.left, hnone, show i ≠ pushed.length by omega]
    · rw [cells i (by omega) (by omega)]
      simp [slot, Io.left, show i ≠ removed by omega]

omit h in
lemma step_inv (s : State η δ) (e : Event η δ) (h : Inv size s) :
    ∃ s', step size s e = some s' ∧ Inv size s' := by
  have hlt := h.lt
  have hfull := isFull_iff h
  cases e with
  | isFull =>
    rw [step]
    cases hmain : s.main with
    | idle | room =>
      refine ⟨_, rfl, setMain h (by rw [hmain]; split <;> rfl) ?_⟩
      split
      next => exact .inl rfl
      next hnot => exact .inr (by rw [hfull] at hnot; omega)
    | _ => exact ⟨s, rfl, h⟩
  | push job =>
    rw [step]
    cases hmain : s.main with
    | room =>
      have hroom : s.pushed.length + 1 < s.removed + size := by simpa [hmain] using h.room
      exact ⟨_, if_neg (by rw [hfull]; omega), setMain h (by rw [hmain]; rfl) (.inr hroom)⟩
    | _ => exact ⟨s, rfl, h⟩
  | main => exact mainStep_inv h
  | io => exact ⟨_, rfl, ioStep_inv h⟩

/-- A bound of the steps of the I/O thread until it has run all jobs. -/
def todo (s : State η δ) : Nat :=
  9 * (s.pushed.length - s.removed) + match s.io with
    | .batch 0 => 7
    | .poll => 6
    | .batch _ => 5
    | .peekData .. => 4
    | .running .. => 3
    | .remove _ => 2
    | .clearHandler _ => 1
    | .storeTail _ => 0

end

end Dice.Ports.JobQueue
