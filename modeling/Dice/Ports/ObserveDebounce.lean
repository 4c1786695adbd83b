import Dice.Verified.CString
import Dice.Verified.Table
import Dice.Verified.Run

/-!
# The debounce buffer

With a positive debounce period a key change is put into a buffer, and a timer
hands the buffered changes to `observeNotifyKeyChangeImmediate`.

The timer handler is cut into the moments at which other code can run: the
first pass copies and empties the buffer (`fire`), then the copies are
notified one by one (`notify`), and a notification may itself signal changes,
which meet a running timer.  `finish` keeps the timer or gives it up.  The time
event stays registered while its handler runs.

The buffer has one slot per key while a change is a key and a database.
`flush_complete_iff` says exactly what that loses.
-/

namespace Dice.Ports.ObserveDebounce

open Verified CString Table Run Option List

/-- A key and a database number. -/
abbrev Change := Bytes × Nat

/-- The buffer, `isObserveDebounceRunning`, the number of registered time
events with the debounce handler, the copies the running handler still has to
notify, and the calls made to `observeNotifyKeyChangeImmediate` so far. -/
structure State where
  buffer : Dict Bytes Nat := ∅
  running : Bool := false
  timers : Nat := 0
  safeKeys : Option (List Change) := none
  notified : List Change := []

def startObserveDebounceProc (s : State) : State :=
  if !s.running then { s with running := true, timers := s.timers + 1 } else s

/-- `observeDebounceKeyChange`: a new key is added and starts the timer, a
known one gets its database number overwritten. -/
def observeDebounceKeyChange (s : State) (key : Bytes) (dbid : Nat) : State :=
  match s.buffer.lookup key with
  | none => startObserveDebounceProc { s with buffer := s.buffer.insert key dbid }
  | some _ => { s with buffer := s.buffer.insert key dbid }

def observeNotifyKeyChange (period observingClients : Nat) (s : State)
    (key : Bytes) (dbid : Nat) : State :=
  if observingClients = 0 then s
  else if period = 0 then { s with notified := s.notified ++ [(key, dbid)] }
  else observeDebounceKeyChange s key dbid

/-- The first pass of `observeDebounceFlush`: copy the changes, empty the
buffer. -/
def observeDebounceFlush (s : State) : State :=
  let safeKeys := s.buffer.entries.map fun e => (e.1, e.2)
  { s with safeKeys := some safeKeys, buffer := ∅ }

/-- The end of `observeDebounceTimerHandler`: another period if something was
buffered meanwhile, `AE_NOMORE` otherwise. -/
def observeDebounceTimerDone (s : State) : State :=
  if 0 < s.buffer.entries.length then { s with safeKeys := none }
  else { s with safeKeys := none, running := false, timers := s.timers - 1 }

/-- What can happen. -/
inductive Event
  | signal (observingClients : Nat) (key : Bytes) (dbid : Nat)
  | fire
  | notify
  | finish
  deriving DecidableEq, Repr

/-- One event, with debounce period `period`. -/
def step (period : Nat) (s : State) : Event → Option State
  | .signal observingClients key dbid =>
    some (observeNotifyKeyChange period observingClients s key dbid)
  | .fire =>
    if 0 < s.timers ∧ s.safeKeys = none then some (observeDebounceFlush s)
    else none
  | .notify =>
    match s.safeKeys with
    | some (change :: rest) =>
      some { s with safeKeys := some rest, notified := s.notified ++ [change] }
    | _ => none
  | .finish =>
    if s.safeKeys = some [] then some (observeDebounceTimerDone s) else none

/-- The changes signalled since the last flush began, one event later. -/
def pendingStep (pending : List Change) : Event → List Change
  | .signal observingClients key dbid =>
    if observingClients = 0 then pending else pending ++ [(key, dbid)]
  | .fire => []
  | .notify => pending
  | .finish => pending

/-- The changes signalled, while some client observes, since the last
flush. -/
def signalledSinceFlush (events : List Event) : List Change := events.foldl pendingStep []

/-- No key was signalled for two databases. -/
def OneDatabasePerKey (changes : List Change) : Prop :=
  ∀ key d d', (key, d) ∈ changes → (key, d') ∈ changes → d = d'

/-- The timer runs exactly when it is registered, once, and a non-empty buffer
or an unfinished handler keeps it running. -/
structure Armed (s : State) : Prop where
  timers_eq : s.timers = if s.running then 1 else 0
  buffer_running : s.buffer.entries ≠ [] → s.running = true
  handler_running : s.safeKeys ≠ none → s.running = true

/-- The buffer holds some database for each signalled key, and only signalled
changes. -/
structure Buffered (pending : List Change) (s : State) : Prop where
  armed : Armed s
  sound : ∀ key d, s.buffer.lookup key = some d → (key, d) ∈ pending
  covers : ∀ key d, (key, d) ∈ pending → (s.buffer.lookup key).isSome = true

variable {s : State} {period : Nat}

/-- A known key means a non-empty buffer, so the timer runs already. -/
lemma armed_debounce (hs : Armed s) (key : Bytes) (dbid : Nat) :
    Armed (observeDebounceKeyChange s key dbid) := by
  have htimers := hs.timers_eq
  unfold observeDebounceKeyChange
  split
  next =>
    unfold startObserveDebounceProc
    split
    next hrun => exact ⟨by simp_all, fun _ => rfl, fun _ => rfl⟩
    next hrun =>
      have hrun : s.running := by simpa using hrun
      exact ⟨htimers, fun _ => hrun, fun _ => hrun⟩
  next d hlook =>
    have hrun : s.running := by
      refine hs.buffer_running fun hnil => ?_
      have hempty : s.buffer = ∅ := AList.ext hnil
      simp [hempty] at hlook
    exact ⟨htimers, fun _ => hrun, hs.handler_running⟩

lemma fields_debounce (s : State) (key : Bytes) (dbid : Nat) :
    (observeDebounceKeyChange s key dbid).buffer = s.buffer.insert key dbid ∧
    (observeDebounceKeyChange s key dbid).safeKeys = s.safeKeys ∧
    (observeDebounceKeyChange s key dbid).notified = s.notified := by
  unfold observeDebounceKeyChange startObserveDebounceProc
  cases s.buffer.lookup key <;> cases s.running <;> simp

lemma buffered_signal {pending : List Change} (hb : Buffered pending s) (key : Bytes) (dbid : Nat) :
    Buffered (pending ++ [(key, dbid)]) (observeDebounceKeyChange s key dbid) := by
  have hbuffer := (fields_debounce s key dbid).1
  refine ⟨armed_debounce hb.armed key dbid, fun key' d hlook => ?_, fun key' d hmem => ?_⟩
  · rw [hbuffer, lookup_insert_eq] at hlook
    split at hlook
    next hk => simp_all
    next => exact mem_append_left _ (hb.sound key' d hlook)
  rw [hbuffer, lookup_insert_eq]
  split
  next => rfl
  next hk =>
    have hold : (key', d) ∈ pending := by simpa [hk] using hmem
    exact hb.covers key' d hold

section

variable (hperiod : 0 < period)

include hperiod

lemma step_signal (s : State) (clients : Nat) (key : Bytes) (dbid : Nat) :
    step period s (.signal clients key dbid) =
    some (if clients = 0 then s else observeDebounceKeyChange s key dbid) := by
  have hne : period ≠ 0 := by omega
  simp [step, observeNotifyKeyChange, hne]

/-- Every event keeps the timer armed and the buffer in step with the
signals. -/
lemma step_buffered (pending : List Change) (s : State) (e : Event) (s' : State)
    (hb : Buffered pending s) (h : step period s e = some s') :
    Buffered (pendingStep pending e) s' := by
  have htimers := hb.armed.timers_eq
  cases e with
  | signal observingClients key dbid =>
    rw [step_signal hperiod, some.injEq] at h
    subst h
    simp only [pendingStep]
    split
    next => exact hb
    next => exact buffered_signal hb key dbid
  | fire =>
    simp only [step, ite_none_right_eq_some, some.injEq] at h
    obtain ⟨⟨hpos, -⟩, rfl⟩ := h
    have hrun : s.running := by
      by_contra hnot
      rw [if_neg hnot] at htimers
      omega
    exact ⟨⟨htimers, fun _ => hrun, fun _ => hrun⟩, by simp [observeDebounceFlush],
      by simp [pendingStep]⟩
  | notify =>
    simp only [step] at h
    split at h
    next change rest hsafe =>
      obtain rfl := some.inj h
      have hrun : s.running := hb.armed.handler_running (by simp [hsafe])
      exact { hb with armed := ⟨htimers, hb.armed.buffer_running, fun _ => hrun⟩ }
    next => simp at h
  | finish =>
    simp only [step, ite_none_right_eq_some, some.injEq] at h
    obtain ⟨hsafe, rfl⟩ := h
    have hrun : s.running := hb.armed.handler_running (by simp [hsafe])
    unfold observeDebounceTimerDone
    split
    next => exact { hb with armed := ⟨htimers, hb.armed.buffer_running, by simp⟩ }
    next hlen =>
      have hnil : s.buffer.entries = [] := by simpa using hlen
      exact { hb with armed := ⟨by simp [htimers, hrun], fun hne => absurd hnil hne, by simp⟩ }

lemma buffered_of_run {events : List Event} (h : run (step period) {} events = some s) :
    Buffered (signalledSinceFlush events) s := by
  refine run_simulation (R := Buffered) (G := fun _ => True)
    (fun pending s e s' hb _ he => step_buffered hperiod pending s e s' hb he)
    ?_ (fun _ _ => trivial) h
  exact ⟨⟨rfl, fun h => absurd rfl h, fun h => absurd rfl h⟩, by simp, by simp⟩

/-- Until the handler finishes, the calls made and the copies left add up to
what they were. -/
lemma handler_progress (s : State) (e : Event) (s' : State) (rest : List Change)
    (hsafe : s.safeKeys = some rest) (he : e ≠ .finish) (h : step period s e = some s') :
    ∃ rest', s'.safeKeys = some rest' ∧ s'.notified ++ rest' = s.notified ++ rest := by
  cases e with
  | signal observingClients key dbid =>
    rw [step_signal hperiod, some.injEq] at h
    obtain ⟨-, hkeys, hcalls⟩ := fields_debounce s key dbid
    refine ⟨rest, ?_, ?_⟩ <;> rw [← h] <;> split <;> simp [hsafe, hkeys, hcalls]
  | fire => simp [step, hsafe] at h
  | notify =>
    cases rest with
    | nil => simp [step, hsafe] at h
    | cons change rest =>
      simp only [step, hsafe, some.injEq] at h
      exact ⟨rest, by rw [← h], by rw [← h]; simp⟩
  | finish => exact absurd rfl he

lemma handler_run (events : List Event) :
    ∀ (s t : State) (rest : List Change), s.safeKeys = some rest →
    Event.finish ∉ events → run (step period) s events = some t →
    ∃ rest', t.safeKeys = some rest' ∧ t.notified ++ rest' = s.notified ++ rest := by
  induction events with
  | nil =>
    intro s t rest hsafe _ hrun
    simp only [run_nil, some.injEq] at hrun
    exact ⟨rest, by rw [← hrun, hsafe], by rw [hrun]⟩
  | cons e events ih =>
    intro s t rest hsafe hfin hrun
    obtain ⟨s', hse, hrest⟩ := run_cons_some hrun
    have hne : e ≠ .finish := fun h => hfin (by rw [h]; simp)
    obtain ⟨rest1, hsafe1, hsum1⟩ := handler_progress hperiod s e s' rest hsafe hne hse
    obtain ⟨rest2, hsafe2, hsum2⟩ := ih s' t rest1 hsafe1 (fun h => hfin (by simp [h])) hrest
    exact ⟨rest2, hsafe2, hsum2.trans hsum1⟩

lemma flush_calls {s₁ t : State} {during : List Event} (hfire : step period s .fire = some s₁)
    (hfin : Event.finish ∉ during) (hrun : run (step period) s₁ (during ++ [.finish]) = some t) :
    t.notified = s.notified ++ s.buffer.entries.map fun e => (e.1, e.2) := by
  simp only [step, ite_none_right_eq_some, some.injEq] at hfire
  obtain ⟨-, rfl⟩ := hfire
  rw [run_append] at hrun
  obtain ⟨s2, hduring, hlast⟩ := bind_eq_some_iff.mp hrun
  obtain ⟨rest, hsafe, hsum⟩ := handler_run hperiod during _ s2 _ rfl hfin hduring
  obtain ⟨s3, hfinish, hnil⟩ := run_cons_some hlast
  simp only [step, ite_none_right_eq_some, some.injEq] at hfinish
  obtain ⟨hdone, rfl⟩ := hfinish
  rw [hsafe, some.injEq] at hdone
  rw [hdone, append_nil] at hsum
  have hcalls : t.notified = s2.notified := by
    rw [← some.inj hnil]
    unfold observeDebounceTimerDone
    split <;> rfl
  rw [hcalls, hsum]
  rfl

end

lemma handler_completes (period : Nat) (rest : List Change) :
    ∀ s : State, s.safeKeys = some rest → ∃ t, run (step period) s
      (replicate rest.length .notify ++ [.finish]) = some t := by
  induction rest with
  | nil =>
    intro s hsafe
    refine ⟨observeDebounceTimerDone s, ?_⟩
    simp [run_cons, step, hsafe]
  | cons change rest ih =>
    intro s hsafe
    obtain ⟨t, ht⟩ := ih { s with safeKeys := some rest, notified := s.notified ++ [change] } rfl
    refine ⟨t, ?_⟩
    show run (step period) s (.notify :: (replicate rest.length .notify ++ [.finish])) = some t
    rw [run_cons]
    simp only [step, hsafe]
    exact ht

lemma mem_buffer_entries (d : Dict Bytes Nat) (change : Change) :
    change ∈ (d.entries.map fun e => (e.1, e.2)) ↔ d.lookup change.1 = some change.2 := by
  rw [← mem_def, AList.mem_lookup_iff, List.mem_map]
  constructor
  · rintro ⟨⟨key, dbid⟩, hmem, rfl⟩
    exact hmem
  · intro hmem
    exact ⟨⟨change.1, change.2⟩, hmem, rfl⟩

/-- The buffer holds everything that was signalled exactly when no key was
signalled for two databases. -/
lemma buffered_complete_iff {pending : List Change} (hb : Buffered pending s) :
    (∀ change ∈ pending, s.buffer.lookup change.1 = some change.2) ↔ OneDatabasePerKey pending := by
  constructor
  · intro hall key d d' hd hd'
    have h1 := hall (key, d) hd
    have h2 := hall (key, d') hd'
    rw [h1, some.injEq] at h2
    exact h2
  · rintro hone ⟨key, d⟩ hmem
    obtain ⟨d', hd'⟩ := isSome_iff_exists.mp (hb.covers key d hmem)
    rw [hd', hone key d d' hmem (hb.sound key d' hd')]

/-- Every reachable state has its timer armed if something is buffered, and a
timer that is not being served can fire and be served to the end.  A flush
that starts there calls `observeNotifyKeyChangeImmediate` for no change
that was not signalled since the previous flush, and for every one that was
exactly when no key was signalled for two databases. -/
theorem flush_complete_iff (period : Nat) (hperiod : 0 < period) (events : List Event) (s : State)
    (hreach : run (step period) {} events = some s) :
    (s.buffer.entries ≠ [] → s.running = true ∧ s.timers = 1) ∧
    (s.running = true → s.safeKeys = none →
      ∃ during s₁ t, step period s .fire = some s₁ ∧ Event.finish ∉ during ∧
        run (step period) s₁ (during ++ [.finish]) = some t) ∧
    ∀ (during : List Event) (s₁ t : State), step period s .fire = some s₁ → Event.finish ∉ during →
      run (step period) s₁ (during ++ [.finish]) = some t →
      ∃ flushed, t.notified = s.notified ++ flushed ∧
        (∀ change ∈ flushed, change ∈ signalledSinceFlush events) ∧
        ((∀ change ∈ signalledSinceFlush events, change ∈ flushed) ↔
          OneDatabasePerKey (signalledSinceFlush events)) := by
  have hb := buffered_of_run hperiod hreach
  have htimers := hb.armed.timers_eq
  refine ⟨?_, ?_, ?_⟩
  · intro hne
    have hrun := hb.armed.buffer_running hne
    refine ⟨hrun, ?_⟩
    rw [htimers, if_pos hrun]
  · intro hrun hidle
    rw [if_pos hrun] at htimers
    obtain ⟨t, ht⟩ := handler_completes period _ (observeDebounceFlush s) rfl
    refine ⟨_, observeDebounceFlush s, t, ?_, ?_, ht⟩
    · simp only [step]
      rw [if_pos ⟨by omega, hidle⟩]
    · intro hmem
      exact absurd (eq_of_mem_replicate hmem) (by simp)
  intro during s₁ t hfire hfin hrun
  refine ⟨_, flush_calls hperiod hfire hfin hrun, ?_, ?_⟩
  · rintro ⟨key, d⟩ hmem
    exact hb.sound key d ((mem_buffer_entries s.buffer (key, d)).mp hmem)
  · rw [← buffered_complete_iff hb]
    simp [mem_buffer_entries]

/-- `k` changes in database 0 and then in database 1. -/
private def twoDatabases : List Event := [.signal 1 (ofString "k") 0, .signal 1 (ofString "k") 1]

/-- The flush notifies the second change only. -/
theorem flush_loses_first_database : ∃ s s₁ t, run (step 100) {} twoDatabases = some s ∧
      step 100 s .fire = some s₁ ∧
      run (step 100) s₁ [.notify, .finish] = some t ∧
      signalledSinceFlush twoDatabases = [(ofString "k", 0), (ofString "k", 1)] ∧
      s.notified = [] ∧ t.notified = [(ofString "k", 1)] := by
  exact ⟨_, _, _, rfl, rfl, rfl, rfl, rfl, rfl⟩

/-- Two keys, one change signalled by the notification itself. -/
theorem flush_complete_iff_sample : ∃ s s₁ t, run (step 100) {} [.signal 1 (ofString "k") 0,
        .signal 1 (ofString "l") 1] = some s ∧
      step 100 s .fire = some s₁ ∧
      run (step 100) s₁ ([.notify, .signal 1 (ofString "k") 0, .notify] ++ [.finish]) = some t ∧
      ∃ flushed, t.notified = s.notified ++ flushed ∧
        ∀ change ∈ [(ofString "k", 0), (ofString "l", 1)], change ∈ flushed := by
  refine ⟨_, _, _, rfl, rfl, rfl, ?_⟩
  obtain ⟨flushed, hcalls, _, hiff⟩ := (flush_complete_iff 100 (by decide)
    [.signal 1 (ofString "k") 0, .signal 1 (ofString "l") 1] _ rfl).2.2
    [.notify, .signal 1 (ofString "k") 0, .notify] _ _ rfl (by decide) rfl
  refine ⟨flushed, hcalls, hiff.mpr ?_⟩
  intro key d d' hd hd'
  simp only [signalledSinceFlush, pendingStep, foldl_cons, foldl_nil,
    Nat.one_ne_zero, if_false, nil_append, cons_append, mem_cons,
    Prod.mk.injEq, not_mem_nil, or_false] at hd hd'
  have hkl : ofString "k" ≠ ofString "l" := by decide
  rcases hd with ⟨hk, rfl⟩ | ⟨hk, rfl⟩ <;> rcases hd' with ⟨hk', rfl⟩ | ⟨hk', rfl⟩
  · rfl
  · exact absurd (hk.symm.trans hk') hkl
  · exact absurd (hk'.symm.trans hk) hkl
  · rfl

end Dice.Ports.ObserveDebounce
