import Dice.Ports.BlockedConsistency

/-!
# Blocking list commands

The databases of the blocking model hold lists, and the blocked clients run
BLPOP, BRPOP or BLMOVE (`blockingPopGenericCommand` and `blmoveGenericCommand`
of `t_list.c`).  A command that finds an element takes it; otherwise it blocks
its client.  A key without an element has no list: `dbAdd` creates the list with
its first element and signals the key, `dbDelete` removes it with its last.

Every element that is handed to a client is noted, with the key it was taken
from and, for a move, the key it was pushed to.
-/

namespace Dice.Ports.BlockingLists

open Verified CString Table Index BlockedClients Option Function

/-- `LIST_HEAD` and `LIST_TAIL`. -/
inductive End where
  | head
  | tail
deriving DecidableEq, Repr

def listTypePop (side : End) (l : List Bytes) : Option (Bytes × List Bytes) :=
  match side with
  | .head => l.head?.map fun v => (v, l.tail)
  | .tail => l.getLast?.map fun v => (v, l.dropLast)

def listTypePush (side : End) (v : Bytes) (l : List Bytes) : List Bytes :=
  match side with
  | .head => v :: l
  | .tail => l ++ [v]

/-- The commands, with their timeout. -/
inductive Command where
  | pop (side : End) (keys : List Bytes) (timeout : Nat)
  | move (src dst : Bytes) (wherefrom whereto : End) (timeout : Nat)
deriving DecidableEq, Repr

/-- The keys a command waits for. -/
def Command.keys : Command → List Bytes
  | .pop _ keys _ => keys
  | .move src _ _ _ _ => [src]

/-- A reply with an element: `target` is the list it was moved to. -/
structure Delivery where
  cid : ClientId
  db : DbId
  key : Bytes
  value : Bytes
  target : Option Bytes := none
deriving DecidableEq, Repr

/-- What the databases hold, the last command of each client with the database
it was sent to, and the deliveries so far. -/
structure World where
  lists : DbId → Dict Bytes (List Bytes) := fun _ => ∅
  argv : Dict ClientId (DbId × Command) := ∅
  log : List Delivery := []

variable (w : World) (cid : ClientId)

/-- The elements under a key. -/
def World.elements (db : DbId) (key : Bytes) : List Bytes := members (w.lists db) key

/-- The type of the object under a key. -/
def typeOf (db : DbId) (key : Bytes) : Option ObjType :=
  ((w.lists db).lookup key).map fun _ => .list

/-- A command leaves the list `l` under a key: `dbAdd` if there was none,
`dbDelete` if none remains. -/
def World.setList (db : DbId) (key : Bytes) (l : List Bytes) : World × List Signal :=
  let absent := ((w.lists db).lookup key).isNone
  if l = [] then
    ({ w with lists := update w.lists db ((w.lists db).erase key) },
      if absent then [] else [{ db, key, type := .list, deleted := true }])
  else
    ({ w with lists := update w.lists db ((w.lists db).insert key l) },
      if absent then [{ db, key, type := .list }] else [])

/-- A client has sent a command. -/
def World.send (db : DbId) (cmd : Command) : World := { w with argv := w.argv.insert cid (db, cmd) }

/-- The client gets an element. -/
def World.deliver (d : Delivery) : World := { w with log := w.log ++ [d] }

/-- The body of the loop of `blockingPopGenericCommand`. -/
def popKey (db : DbId) (w : World) (side : End) (key : Bytes) : Option (Ran World) :=
  ((w.lists db).lookup key).bind fun l =>
    (listTypePop side l).map fun vl =>
      let res := w.setList db key vl.2
      { data := res.1.deliver { cid, db, key, value := vl.1 }, signals := res.2 }

/-- `lmoveGenericCommand`.  When source and destination are the same list, it is
never empty in between. -/
def lmoveGenericCommand (db : DbId) (w : World) (src dst : Bytes) (wherefrom whereto : End) :
    Option (Ran World) :=
  ((w.lists db).lookup src).bind fun l =>
    (listTypePop wherefrom l).map fun vl =>
      let d : Delivery := { cid, db, key := src, value := vl.1, target := some dst }
      if src = dst then
        let res := w.setList db src (listTypePush whereto vl.1 vl.2)
        { data := res.1.deliver d, signals := res.2 }
      else
        let res₁ := w.setList db dst (listTypePush whereto vl.1 (w.elements db dst))
        let res₂ := res₁.1.setList db src vl.2
        { data := res₂.1.deliver d, signals := res₁.2 ++ res₂.2 }

/-- The client has to wait. -/
def wait (cmd : Command) (timeout : Nat) : Ran World :=
  { data := w, block := some { btype := .list, keys := cmd.keys, timeout := timeout } }

/-- `blockingPopGenericCommand` and `blmoveGenericCommand`. -/
def execute (db : DbId) (w : World) (cmd : Command) : Ran World :=
  match cmd with
  | .pop side keys timeout => (keys.findSome? (popKey cid db w side)).getD (wait w cmd timeout)
  | .move src dst wherefrom whereto timeout =>
    (lmoveGenericCommand cid db w src dst wherefrom whereto).getD (wait w cmd timeout)

/-- A blocked client executes its command again. -/
def behaviour : Behaviour World where
  exec cid w := ((w.argv.lookup cid).map fun e => execute cid e.1 w e.2).getD { data := w }
  serve _ _ w := ({ data := w }, false)

/-- `handleClientsBlockedOnKeys`, for at most `fuel` rounds. -/
def handle (fuel : Nat) (srv : Server World) : Option (Server World) :=
  handleClientsBlockedOnKeys typeOf behaviour fuel srv

/-- What can happen; `store` stands for the commands that create, change and
delete lists. -/
inductive Event where
  | connect (cid : ClientId) (isModule primary : Bool)
  | select (cid : ClientId) (db : DbId)
  | store (db : DbId) (key : Bytes) (l : List Bytes)
  | call (cid : ClientId) (cmd : Command)
  | handle (fuel : Nat)
  | timeout (cid : ClientId)
  | unblock (cid : ClientId) (error : Bool)
  | release (cid : ClientId)

/-- One event.  A blocked client sends no command. -/
def step (srv : Server World) : Event → Option (Server World)
  | .connect cid isModule primary => BlockedClients.step typeOf srv (.connect cid isModule primary)
  | .select cid db => BlockedClients.step typeOf srv (.select cid db)
  | .store db key l =>
    let res := srv.data.setList db key l
    some (res.2.foldl signalKeyAsReadyLogic { srv with data := res.1 })
  | .call cid cmd => srv.withClient cid fun c =>
    if c.blocked then some srv
    else processCommand srv cid c (execute cid c.db (srv.data.send cid c.db cmd) cmd)
  | .handle fuel => handle fuel srv
  | .timeout cid => BlockedClients.step typeOf srv (.timeout cid)
  | .unblock cid error => BlockedClients.step typeOf srv (.unblock cid error)
  | .release cid => BlockedClients.step typeOf srv (.release cid)

/-! ## What a command does to the lists -/

lemma elements_setList (w : World) (db : DbId) (key : Bytes) (l : List Bytes) (db' : DbId)
    (key' : Bytes) : (w.setList db key l).1.elements db' key' =
    if db' = db ∧ key' = key then l else w.elements db' key' := by
  unfold World.setList World.elements members
  by_cases hdb : db' = db
  · subst hdb
    by_cases hl : l = []
    · subst hl
      simp only [if_true, update_self, lookup_erase_eq, true_and]
      split <;> rfl
    · simp only [if_neg hl, update_self, lookup_insert_eq, true_and]
      split <;> rfl
  · by_cases hl : l = []
    · simp [hl, hdb]
    · simp [hl, hdb]

/-- No list is empty. -/
def Filled : Prop := ∀ db key, (w.lists db).lookup key ≠ some []

variable {w : World} {db : DbId}

/-- Under that condition a key has a list if it has an element. -/
lemma Filled.lookup_isSome (h : Filled w) (db : DbId) (key : Bytes) :
    ((w.lists db).lookup key).isSome ↔ w.elements db key ≠ [] := by
  unfold World.elements members
  cases hl : (w.lists db).lookup key with
  | none => simp
  | some l =>
    have hne : l ≠ [] := fun hnil => h db key (hnil ▸ hl)
    simpa using hne

lemma filled_setList (h : Filled w) (db : DbId) (key : Bytes) (l : List Bytes) :
    Filled (w.setList db key l).1 := by
  intro db' key'
  unfold World.setList
  by_cases hdb : db' = db
  · subst hdb
    by_cases hl : l = []
    · simp only [if_pos hl, update_self, lookup_erase_eq]
      split
      · simp
      · exact h db' key'
    · simp only [if_neg hl, update_self, lookup_insert_eq]
      split
      · simpa using hl
      · exact h db' key'
  · by_cases hl : l = []
    · simpa [hl, hdb] using h db' key'
    · simpa [hl, hdb] using h db' key'

/-- A change of the lists signals every key that was empty and is not any more. -/
structure Signalled (w w' : World) (signals : List Signal) : Prop where
  filled : Filled w'
  created : ∀ db key, w.elements db key = [] → w'.elements db key ≠ [] →
    { db, key, type := .list } ∈ signals

lemma signalled_setList (h : Filled w) (db : DbId) (key : Bytes) (l : List Bytes) :
    Signalled w (w.setList db key l).1 (w.setList db key l).2 where
  filled := filled_setList h db key l
  created db' key' hold hnew := by
    rw [elements_setList] at hnew
    split at hnew
    · next hat =>
      obtain ⟨rfl, rfl⟩ := hat
      have habsent : ((w.lists db').lookup key').isNone := by
        have hiff := h.lookup_isSome db' key'
        rw [hold] at hiff
        simpa using hiff
      unfold World.setList
      rw [if_neg hnew]
      simp [habsent]
    · exact absurd hold hnew

lemma Signalled.trans {w1 w2 w3 : World} {s₁ s2 : List Signal} (h1 : Signalled w1 w2 s₁)
    (h2 : Signalled w2 w3 s2) : Signalled w1 w3 (s₁ ++ s2) where
  filled := h2.filled
  created db key hold hnew := by
    rw [List.mem_append]
    by_cases hmid : w2.elements db key = []
    · exact .inr (h2.created db key hmid hnew)
    · exact .inl (h1.created db key hold hmid)

lemma Signalled.deliver {w' : World} {signals : List Signal} (h : Signalled w w' signals)
    (d : Delivery) : Signalled w (w'.deliver d) signals :=
  ⟨h.filled, h.created⟩

/-- How often a delivery takes an element from, and pushes one to, a key. -/
def Delivery.takes (d : Delivery) (db : DbId) (key : Bytes) : Nat :=
  if d.db = db ∧ d.key = key then 1 else 0

def Delivery.puts (d : Delivery) (db : DbId) (key : Bytes) : Nat :=
  if d.db = db ∧ d.target = some key then 1 else 0

/-- What a command does that finds an element: it delivers one, to its client
and from one of its keys, and the lists change by that element only. -/
structure Takes (cid : ClientId) (db : DbId) (keys : List Bytes) (w : World) (r : Ran World)
    (d : Delivery) : Prop where
  block : r.block = none
  client : d.cid = cid
  base : d.db = db
  key : d.key ∈ keys
  log : r.data.log = w.log ++ [d]
  argv : r.data.argv = w.argv
  balance : ∀ db' key', (r.data.elements db' key').length + d.takes db' key' =
    (w.elements db' key').length + d.puts db' key'
  signalled : Signalled w r.data r.signals

lemma length_pop {side : End} {l : List Bytes} {v : Bytes} {rest : List Bytes}
    (h : listTypePop side l = some (v, rest)) : rest.length + 1 = l.length := by
  cases side with
  | head =>
    cases l with
    | nil => simp [listTypePop] at h
    | cons x l =>
      have hrest : l = rest := by simpa [listTypePop] using (congrArg (·.map Prod.snd) h)
      simp [← hrest]
  | tail =>
    cases hl : l.getLast? with
    | none => simp [listTypePop, hl] at h
    | some x =>
      have hrest : l.dropLast = rest := by
        simpa [listTypePop, hl] using (congrArg (·.map Prod.snd) h)
      have hpos : 0 < l.length := by
        cases l with
        | nil => simp at hl
        | cons y l => simp
      rw [← hrest, List.length_dropLast]
      omega

lemma length_push (side : End) (v : Bytes) (l : List Bytes) :
    (listTypePush side v l).length = l.length + 1 := by
  cases side <;> simp [listTypePush]

lemma exists_pop (side : End) {l : List Bytes} (h : l ≠ []) :
    ∃ vl, listTypePop side l = some vl := by
  cases side with
  | head =>
    cases l with
    | nil => exact absurd rfl h
    | cons x l => exact ⟨_, rfl⟩
  | tail => exact ⟨_, by rw [listTypePop, List.getLast?_eq_some_getLast h]; rfl⟩

section

variable (w : World) (db : DbId) (key : Bytes) (l : List Bytes)

lemma argv_setList : (w.setList db key l).1.argv = w.argv := by
  unfold World.setList
  split <;> rfl

lemma log_setList : (w.setList db key l).1.log = w.log := by
  unfold World.setList
  split <;> rfl

end

/-- `blockingPopGenericCommand` at one key. -/
lemma popKey_takes {cid : ClientId} (hw : Filled w) {side : End}
    {key : Bytes} {keys : List Bytes} (hkey : key ∈ keys) {r : Ran World}
    (h : popKey cid db w side key = some r) : ∃ d, Takes cid db keys w r d := by
  unfold popKey at h
  cases hl : (w.lists db).lookup key with
  | none => simp [hl] at h
  | some l =>
    cases hp : listTypePop side l with
    | none => simp [hl, hp] at h
    | some vl =>
      have hlen := length_pop hp
      have hel : w.elements db key = l := members_of_lookup hl
      simp only [hl, bind_some, hp, map_some, some.injEq] at h
      subst h
      refine ⟨{ cid, db, key, value := vl.1 }, ⟨rfl, rfl, rfl, hkey, ?_, argv_setList _ _ _ _, ?_,
        (signalled_setList hw db key vl.2).deliver _⟩⟩
      · exact congrArg (· ++ _) (log_setList _ _ _ _)
      intro db' key'
      show ((w.setList db key vl.2).1.elements db' key').length + _ = _
      rw [elements_setList, Delivery.takes, Delivery.puts]
      by_cases hat : db' = db ∧ key' = key
      · obtain ⟨rfl, rfl⟩ := hat
        simp [hel, hlen]
      · have hat' : ¬(db = db' ∧ key = key') := fun ⟨h1, h2⟩ => hat ⟨h1.symm, h2.symm⟩
        simp [hat, hat']

lemma lmoveGenericCommand_takes {cid : ClientId} (hw : Filled w)
    {src dst : Bytes} {wherefrom whereto : End} {r : Ran World}
    (h : lmoveGenericCommand cid db w src dst wherefrom whereto = some r) :
    ∃ d, Takes cid db [src] w r d := by
  unfold lmoveGenericCommand at h
  cases hl : (w.lists db).lookup src with
  | none => simp [hl] at h
  | some l =>
    cases hp : listTypePop wherefrom l with
    | none => simp [hl, hp] at h
    | some vl =>
      have hlen := length_pop hp
      have hel : w.elements db src = l := members_of_lookup hl
      by_cases hsame : src = dst
      · subst hsame
        simp only [hl, bind_some, hp, map_some, some.injEq] at h
        subst h
        refine ⟨{ cid, db, key := src, value := vl.1, target := some src },
          ⟨rfl, rfl, rfl, by simp, ?_, argv_setList _ _ _ _, ?_,
          (signalled_setList hw db src _).deliver _⟩⟩
        · exact congrArg (· ++ _) (log_setList _ _ _ _)
        intro db' key'
        show ((w.setList db src _).1.elements db' key').length + _ = _
        rw [elements_setList, Delivery.takes, Delivery.puts]
        by_cases hat : db' = db ∧ key' = src
        · obtain ⟨rfl, rfl⟩ := hat
          simp [hel, length_push, hlen]
        · have hat' : ¬(db = db' ∧ src = key') := fun ⟨h1, h2⟩ => hat ⟨h1.symm, h2.symm⟩
          simp [hat]
      · simp only [hl, bind_some, hp, map_some, some.injEq, if_neg hsame] at h
        subst h
        have hdst := signalled_setList hw db dst (listTypePush whereto vl.1 (w.elements db dst))
        refine ⟨{ cid, db, key := src, value := vl.1, target := some dst },
          ⟨rfl, rfl, rfl, by simp, ?_,
          (argv_setList _ _ _ _).trans (argv_setList _ _ _ _), ?_,
          (hdst.trans (signalled_setList hdst.filled db src vl.2)).deliver _⟩⟩
        · exact congrArg (· ++ _) ((log_setList _ _ _ _).trans (log_setList _ _ _ _))
        intro db' key'
        show (((w.setList db dst _).1.setList db src vl.2).1.elements db' key').length + _ = _
        rw [elements_setList, elements_setList, Delivery.takes, Delivery.puts]
        by_cases hdb : db' = db
        · subst hdb
          by_cases hsrc : key' = src
          · subst hsrc
            simp [hel, hlen, Ne.symm hsame]
          by_cases hdk : key' = dst
          · subst hdk
            simp [hsrc, Ne.symm hsrc, length_push]
          · simp [hsrc, hdk, Ne.symm hsrc, Ne.symm hdk]
        · simp [hdb, Ne.symm hdb]

/-- A command one of whose keys has an element takes one. -/
lemma execute_takes (cid : ClientId) (hw : Filled w) {cmd : Command}
    {key : Bytes} (hkey : key ∈ cmd.keys) (hel : w.elements db key ≠ []) :
    ∃ d, Takes cid db cmd.keys w (execute cid db w cmd) d := by
  obtain ⟨l, hl⟩ := isSome_iff_exists.mp ((hw.lookup_isSome db key).mpr hel)
  have hne : l ≠ [] := fun hnil => hw db key (hnil ▸ hl)
  cases cmd with
  | pop side keys timeout =>
    obtain ⟨vl, hvl⟩ := exists_pop side hne
    have hfound : (keys.findSome? (popKey cid db w side)).isSome := by
      rw [List.findSome?_isSome_iff]
      exact ⟨key, hkey, by simp [popKey, hl, hvl]⟩
    obtain ⟨r, hr⟩ := isSome_iff_exists.mp hfound
    obtain ⟨key', hkey', hpop⟩ := List.exists_of_findSome?_eq_some hr
    rw [execute, hr]
    exact popKey_takes hw hkey' hpop
  | move src dst wherefrom whereto timeout =>
    have hsrc : key = src := by simpa [Command.keys] using hkey
    subst hsrc
    obtain ⟨vl, hvl⟩ := exists_pop wherefrom hne
    obtain ⟨r, hr⟩ : ∃ r, lmoveGenericCommand cid db w key dst wherefrom whereto = some r := by
      rw [lmoveGenericCommand, hl, bind_some, hvl]
      exact ⟨_, rfl⟩
    rw [execute, hr]
    exact lmoveGenericCommand_takes hw hr

/-- A command none of whose keys has an element waits. -/
lemma execute_waits (cid : ClientId) {cmd : Command}
    (hno : ∀ key ∈ cmd.keys, (w.lists db).lookup key = none) :
    ∃ timeout, execute cid db w cmd = wait w cmd timeout := by
  cases cmd with
  | pop side keys timeout =>
    refine ⟨timeout, ?_⟩
    have hnone : keys.findSome? (popKey cid db w side) = none := by
      rw [List.findSome?_eq_none_iff]
      intro key hkey
      rw [popKey, hno key hkey, bind_none]
    rw [execute, hnone, getD_none]
  | move src dst wherefrom whereto timeout =>
    refine ⟨timeout, ?_⟩
    rw [execute, lmoveGenericCommand, hno src (by simp [Command.keys]), bind_none, getD_none]

end Dice.Ports.BlockingLists
