import Dice.Ports.ObserveRegistry
import Mathlib.Logic.Relation

/-!
# Notifications

What a change of a key makes the server push to the observing clients.  The
handlers are the implementations of ordinary read commands; here they are one
parameter, `evaluate`, that maps a handler, its argument vector and the
contents of a database to a reply.  A client evaluates in the database it has
selected, as `c->db` does, which has the keys that are alive.

A handler may change its key and signal that: `PFCOUNT` of one key stores the
cardinality it has computed.  The change is notified before the handler replies.
-/

namespace Dice.Ports.ObserveNotify

open Verified CString Table ObserveHandlers ObserveRegistry Option

/-- One notification. -/
structure Push (Reply : Type) where
  client : ClientId
  fingerprint : Bytes
  reply : Reply
  deriving DecidableEq, Repr

section

variable {α β σ : Type}

/-- The results of a loop that changes a state. -/
def visit (f : α → σ → List β × σ) : List α → σ → List β × σ
  | [], w => ([], w)
  | a :: as, w =>
    let (bs, w) := f a w
    let (rest, w) := visit f as w
    (bs ++ rest, w)

/-- A property of the state is kept and one of the results holds. -/
def Keeps (I : σ → Prop) (Q : β → Prop) (f : σ → List β × σ) : Prop :=
  ∀ w, I w → I (f w).2 ∧ ∀ b ∈ (f w).1, Q b

variable {f : α → σ → List β × σ} {as : List α} {I : σ → Prop} {Q : β → Prop}

lemma Keeps.none : Keeps I Q fun w => ([], w) := fun _ hw => ⟨hw, nofun⟩

lemma Keeps.visit (h : ∀ a ∈ as, Keeps I Q (f a)) : Keeps I Q (visit f as) := by
  induction as with
  | nil => exact .none
  | cons a as ih =>
    intro w hw
    obtain ⟨hw, hhead⟩ := h a (by simp) w hw
    obtain ⟨hw, htail⟩ := ih (fun b hb => h b (by simp [hb])) _ hw
    refine ⟨hw, fun b hb => ?_⟩
    exact (List.mem_append.mp hb).elim (hhead b) (htail b)

end

section

variable {Value Reply : Type}

/-- The reply of a handler, and the contents of the database if it has changed its
key. -/
abbrev Evaluate (Value Reply : Type) :=
  Handler → List Bytes → Dict Bytes Value → Reply × Option (Dict Bytes Value)

/-- What a notification pushes, and the databases it leaves. -/
abbrev Notify (Value Reply : Type) :=
  (Nat → Dict Bytes Value) → List (Push Reply) × (Nat → Dict Bytes Value)

variable (evaluate : Evaluate Value Reply) (again : Notify Value Reply)

/-- `genericExecuteObserveNotification`: run the handler in the client's
database. -/
def genericExecuteObserveNotification (cid : ClientId) (c : Client) (handler : Handler)
    (argv : List Bytes) (fingerprint : Bytes) : Notify Value Reply := fun db =>
  match evaluate handler argv (db c.dbid) with
  | (reply, none) => ([⟨cid, fingerprint, reply⟩], db)
  | (reply, some d) =>
    let (nested, db) := again (Function.update db c.dbid d)
    (nested ++ [⟨cid, fingerprint, reply⟩], db)

def executeObserveCommand (s : Server) (info : ObserveCommandInfo)
    (fingerprint : Bytes) (dbid : Nat) : Notify Value Reply := fun db =>
  if ((db dbid).lookup info.key).isNone then ([], db)
  else
    match findHandlerForCommand info.command with
    | none => ([], db)
    | some handler =>
      visit (fun cid db =>
        match s.clients.lookup cid with
        | none => ([], db)
        | some c =>
          -- only notify if the client is in the same database
          if c.dbid ≠ dbid then ([], db)
          else
            genericExecuteObserveNotification evaluate again cid c handler info.argv
              fingerprint db) info.clients db

def observeNotifyKeyChangeImmediate (s : Server) (key : Bytes) (dbid : Nat) :
    Notify Value Reply :=
  visit (fun fingerprint db =>
    match s.observeFingerprints.lookup fingerprint with
    | none => ([], db)
    | some info => executeObserveCommand evaluate again s info fingerprint dbid db)
    (s.fingerprintsOf key)

/-- `observeNotifyKeyChange` with debounce period 0, for changes inside of
notifications up to a depth. -/
def observeNotifyKeyChange (s : Server) (key : Bytes) (dbid : Nat) : Nat → Notify Value Reply
  | 0 => fun db => ([], db)
  | depth + 1 => fun db =>
    if s.observingClients = 0 then ([], db)
    else
      observeNotifyKeyChangeImmediate evaluate (observeNotifyKeyChange s key dbid depth) s key
        dbid db

/-- Contents that handlers may make of the contents `d`. -/
def Reached (d d' : Dict Bytes Value) : Prop :=
  Relation.ReflTransGen (fun d d' => ∃ handler argv, (evaluate handler argv d).2 = some d') d d'

variable (s : Server) (key : Bytes) (info : ObserveCommandInfo) (fingerprint : Bytes) (dbid : Nat)

/-- A push that an observer of the key may get. -/
def Tells (d : Dict Bytes Value) (p : Push Reply) : Prop :=
  p.fingerprint ∈ s.fingerprintsOf key ∧ ∃ info handler d',
    s.observeFingerprints.lookup p.fingerprint = some info ∧
    findHandlerForCommand info.command = some handler ∧ p.client ∈ info.clients ∧
    (∃ c, s.clients.lookup p.client = some c ∧ c.dbid = dbid) ∧
    Reached evaluate d d' ∧ p.reply = (evaluate handler info.argv d').1

/-- Every push is of that kind, however deep it is nested. -/
lemma notify_tells (d : Dict Bytes Value) (depth : Nat) :
    Keeps (fun db => Reached evaluate d (db dbid)) (Tells evaluate s key dbid d)
      (observeNotifyKeyChange evaluate s key dbid depth) := by
  induction depth with
  | zero => exact .none
  | succ depth ih =>
    intro db hdb
    rw [observeNotifyKeyChange]
    split
    · exact ⟨hdb, nofun⟩
    refine Keeps.visit (I := fun db => Reached evaluate d (db dbid)) (fun f hf db hdb => ?_) db hdb
    split
    · exact ⟨hdb, nofun⟩
    next info hlook =>
    rw [executeObserveCommand]
    split
    · exact ⟨hdb, nofun⟩
    split
    · exact ⟨hdb, nofun⟩
    next handler hfound =>
    refine Keeps.visit (I := fun db => Reached evaluate d (db dbid))
      (fun cid hcid db hdb => ?_) db hdb
    split
    · exact ⟨hdb, nofun⟩
    next c hc =>
    split
    · exact ⟨hdb, nofun⟩
    next hsame =>
    have hdbid : c.dbid = dbid := by simpa using hsame
    have htells : Tells evaluate s key dbid d
        ⟨cid, f, (evaluate handler info.argv (db dbid)).1⟩ :=
      ⟨hf, info, handler, _, hlook, hfound, hcid, ⟨c, hc, hdbid⟩, hdb, rfl⟩
    rw [genericExecuteObserveNotification, hdbid]
    split
    next reply heval =>
      rw [heval] at htells
      exact ⟨hdb, by simpa using htells⟩
    next reply d' heval =>
      rw [heval] at htells
      have hreached : Reached evaluate d (Function.update db dbid d' dbid) := by
        rw [Function.update_self]
        exact hdb.tail ⟨handler, info.argv, by rw [heval]⟩
      obtain ⟨hdb', hnested⟩ := ih (Function.update db dbid d') hreached
      refine ⟨hdb', fun p hp => ?_⟩
      rcases List.mem_append.mp hp with hp | hp
      · exact hnested p hp
      · rw [List.mem_singleton.mp hp]
        exact htells

/-! ## Handlers that change nothing -/

variable (db : Nat → Dict Bytes Value)

end

end Dice.Ports.ObserveNotify
