import Dice.Ports.ListpackEdits

/-!
# Listpacks as lists

Programs that work on several listpacks, beside the same programs on lists of
byte strings.  An element is given by its index: the program gets its pointer
by walking to it, and a pointer that a call returns is that of the element with
the index the list operation returns.  A call that returns NULL or fails an
assertion has no successor; for lists that is the case if the elements do not
fit into a listpack.
-/

namespace Dice.Ports.ListpackRefinement

open List Verified CString Run Walk Resp Listpack ListpackValidation Function Option
open ListpackEncoding ListpackEdits

/-! ## Programs -/

/-- A call that edits one listpack.  The elements of `lpBatchDelete` are given in
their order. -/
inductive Edit
  | append (s : Bytes)
  | prepend (s : Bytes)
  | insertString (s : Bytes) (i : Nat) (place : Where)
  | insertInteger (lval : Int64) (i : Nat) (place : Where)
  | replace (i : Nat) (s : Bytes)
  | delete (i : Nat)
  | deleteRange (index : Int) (num : Nat)
  | deleteRangeWithEntry (i num : Nat)
  | batchDelete (is : { is : List Nat // is.Pairwise (· < ·) })

/-- A call; listpacks have names. -/
inductive Call
  | new (h : Nat)
  | edit (h : Nat) (e : Edit)
  | merge (first second : Nat)

/-- The listpacks in use, and the pointer that the last call returned, if it
returns one, with the name of its listpack. -/
structure State (α : Type) where
  lists : Nat → Option α
  returned : Option (Nat × Option Nat)

/-- The step of a call, by what it means for one or two listpacks. -/
def step {α : Type} (new : α) (edit : Edit → α → Option (α × Option (Option Nat)))
    (merge : α → α → Option α) (s : State α) : Call → Option (State α)
  | .new h => some ⟨update s.lists h (some new), none⟩
  | .edit h e => do
      let a ← s.lists h
      let (a, p) ← edit e a
      some ⟨update s.lists h (some a), p.map (Prod.mk h)⟩
  | .merge first second =>
    if first = second then none
    else do
      let a ← s.lists first
      let b ← s.lists second
      let c ← merge a b
      some ⟨update (update s.lists second none) first (some c), none⟩

def start {α : Type} : State α := ⟨fun _ => none, none⟩

/-- The pointer of an element. -/
def elementAt (lp : Bytes) (i : Nat) : Option Nat :=
  ((lpFirst lp).bind (advance (lpNext lp) i)).join

/-- A call that returns a pointer. -/
def pointing {α : Type} (r : Option (Option (α × Option Nat))) :
    Option (α × Option (Option Nat)) := r.join.map fun (a, p) => (a, some p)

/-- A call that is not asked for the pointer. -/
def plain {α β : Type} (r : Option (Option (α × Option Nat))) : Option (α × Option β) :=
  r.join.map fun (a, _) => (a, none)

def lpEdit : Edit → Bytes → Option (Bytes × Option (Option Nat))
  | .append s, lp => plain (lpAppend lp s)
  | .prepend s, lp => plain (lpPrepend lp s)
  | .insertString s i place, lp => do
      let p ← elementAt lp i
      pointing (lpInsertString lp s p place)
  | .insertInteger lval i place, lp => do
      let p ← elementAt lp i
      pointing (lpInsertInteger lp lval p place)
  | .replace i s, lp => do
      let p ← elementAt lp i
      pointing (lpReplace lp p s)
  | .delete i, lp => do
      let p ← elementAt lp i
      pointing (lpDelete lp p)
  | .deleteRange index num, lp => (lpDeleteRange lp index num).map fun lp => (lp, none)
  | .deleteRangeWithEntry i num, lp => do
      let p ← elementAt lp i
      pointing (some (lpDeleteRangeWithEntry lp p num))
  | .batchDelete is, lp => do
      let ps ← is.1.mapM (elementAt lp)
      (lpBatchDelete lp ps).map fun lp => (lp, none)

/-- Lists whose elements fit into a listpack. -/
def fits (xs : List Bytes) : Option (List Bytes) :=
  if packedSize xs ≤ uint32Max then some xs else none

/-- The index of an element, or nothing behind the last one. -/
def indexIn (xs : List Bytes) (i : Nat) : Option Nat := if i < xs.length then some i else none

/-- A list beside the index an operation returns. -/
def returning (xs : List Bytes) (i : Nat) : Option (List Bytes × Option (Option Nat)) := do
  let xs ← fits xs
  some (xs, some (indexIn xs i))

/-- An element put before, behind or in place of another one, and where it is. -/
def placed (xs : List Bytes) (x : Bytes) (i : Nat) : Where → List Bytes × Nat
  | .before => (xs.insertIdx i x, i)
  | .after => (xs.insertIdx (i + 1) x, i + 1)
  | .replace => (xs.set i x, i)

def listInsert (xs : List Bytes) (x : Bytes) (i : Nat) (place : Where) :
    Option (List Bytes × Option (Option Nat)) :=
  if i < xs.length then returning (placed xs x i place).1 (placed xs x i place).2 else none

def listEdit : Edit → List Bytes → Option (List Bytes × Option (Option Nat))
  | .append s, xs => (fits (xs ++ [s])).map fun xs => (xs, none)
  | .prepend s, xs => (fits (s :: xs)).map fun xs => (xs, none)
  | .insertString s i place, xs => listInsert xs s i place
  | .insertInteger lval i place, xs => listInsert xs (decimalInt lval.toInt) i place
  | .replace i s, xs => listInsert xs s i .replace
  | .delete i, xs => if i < xs.length then returning (xs.eraseIdx i) i else none
  | .deleteRange index num, xs =>
    some ((listIndex xs.length index).elim xs fun i => xs.take i ++ xs.drop (i + num), none)
  | .deleteRangeWithEntry i num, xs =>
    if i < xs.length then returning (xs.take i ++ xs.drop (i + num)) i else none
  | .batchDelete is, xs =>
    if ∀ i ∈ is.1, i < xs.length then some (without is.1 0 xs, none) else none

def listMerge (xs ys : List Bytes) : Option (List Bytes) :=
  if packedSize (xs ++ ys) < uint32Max then some (xs ++ ys) else none

/-- Programs on listpacks. -/
def lpStep : State Bytes → Call → Option (State Bytes) := step lpNew lpEdit lpMerge

/-- The same programs on lists of byte strings. -/
def listStep : State (List Bytes) → Call → Option (State (List Bytes)) := step [] listEdit listMerge

/-! ## One call -/

/-- A listpack and a pointer into it beside a list and an index. -/
def Edited (r : Bytes × Option (Option Nat)) (a : List Bytes × Option (Option Nat)) : Prop :=
  (∃ n, Packed r.1 a.1 n) ∧
    Option.Rel (Option.Rel fun p i => i < a.1.length ∧ p = offset a.1 i) r.2 a.2

variable {lp : Bytes} {xs : List Bytes} {n : Nat}

lemma elementAt_eq (h : Packed lp xs n) (i : Nat) :
    elementAt lp i = if i < xs.length then some (offset xs i) else none := by
  have hlen := length_positions xs
  rw [elementAt, h.walkable.first_eq, bind_some, h.walkable.walks_next.advance_eq]
  split
  next hi => rw [getElem?_positions hi, join_some]
  next hi => rw [getElem?_eq_none (by omega), join_some]

variable {i : Nat} {ys : List Bytes}

lemma rel_elementAt (h : Packed lp xs n) {β γ : Type} {R : β → γ → Prop}
    {f : Nat → Option β} {b : Option γ} (hrel : i < xs.length → Option.Rel R (f (offset xs i)) b) :
    Option.Rel R ((elementAt lp i).bind f) (if i < xs.length then b else none) := by
  rw [elementAt_eq h]
  split
  next hi => exact hrel hi
  next => exact .none

lemma insertIdx_append {α : Type*} (as bs : List α) (x : α) :
    (as ++ bs).insertIdx as.length x = as ++ x :: bs := by
  induction as with
  | nil => rfl
  | cons a as ih => rw [cons_append, length_cons, insertIdx_succ_cons, ih]; rfl

lemma split_at_index {α : Type*} {xs : List α} (hi : i < xs.length) :
    ∃ as x bs, xs = as ++ x :: bs ∧ i = as.length := by
  refine ⟨xs.take i, xs[i], xs.drop (i + 1), ?_, ?_⟩
  · rw [getElem_cons_drop, take_append_drop]
  · rw [length_take]
    omega

/-- The pointer of a place, which is nothing at the end. -/
lemma rel_indexIn (as bs : List Bytes) :
    Option.Rel (fun p i => i < (as ++ bs).length ∧ p = offset (as ++ bs) i)
    (if bs = [] then none else some (endOf as)) (indexIn (as ++ bs) as.length) := by
  rw [indexIn]
  cases bs with
  | nil =>
    rw [if_pos rfl, if_neg (by simp)]
    exact .none
  | cons b bs =>
    rw [if_neg (by simp), if_pos (by simp)]
    exact .some ⟨by simp, (offset_append _ _).symm⟩

lemma lpInsertAt_rel (as ms : List Bytes) {bs : List Bytes} {ele : Element} {replace : Bool}
    (h : Packed lp (as ++ (ms ++ bs)) n) (hele : StoresAs ele ys)
    (hms : ms.length = if replace then 1 else 0) (hdel : ele.isDelete → replace) :
    Option.Rel Edited (pointing (lpInsertAt lp ele (endOf as) replace))
    (returning (as ++ (ys ++ bs)) as.length) := by
  have hspec := lpInsertAt_spec h hele hms hdel
  rw [returning, fits]
  split at hspec
  next hfits =>
    obtain ⟨lp', n', hrun, hpacked⟩ := hspec
    rw [if_pos hfits, hrun]
    exact .some ⟨⟨n', hpacked⟩, .some (rel_indexIn as (ys ++ bs))⟩
  next hbig =>
    rw [if_neg hbig, hspec]
    exact .none

lemma lpInsert_rel {ele : Element} {x : Bytes} (hele : StoresAs ele [x]) (h : Packed lp xs n)
    (place : Where) :
    Option.Rel Edited ((elementAt lp i).bind fun p => pointing (lpInsert lp ele p place))
    (listInsert xs x i place) := by
  have hdel : ele.isDelete = false := by
    have hlen := hele.length_eq
    cases hdel : ele.isDelete with
    | true => simp [hdel] at hlen
    | false => rfl
  refine rel_elementAt h fun hi => ?_
  obtain ⟨as, m, bs, rfl, rfl⟩ := split_at_index hi
  rw [offset_append]
  cases place with
  | before =>
    rw [placed, insertIdx_append, lpInsert, hdel]
    exact lpInsertAt_rel _ [] h hele rfl (by simp [hdel])
  | after =>
    have hskip := h.entryAt.skip
    rw [append_cons] at h ⊢
    have hassert : assertIntegrityLen lp (endOf (as ++ [m])) 0 = some () := by
      have hlen := h.length_eq
      rw [assertIntegrityLen, h.walkable.total, some_bind, if_pos ⟨by rw [endOf]; omega, by omega⟩]
    have hplaced : placed (as ++ [m] ++ bs) x as.length .after =
      (as ++ [m] ++ ([x] ++ bs), (as ++ [m]).length) := by
      have hidx := insertIdx_append (as ++ [m]) bs x
      rw [length_append, length_singleton] at hidx
      rw [placed, hidx, length_append]
      rfl
    rw [hplaced, lpInsert, hdel]
    simp only [hskip, some_bind, hassert]
    exact lpInsertAt_rel _ [] h hele rfl (by simp [hdel])
  | replace =>
    have hset : (as ++ m :: bs).set as.length x = as ++ ([x] ++ bs) := by simp
    rw [placed, hset, lpInsert, hdel]
    exact lpInsertAt_rel as [m] h hele rfl (by simp)

/-- Appending and prepending, where no pointer is asked for. -/
lemma rel_plain {r : Option (Option (Bytes × Option Nat))}
    (h : Option.Rel Edited (pointing r) (returning ys i)) :
    Option.Rel Edited (plain r) ((fits ys).map fun ys => (ys, none)) := by
  rw [returning, fits] at h
  rw [fits]
  split at h
  next hfits =>
    rw [if_pos hfits]
    match r, h with
    | some (some _), .some h => exact .some ⟨h.1, .none⟩
  next hbig =>
    rw [if_neg hbig]
    match r, h with
    | some none, _ => exact .none
    | none, _ => exact .none

section

variable (h : Packed lp xs n)

include h

lemma lpAppend_rel (s : Bytes) :
    Option.Rel Edited (pointing (lpAppend lp s)) (returning (xs ++ [s]) xs.length) := by
  have hlen : lp.length = endOf xs + 1 := by
    rw [h.lp_eq, length_layout]
    rfl
  have hrun : lpAppend lp s = lpInsertAt lp (.string s) (endOf xs) false := by
    simp only [lpAppend, h.walkable.total, hlen]
    rfl
  rw [hrun]
  rw [← append_nil xs] at h
  exact lpInsertAt_rel xs [] h (storesAs_string s) rfl (by simp [Element.isDelete])

lemma lpPrepend_rel (s : Bytes) :
    Option.Rel Edited (pointing (lpPrepend lp s)) (returning (s :: xs) 0) := by
  cases xs with
  | nil =>
    have hrun : lpPrepend lp s = lpAppend lp s := by
      rw [lpPrepend, h.walkable.first_eq]
      rfl
    rw [hrun]
    exact lpAppend_rel h s
  | cons x xs =>
    have hrun : lpPrepend lp s = lpInsertAt lp (.string s) (endOf []) false := by
      rw [lpPrepend, h.walkable.first_eq]
      rfl
    rw [hrun]
    exact lpInsertAt_rel [] [] h (storesAs_string s) rfl (by simp [Element.isDelete])

lemma lpDelete_rel (hi : i < xs.length) :
    Option.Rel Edited (pointing (lpDelete lp (offset xs i))) (returning (xs.eraseIdx i) i) := by
  obtain ⟨as, m, bs, rfl, rfl⟩ := split_at_index hi
  have herase : (as ++ m :: bs).eraseIdx as.length = as ++ ([] ++ bs) := by
    rw [eraseIdx_append_of_length_le (Nat.le_refl _), Nat.sub_self]
    rfl
  rw [herase, offset_append]
  exact lpInsertAt_rel as [m] h storesAs_delete rfl (fun _ => rfl)

lemma lpDeleteRangeWithEntry_rel (hi : i < xs.length) (num : Nat) :
    Option.Rel Edited (pointing (some (lpDeleteRangeWithEntry lp (offset xs i) num)))
    (returning (xs.take i ++ xs.drop (i + num)) i) := by
  have htake : (xs.take i).length = i := by
    rw [length_take]
    omega
  have hsplit : xs = xs.take i ++ ((xs.drop i).take num ++ xs.drop (i + num)) := by
    rw [← drop_drop, take_append_drop, take_append_drop]
  have hcut : ∃ lp' n', lpDeleteRangeWithEntry lp (offset xs i) num =
    some (lp', if xs.drop (i + num) = [] then none else some (offset xs i)) ∧
      Packed lp' (xs.take i ++ xs.drop (i + num)) n' := by
    by_cases hzero : num = 0
    · subst hzero
      refine ⟨lp, n, ?_, by rwa [Nat.add_zero, take_append_drop]⟩
      rw [if_neg (by rw [drop_eq_nil_iff]; omega), lpDeleteRangeWithEntry, h.walkable.total]
      rfl
    rw [hsplit] at h
    refine lpDeleteRangeWithEntry_spec h num ?_ ?_
    · apply ne_nil_of_length_pos
      rw [length_take, length_drop]
      omega
    · rw [length_take, length_drop, drop_eq_nil_iff]
      omega
  obtain ⟨lp', n', hrun, hpacked⟩ := hcut
  have hrel := rel_indexIn (xs.take i) (xs.drop (i + num))
  rw [htake] at hrel
  rw [hrun, returning, fits, if_pos hpacked.size_le]
  exact .some ⟨⟨n', hpacked⟩, .some hrel⟩

lemma mapM_elementAt (is : List Nat) : is.mapM (elementAt lp) =
    if ∀ i ∈ is, i < xs.length then some (is.map (offset xs)) else none := by
  induction is with
  | nil => simp
  | cons i is ih =>
    simp only [mapM_cons, ih, elementAt_eq h, forall_mem_cons]
    by_cases hi : i < xs.length
    · by_cases his : ∀ i ∈ is, i < xs.length
      · rw [if_pos hi, if_pos his, if_pos ⟨hi, his⟩]
        rfl
      · rw [if_pos hi, if_neg his, if_neg fun h => his h.2]
        rfl
    · have hnot : ¬ (i < xs.length ∧ ∀ i ∈ is, i < xs.length) := fun h => hi h.1
      rw [if_neg hi, if_neg hnot]
      rfl

lemma lpEdit_rel (e : Edit) : Option.Rel Edited (lpEdit e lp) (listEdit e xs) := by
  cases e with
  | append s => exact rel_plain (lpAppend_rel h s)
  | prepend s => exact rel_plain (lpPrepend_rel h s)
  | insertString s i place => exact lpInsert_rel (storesAs_string s) h place
  | insertInteger lval i place => exact lpInsert_rel (storesAs_integer lval) h place
  | replace i s => exact lpInsert_rel (storesAs_string s) h .replace
  | delete i => exact rel_elementAt h fun hi => lpDelete_rel h hi
  | deleteRange index num =>
    obtain ⟨lp', n', hrun, hpacked⟩ := lpDeleteRange_spec h index num
    rw [lpEdit, hrun]
    exact .some ⟨⟨n', hpacked⟩, .none⟩
  | deleteRangeWithEntry i num =>
    exact rel_elementAt h fun hi => lpDeleteRangeWithEntry_rel h hi num
  | batchDelete is =>
    rw [lpEdit, mapM_elementAt h, listEdit]
    split
    next hlt =>
      obtain ⟨lp', n', hrun, hpacked⟩ := lpBatchDelete_spec h is.2 hlt
      rw [some_bind, hrun]
      exact .some ⟨⟨n', hpacked⟩, .none⟩
    next => exact .none

end

/-- The states of the two programs. -/
structure Sim (s : State Bytes) (t : State (List Bytes)) : Prop where
  lists : ∀ h, Option.Rel (fun lp xs => ∃ n, Packed lp xs n) (s.lists h) (t.lists h)
  returned : Option.Rel (fun r a => r.1 = a.1 ∧ ∃ xs, t.lists a.1 = some xs ∧
    Option.Rel (fun p i => i < xs.length ∧ p = offset xs i) r.2 a.2) s.returned t.returned

lemma lpNew_packed : Packed lpNew [] 0 where
  lp_eq := rfl
  size_le := by decide
  count := by decide

lemma rel_update {α β : Type} {R : α → β → Prop} {f : Nat → Option α} {g : Nat → Option β}
    (hfg : ∀ h, Option.Rel R (f h) (g h)) (h : Nat) {a : Option α} {b : Option β}
    (hab : Option.Rel R a b) (h' : Nat) :
    Option.Rel R (update f h a h') (update g h b h') := by
  by_cases heq : h' = h
  · subst heq
    rwa [update_self, update_self]
  · rw [update_of_ne heq, update_of_ne heq]
    exact hfg h'

lemma lpMerge_rel {first second : Bytes} {m : Nat}
    (hfirst : Packed first xs n) (hsecond : Packed second ys m) :
    Option.Rel (fun lp xs => ∃ n, Packed lp xs n) (lpMerge first second) (listMerge xs ys) := by
  have hspec := lpMerge_spec hfirst hsecond
  rw [listMerge]
  split at hspec
  next hfits =>
    obtain ⟨lp', n', hrun, hpacked⟩ := hspec
    rw [if_pos hfits, hrun]
    exact .some ⟨n', hpacked⟩
  next hbig =>
    rw [if_neg hbig, hspec]
    exact .none

lemma step_rel (s : State Bytes) (t : State (List Bytes)) (call : Call) (hsim : Sim s t) :
    Option.Rel Sim (lpStep s call) (listStep t call) := by
  cases call with
  | new h => exact .some ⟨rel_update hsim.lists h (.some ⟨0, lpNew_packed⟩), .none⟩
  | edit h e =>
    refine rel_bind (hsim.lists h) fun lp xs ⟨n, hpacked⟩ => ?_
    refine rel_bind (lpEdit_rel hpacked e) fun r a hr => ?_
    refine .some ⟨rel_update hsim.lists h (.some hr.1), ?_⟩
    obtain ⟨lp', p⟩ := r
    obtain ⟨xs', i⟩ := a
    cases hr.2 with
    | none => exact .none
    | some hp => exact .some ⟨rfl, xs', update_self .., hp⟩
  | merge first second =>
    rw [lpStep, listStep, step, step]
    split
    next => exact .none
    next =>
      refine rel_bind (hsim.lists first) fun a xs ⟨n, ha⟩ => ?_
      refine rel_bind (hsim.lists second) fun b ys ⟨m, hb⟩ => ?_
      refine rel_bind (lpMerge_rel ha hb) fun c zs hc => ?_
      exact .some ⟨rel_update (rel_update hsim.lists second .none) first (.some hc), .none⟩

/-- A listpack that stands for a list: its elements, both fields of its header
and the validator. -/
structure Represents (lp : Bytes) (xs : List Bytes) : Prop where
  elements : lpElements lp = some xs
  totalBytes : lpGetTotalBytes lp = some lp.length
  numElements : lpGetNumElements lp = some xs.length ∨ lpGetNumElements lp = some 65535
  valid : lpValidateIntegrity lp lp.length true acceptAll = some true

/-- Every listpack stands for the list of the same name, and the returned pointer
is that of the element with the returned index, or both are missing. -/
structure Agrees (s : State Bytes) (t : State (List Bytes)) : Prop where
  lists : ∀ h, Option.Rel Represents (s.lists h) (t.lists h)
  returned : Option.Rel (fun r a => r.1 = a.1 ∧ ∃ lp, s.lists r.1 = some lp ∧
    Option.Rel (fun p i => elementAt lp i = some p) r.2 a.2) s.returned t.returned

lemma represents_of_packed (h : Packed lp xs n) : Represents lp xs where
  elements := h.elements
  totalBytes := h.walkable.total
  numElements := by
    rw [h.numElements]
    exact h.count.symm.imp (fun hn => congrArg some hn.1) (congrArg some)
  valid := h.walkable.validate

lemma Sim.agrees {s : State Bytes} {t : State (List Bytes)} (hsim : Sim s t) : Agrees s t where
  lists h := rel_imp (hsim.lists h) fun _ _ ⟨_, hpacked⟩ => represents_of_packed hpacked
  returned := by
    refine rel_imp hsim.returned fun r a ⟨hname, xs, hxs, hp⟩ => ⟨hname, ?_⟩
    have hlist := hsim.lists r.1
    rw [hname, hxs] at hlist
    rw [hname]
    cases hlp : s.lists a.1 with
    | none =>
      rw [hlp] at hlist
      cases hlist
    | some lp =>
      rw [hlp] at hlist
      cases hlist with
      | some hpacked =>
        obtain ⟨n, hpacked⟩ := hpacked
        refine ⟨lp, rfl, rel_imp hp fun p i ⟨hi, hpi⟩ => ?_⟩
        rw [elementAt_eq hpacked, if_pos hi, hpi]

/-- A program on listpacks and the same program on lists of byte strings both
fail, or they end in states that agree. -/
theorem listpack_refines_list (calls : List Call) :
    Option.Rel Agrees (run lpStep start calls) (run listStep start calls) := by
  have hstart : Sim start start := ⟨fun _ => .none, .none⟩
  exact rel_imp (run_rel step_rel hstart calls) fun _ _ hsim => hsim.agrees

end Dice.Ports.ListpackRefinement
