import Dice.Ports.Sds
import Mathlib.Data.List.Nodup
import Mathlib.Logic.Function.Basic

/-!
# CONFIG SET

All options are set, then the apply functions of those that changed run, each
once.  A failure sets the old values again and, once apply functions have run,
runs them again.  Module options and the redaction of arguments are left out.
-/

namespace Dice.Ports.ConfigSet

open List Function Verified CString Sds
open Prod (fst)

/-- The words of a value for the setter. -/
def argv (multiArg : Bool) (value : Bytes) : List Bytes :=
  if multiArg then sdssplitlen value 32 else [value]

/-- A value for every option. -/
abbrev Values {ι : Type} (ν : ι → Type) := (i : ι) → ν i

/-- `configs`: `ι` are the options, each with its own type `ν` of values, and `φ` the
apply functions. -/
structure Configs (ι : Type) (ν : ι → Type) (φ : Type) where
  lookup : Bytes → Option ι
  name : ι → Bytes
  (immutable isProtected denyLoading multiArg : ι → Bool)
  get : (i : ι) → ν i → Bytes
  /-- `interface.set`: the value to store and if it counts as new, or the error. -/
  set : (i : ι) → List Bytes → Values ν → Except (Option Bytes) (ν i × Bool)
  apply : ι → Option φ
  /-- What the last call answers, from all calls with the values they saw. -/
  outcome : List (φ × Values ν) → Except (Option Bytes) Unit
  /-- The value that words stand for. -/
  value : (i : ι) → List Bytes → ν i
  installs : ∀ {i ws σ v new}, set i ws σ = .ok (v, new) → v = value i ws ∧ (v ≠ σ i → new)
  restores : ∀ i v σ, ∃ new, set i (argv (multiArg i) (get i v)) σ = .ok (v, new)

/-- The options' values, and the calls of apply functions so far. -/
structure Server {ι : Type} (ν : ι → Type) (φ : Type) where
  config : Values ν
  applied : List (φ × Values ν)

inductive Error where
  | syntaxerr
  | loadingerr
  | err (text : Bytes)

def unknownOption (arg : Bytes) : Error :=
  .err (ofString "Unknown option or number of arguments for CONFIG SET - '" ++ cstr arg ++
    ofString "'")

def setFailed (arg : Bytes) (errstr : Option Bytes) : Error :=
  .err (ofString "CONFIG SET failed (possibly related to argument '" ++ cstr arg ++
    ofString "')" ++ (errstr.map (ofString " - " ++ cstr ·)).getD [])

variable {ι φ : Type} {ν : ι → Type} (T : Configs ι ν φ) {σ₀ σ σ' : Values ν}
  {fns fns' : List (φ × ι)} {found configs : List (ι × Bytes)} {done : List ι}

def performInterfaceSet (i : ι) (value : Bytes) (σ : Values ν) :
    Except (Option Bytes) (ν i × Bool) :=
  T.set i (argv (T.multiArg i) value) σ

/-- The apply functions in turn: the calls, and the error of the one that failed. -/
def applyAll (σ : Values ν) (applied : List (φ × Values ν)) :
    List (φ × ι) → List (φ × Values ν) × Option Error
  | [] => (applied, none)
  | (f, i) :: rest =>
    match T.outcome (applied ++ [(f, σ)]) with
    | .error e => (applied ++ [(f, σ)], some (setFailed (T.name i) e))
    | .ok _ => applyAll σ (applied ++ [(f, σ)]) rest

/-- The functions that ran are the first ones, and all of them if none failed. -/
lemma applyAll_ran {T : Configs ι ν φ} {applied applied' : List (φ × Values ν)} {e : Option Error}
    (h : applyAll T σ applied fns = (applied', e)) :
    ∃ ran, applied' = applied ++ ran.map (·, σ) ∧ ran <+: fns.map fst ∧
    (e = none → ran = fns.map fst) := by
  fun_induction applyAll with
  | case1 applied =>
    cases h
    exact ⟨[], by simp⟩
  | case2 applied f i rest _ _ =>
    cases h
    exact ⟨[f], by simp⟩
  | case3 applied f i rest _ _ ih =>
    obtain ⟨ran, rfl, hran, hall⟩ := ih h
    exact ⟨f :: ran, by simp, by simpa using hran, fun h => by simp [hall h]⟩

lemma nodup_snoc {α β : Type} {l : List (α × β)} {a : α} (b : β) (h : (l.map fst).Nodup)
    (ha : a ∉ l.map fst) : ((l ++ [(a, b)]).map fst).Nodup := by
  rw [map_append]
  exact h.append (nodup_singleton a) (by simpa using ha)

section

variable [DecidableEq φ]

/-- `apply_fns` with `config_map_fns`. -/
def storeApply (i : ι) (fns : List (φ × ι)) : List (φ × ι) :=
  match T.apply i with
  | some f => if f ∈ fns.map fst then fns else fns ++ [(f, i)]
  | none => fns

variable {T}

lemma storeApply_spec (i : ι) (h : (fns.map fst).Nodup) :
    ((storeApply T i fns).map fst).Nodup ∧ fns ⊆ storeApply T i fns ∧
    ∀ f, T.apply i = some f → f ∈ (storeApply T i fns).map fst := by
  unfold storeApply
  split
  next f hf =>
    split_ifs with hmem
    · simp_all
    · have hn := nodup_snoc i h hmem
      simp_all
  next => simp_all

end

variable [DecidableEq ι]

/-- The first loop of `configSetCommand`. -/
def findConfigs (loading allowed : Bool) (found : List (ι × Bytes)) :
    List (Bytes × Bytes) → Except Error (List (ι × Bytes))
  | [] => .ok found
  | (arg, value) :: rest =>
    match T.lookup arg with
    | none => .error (unknownOption arg)
    | some i =>
      if T.immutable i then .error (setFailed arg (ofString "can't set immutable config"))
      else if T.isProtected i && !allowed then
        .error (setFailed arg (ofString "can't set protected config"))
      else if loading && T.denyLoading i then .error .loadingerr
      else if i ∈ found.map fst then
        .error (setFailed arg (ofString "duplicate parameter"))
      else findConfigs loading allowed (found ++ [(i, value)]) rest

/-- The first loop of `restoreBackupConfig`; a setter that fails is only logged. -/
def restoreValues (old : ι → Bytes) (is : List ι) (σ : Values ν) : Values ν :=
  is.foldl (fun σ i =>
    match performInterfaceSet T i (old i) σ with
    | .ok (v, _) => update σ i v
    | .error _ => σ) σ

def restoreBackupConfig (old : ι → Bytes) (is : List ι) (fns : List φ) (s : Server ν φ) :
    Server ν φ :=
  let σ := restoreValues T old is s.config
  ⟨σ, s.applied ++ fns.map (·, σ)⟩

section

variable {T}

/-- The options found are distinct, and are those of the arguments. -/
lemma findConfigs_ok {loading allowed : Bool} {args : List (Bytes × Bytes)}
    (h : findConfigs T loading allowed found args = .ok configs)
    (hd : (found.map fst).Nodup) :
    (configs.map fst).Nodup ∧ found ⊆ configs ∧
    (∀ p ∈ args, ∃ i, T.lookup p.1 = some i ∧ (i, p.2) ∈ configs) ∧
    ∀ j ∈ configs.map fst, j ∈ found.map fst ∨ ∃ p ∈ args, T.lookup p.1 = some j := by
  fun_induction findConfigs with
  | case1 found =>
    cases h
    simp [hd]
  | case7 found arg value rest i hi _ _ _ hdup ih =>
    obtain ⟨hn, hsub, hall, honly⟩ := ih h (nodup_snoc value hd hdup)
    refine ⟨hn, fun o ho => hsub (by simp [ho]), fun p hp => ?_, fun j hj => ?_⟩
    · obtain rfl | hp := mem_cons.mp hp
      · exact ⟨i, hi, hsub (by simp)⟩
      · exact hall p hp
    · rcases honly j hj with hfound | ⟨p, hp, hlookup⟩
      · rw [map_append, mem_append, map_singleton, mem_singleton] at hfound
        exact hfound.imp_right fun heq => ⟨(arg, value), mem_cons_self, by rw [heq, hi]⟩
      · exact .inr ⟨p, mem_cons_of_mem _ hp, hlookup⟩
  | _ => cases h

/-- Every getter's value is one that the setter takes, in any state. -/
lemma restoreValues_eq (h : ∀ j ∉ done, σ j = σ₀ j) :
    restoreValues T (fun i => T.get i (σ₀ i)) done σ = σ₀ := by
  induction done generalizing σ with
  | nil => exact funext fun j => h j not_mem_nil
  | cons i is ih =>
    obtain ⟨new, hset⟩ := T.restores i (σ₀ i) σ
    simp only [restoreValues, foldl_cons, performInterfaceSet, hset]
    refine ih fun j hj => ?_
    by_cases hji : j = i
    · subst hji
      rw [update_self]
    · rw [update_of_ne hji]
      exact h j (by simp [hji, hj])

end

variable [DecidableEq φ]

/-- The second loop; `done` are the options set so far. -/
def setAll (old : ι → Bytes) (done : List ι) (σ : Values ν) (fns : List (φ × ι)) :
    List (ι × Bytes) → Except (Error × Values ν) (Values ν × List (φ × ι))
  | [] => .ok (σ, fns)
  | (i, value) :: rest =>
    match performInterfaceSet T i value σ with
    | .error e => .error (setFailed (T.name i) e, restoreValues T old (done ++ [i]) σ)
    | .ok (v, new) =>
      setAll old (done ++ [i]) (update σ i v) (if new then storeApply T i fns else fns) rest

def pairs : List Bytes → List (Bytes × Bytes)
  | name :: value :: rest => (name, value) :: pairs rest
  | _ => []

def configSetCommand (loading allowed : Bool) (args : List Bytes) (s : Server ν φ) :
    Except Error Unit × Server ν φ :=
  if args.length % 2 = 1 then (.error .syntaxerr, s)
  else
    match findConfigs T loading allowed [] (pairs args) with
    | .error e => (.error e, s)
    | .ok configs =>
      let old := fun i => T.get i (s.config i)
      match setAll T old [] s.config [] configs with
      | .error (e, σ) => (.error e, { s with config := σ })
      | .ok (σ, fns) =>
        match applyAll T σ s.applied fns with
        | (applied, none) => (.ok (), ⟨σ, applied⟩)
        | (applied, some e) =>
          (.error e,
            restoreBackupConfig T old (configs.map fst) (fns.map fst) ⟨σ, applied⟩)

variable {T}

lemma setAll_error {e : Error} (hσ : ∀ j ∉ done, σ j = σ₀ j)
    (h : setAll T (fun i => T.get i (σ₀ i)) done σ fns configs = .error (e, σ')) : σ' = σ₀ := by
  fun_induction setAll with
  | case1 => cases h
  | case2 done σ fns i value rest e he =>
    cases h
    exact restoreValues_eq fun j hj => hσ j (by simp_all)
  | case3 done σ fns i value rest v new hv ih =>
    refine ih (fun j hj => ?_) h
    rw [mem_append, mem_singleton, not_or] at hj
    rw [update_of_ne hj.2, hσ j hj.1]

/-- What the setters leave when none of them fails. -/
structure Settled (T : Configs ι ν φ) (configs : List (ι × Bytes)) (σ σ' : Values ν)
    (fns fns' : List (φ × ι)) : Prop where
  new : ∀ o ∈ configs, σ' o.1 = T.value o.1 (argv (T.multiArg o.1) o.2)
  frame : ∀ j ∉ configs.map fst, σ' j = σ j
  nodup : (fns'.map fst).Nodup
  subset : fns ⊆ fns'
  changed : ∀ i f, T.apply i = some f → σ' i ≠ σ i → f ∈ fns'.map fst

lemma setAll_ok {old : ι → Bytes} (h : setAll T old done σ fns configs = .ok (σ', fns'))
    (hn : (configs.map fst).Nodup) (hf : (fns.map fst).Nodup) :
    Settled T configs σ σ' fns fns' := by
  fun_induction setAll with
  | case1 =>
    cases h
    exact ⟨by simp, by simp, hf, by simp, fun _ _ _ hne => absurd rfl hne⟩
  | case2 => cases h
  | case3 done σ fns i value rest v new hv ih =>
    rw [map_cons, nodup_cons] at hn
    obtain ⟨hnodup, hsub, hmem⟩ := storeApply_spec i hf
    have hr := ih h hn.2 (by split_ifs <;> assumption)
    have hi : σ' i = v := by rw [hr.frame i hn.1, update_self]
    refine ⟨fun o ho => ?_, fun j hj => ?_, hr.nodup, fun o ho => hr.subset ?_,
      fun j f hj hne => ?_⟩
    · obtain rfl | ho := mem_cons.mp ho
      · exact hi.trans (T.installs hv).1
      · exact hr.new o ho
    · rw [map_cons, mem_cons, not_or] at hj
      rw [hr.frame j hj.2, update_of_ne hj.1]
    · split_ifs
      exacts [hsub ho, ho]
    · by_cases hji : j = i
      · subst hji
        have hnew : new := (T.installs hv).2 (by rwa [hi] at hne)
        rw [if_pos hnew] at hr
        exact map_subset _ hr.subset (hmem f hj)
      · exact hr.changed j f hj (by rwa [update_of_ne hji])

/-- After an error all options have their old values, and the apply functions that
ran have run again on them.  Otherwise the options named have their new values, the
others their old ones, and the functions of those that changed have run once, on the
new values. -/
theorem configSet_all_or_nothing (T : Configs ι ν φ) (loading allowed : Bool) (args : List Bytes)
    (s : Server ν φ) :
    match configSetCommand T loading allowed args s with
    | (.error _, s') =>
      s'.config = s.config ∧ ∃ (σ : Values ν) (ran again : List φ), ran ⊆ again ∧
        s'.applied = s.applied ++ ran.map (·, σ) ++ again.map (·, s.config)
    | (.ok _, s') =>
      (∀ p ∈ pairs args, ∃ i, T.lookup p.1 = some i ∧
        s'.config i = T.value i (argv (T.multiArg i) p.2)) ∧
      (∀ i, (∀ p ∈ pairs args, T.lookup p.1 ≠ some i) → s'.config i = s.config i) ∧
      ∃ fns : List φ, fns.Nodup ∧ s'.applied = s.applied ++ fns.map (·, s'.config) ∧
        ∀ i f, T.apply i = some f → s'.config i ≠ s.config i → f ∈ fns := by
  fun_cases configSetCommand with
  | case1 | case2 => exact ⟨rfl, s.config, [], [], by simp⟩
  | case3 _ configs hfind old e σ hset =>
    exact ⟨setAll_error (fun _ _ => rfl) hset, s.config, [], [], by simp⟩
  | case4 _ configs hfind old σ fns hset applied happ =>
    obtain ⟨hn, -, hall, honly⟩ := findConfigs_ok hfind nodup_nil
    have hs := setAll_ok hset hn nodup_nil
    obtain ⟨ran, rfl, -, hran⟩ := applyAll_ran happ
    obtain rfl := hran rfl
    refine ⟨fun p hp => ?_, fun i hi => hs.frame i fun hmem => ?_, _, hs.nodup, rfl, hs.changed⟩
    · obtain ⟨i, hi, hmem⟩ := hall p hp
      exact ⟨i, hi, hs.new _ hmem⟩
    · obtain hfound | ⟨p, hp, hlookup⟩ := honly i hmem
      · simp at hfound
      · exact hi p hp hlookup
  | case5 _ configs hfind old σ fns hset applied e happ =>
    have hs := setAll_ok hset (findConfigs_ok hfind nodup_nil).1 nodup_nil
    obtain ⟨ran, rfl, hran, -⟩ := applyAll_ran happ
    have hold : restoreValues T old (configs.map fst) σ = s.config :=
      restoreValues_eq hs.frame
    refine ⟨hold, σ, ran, fns.map fst, hran.subset, ?_⟩
    rw [restoreBackupConfig, hold]

/-- Three of the options, two of them with the same apply function. -/
inductive Sample where
  | cluster
  | certFile
  | bind
  deriving DecidableEq

inductive SampleFn where
  | applyTlsCfg
  | applyBind
  deriving DecidableEq

abbrev SampleValue : Sample → Type
  | .cluster => Bool
  | .certFile | .bind => Bytes

/-- `applyTlsCfg` fails for one certificate. -/
def sampleConfigs : Configs Sample SampleValue SampleFn where
  lookup s := [(ofString "tls-cluster", .cluster), (ofString "tls-cert-file", .certFile),
    (ofString "bind", Sample.bind)].lookup s
  name _ := []
  immutable _ := false
  isProtected _ := false
  denyLoading _ := false
  multiArg _ := false
  get
    | .cluster, v => if v then ofString "yes" else ofString "no"
    | .certFile, v | .bind, v => v
  set
    | .cluster, [w], σ =>
      if w = ofString "yes" then .ok (true, !σ .cluster)
      else if w = ofString "no" then .ok (false, σ .cluster)
      else .error (ofString "argument must be 'yes' or 'no'")
    | .certFile, [w], σ => .ok (w, w != σ .certFile)
    | .bind, [w], σ => .ok (w, w != σ .bind)
    | _, _, _ => .error none
  apply
    | .bind => some .applyBind
    | _ => some .applyTlsCfg
  outcome calls :=
    match calls.getLast? with
    | some (.applyTlsCfg, σ) => if σ .certFile = ofString "bad" then .error none else .ok ()
    | _ => .ok ()
  value
    | .cluster, ws => ws == [ofString "yes"]
    | .certFile, ws | .bind, ws => ws.headD []
  installs {i ws σ v new} h := by
    match i, ws with
    | .cluster, [w] =>
      dsimp only at h
      split_ifs at h with hyes hno
      · cases h
        simp [hyes]
      · cases h
        simp [hno, ofString]
    | .certFile, [w] | .bind, [w] =>
      cases h
      exact ⟨rfl, fun hne => by simpa using hne⟩
    | .cluster, [] | .certFile, [] | .bind, [] => cases h
    | .cluster, _ :: _ :: _ | .certFile, _ :: _ :: _ | .bind, _ :: _ :: _ => cases h
  restores i v σ := by
    cases i with
    | cluster => cases v <;> exact ⟨_, rfl⟩
    | certFile => exact ⟨_, rfl⟩
    | bind => exact ⟨_, rfl⟩

/-- The server before the commands. -/
def sampleServer : Server SampleValue SampleFn where
  config
    | .cluster => false
    | .certFile => ofString "good"
    | .bind => ofString "::1"
  applied := []

def sampleArgs (cert : String) : List Bytes :=
  ["tls-cluster", "yes", "bind", "*", "tls-cert-file", cert].map ofString

/-- The shared function runs once and fails, the other one does not run before it. -/
theorem configSet_all_or_nothing_tls :
    (∃ e s, configSetCommand sampleConfigs false false (sampleArgs "bad") sampleServer =
        (.error e, s) ∧ s.config = sampleServer.config ∧
        s.applied.map Prod.fst = [.applyTlsCfg, .applyTlsCfg, .applyBind]) ∧
      ∃ s, configSetCommand sampleConfigs false false (sampleArgs "new") sampleServer =
        (.ok (), s) ∧ s.config .certFile = ofString "new" ∧
        s.applied.map Prod.fst = [.applyTlsCfg, .applyBind] := by
  have hbad := configSet_all_or_nothing sampleConfigs false false (sampleArgs "bad") sampleServer
  have hnew := configSet_all_or_nothing sampleConfigs false false (sampleArgs "new") sampleServer
  refine ⟨⟨_, _, rfl, hbad.1, rfl⟩, _, rfl, ?_, rfl⟩
  obtain ⟨i, hi, hvalue⟩ := hnew.1 (ofString "tls-cert-file", ofString "new") (by decide)
  cases hi
  exact hvalue

end Dice.Ports.ConfigSet
