import Mathlib.Data.List.Nodup
import Dice.Ports.AofLifecycle

/-!
# Which files are removed

The directory is safe if every manifest, in memory or on disk, names no file
twice, numbers its INCR files in increasing order, and has all its BASE and
INCR files.  Each operation keeps this as long as two things do not happen: a
restart that makes the INCR counter start again below a HISTORY file, and a
manifest that is reported as not written although it is in place.  Both do
happen; the runs at the end show what is lost then.
-/

namespace Dice.Ports.AofSafety

open List Verified CString Faults Run NumberParsing Resp AofManifest
open AofManifestText AofLifecycle

section Names

variable {aofFilename : Bytes}

variable {a b : Int} {r : Bool}

lemma dotted_inj {s t : Bytes}
    (h : decimalInt a ++ 46 :: s = decimalInt b ++ 46 :: t) : a = b ∧ s = t := by
  have hdigit : ∀ c, isDigit c → (c != 46) := forall_byte (by decide +kernel)
  have htake : ∀ n rest, (decimalInt n ++ 46 :: rest).takeWhile (· != 46) = decimalInt n := by
    intro n rest
    have hall : ∀ c ∈ decimalInt n, (c != 46) := fun c => of_mem_decimalInt (by decide) hdigit
    rw [takeWhile_append_of_pos hall, takeWhile_cons_of_neg (by decide), append_nil]
  have hdigits := congrArg (takeWhile (· != 46)) h
  rw [htake, htake] at hdigits
  rw [hdigits] at h
  exact ⟨decimalInt_injective hdigits, (cons.inj (append_cancel_left h)).2⟩

lemma baseFileName_eq (seq : Int) (rdbPreamble : Bool) :
    baseFileName aofFilename seq rdbPreamble = aofFilename ++ 46 :: (decimalInt seq ++
        46 :: (ofString "base" ++ ofString (if rdbPreamble then ".rdb" else ".aof"))) := by
  simp [baseFileName, ofString]

lemma incrFileName_eq (seq : Int) : incrFileName aofFilename seq =
      aofFilename ++ 46 :: (decimalInt seq ++ 46 :: (ofString "incr" ++ ofString ".aof")) := by
  simp [incrFileName, ofString]

lemma baseFileName_inj {r' : Bool}
    (h : baseFileName aofFilename a r = baseFileName aofFilename b r') : a = b := by
  rw [baseFileName_eq, baseFileName_eq] at h
  exact (dotted_inj (cons.inj (append_cancel_left h)).2).1

lemma incrFileName_inj (h : incrFileName aofFilename a = incrFileName aofFilename b) : a = b := by
  rw [incrFileName_eq, incrFileName_eq] at h
  exact (dotted_inj (cons.inj (append_cancel_left h)).2).1

lemma baseFileName_ne_incrFileName : baseFileName aofFilename a r ≠ incrFileName aofFilename b := by
  intro h
  rw [baseFileName_eq, incrFileName_eq] at h
  have hrest := (dotted_inj (cons.inj (append_cancel_left h)).2).2
  cases r <;> exact absurd hrest (by decide)

/-- The temporary name ends in `r`, the others in `b` or `f`. -/
lemma temp_ne_of_last {name : Bytes} {c : UInt8} (hname : name.getLast? = some c)
    (hc : c ≠ 114) : getTempIncrAofName aofFilename ≠ name := by
  intro h
  have htemp : (getTempIncrAofName aofFilename).getLast? = some 114 := by
    rw [getTempIncrAofName, getLast?_append]
    rfl
  rw [h, hname, Option.some.injEq] at htemp
  exact hc htemp

lemma temp_ne_baseFileName : getTempIncrAofName aofFilename ≠ baseFileName aofFilename a r := by
  cases r with
  | false =>
    apply temp_ne_of_last (c := 102) _ (by decide)
    rw [baseFileName, getLast?_append]
    rfl
  | true =>
    apply temp_ne_of_last (c := 98) _ (by decide)
    rw [baseFileName, getLast?_append]
    rfl

lemma temp_ne_incrFileName : getTempIncrAofName aofFilename ≠ incrFileName aofFilename a := by
  apply temp_ne_of_last (c := 102) _ (by decide)
  rw [incrFileName, getLast?_append]
  rfl

end Names

/-! ## What a manifest is like -/

variable (aofFilename : Bytes) (d : Disk) (am : Manifest)

/-- The entry of a BASE file, or of what was one. -/
def IsBase (ai : AofInfo) : Prop :=
  ai.fileName = baseFileName aofFilename ai.fileSeq true ∨
    ai.fileName = baseFileName aofFilename ai.fileSeq false

/-- The entry of an INCR file, or of what was one. -/
def IsIncr (ai : AofInfo) : Prop := ai.fileName = incrFileName aofFilename ai.fileSeq

instance (aofFilename : Bytes) (ai : AofInfo) : Decidable (IsIncr aofFilename ai) :=
  inferInstanceAs (Decidable (_ = _))

/-- The entries of the files in use. -/
def live : List AofInfo := am.baseAofInfo.toList ++ am.incrAofList

/-- HISTORY files are older than the files in use, and the counters are not
behind those. -/
structure Chain (aofFilename : Bytes) (am : Manifest) : Prop where
  base_name : ∀ ai ∈ am.baseAofInfo, IsBase aofFilename ai
  base_le : ∀ ai ∈ am.baseAofInfo, ai.fileSeq ≤ am.currBaseFileSeq
  incr_name : ∀ ai ∈ am.incrAofList, IsIncr aofFilename ai
  incr_le : ∀ ai ∈ am.incrAofList, ai.fileSeq ≤ am.currIncrFileSeq
  incr_sorted : (am.incrAofList.map AofInfo.fileSeq).Pairwise (· < ·)
  hist_name : ∀ ai ∈ am.historyAofList, IsBase aofFilename ai ∨ IsIncr aofFilename ai
  hist_nodup : (am.historyAofList.map AofInfo.fileName).Nodup
  hist_base : ∀ ai ∈ am.historyAofList, IsBase aofFilename ai →
    ∃ b ∈ am.baseAofInfo, ai.fileSeq < b.fileSeq
  hist_incr : ∀ ai ∈ am.historyAofList, IsIncr aofFilename ai →
    ∀ i ∈ am.incrAofList, ai.fileSeq < i.fileSeq

/-- The INCR counter is not behind the HISTORY files either. -/
def HistCounted : Prop :=
  ∀ ai ∈ am.historyAofList, IsIncr aofFilename ai → ai.fileSeq ≤ am.currIncrFileSeq

section Manifests

variable {aofFilename : Bytes} {am : Manifest}

lemma isBase_base (seq : Int) (rdbPreamble : Bool) (fileType : AofFileType) :
    IsBase aofFilename ⟨baseFileName aofFilename seq rdbPreamble, seq, fileType⟩ := by
  cases rdbPreamble with
  | true => exact .inl rfl
  | false => exact .inr rfl

variable {a b ai : AofInfo}

lemma seq_eq_of_isBase (ha : IsBase aofFilename a) (hb : IsBase aofFilename b)
    (h : a.fileName = b.fileName) : a.fileSeq = b.fileSeq := by
  rcases ha with ha | ha <;> rcases hb with hb | hb <;> rw [ha, hb] at h <;>
    exact baseFileName_inj h

lemma seq_eq_of_isIncr (ha : IsIncr aofFilename a) (hb : IsIncr aofFilename b)
    (h : a.fileName = b.fileName) : a.fileSeq = b.fileSeq := by
  rw [ha, hb] at h
  exact incrFileName_inj h

lemma isBase_ne_isIncr (ha : IsBase aofFilename a) (hb : IsIncr aofFilename b) :
    a.fileName ≠ b.fileName := by
  intro h
  rcases ha with ha | ha <;> rw [ha, hb] at h <;> exact baseFileName_ne_incrFileName h

lemma temp_ne_isBase (ha : IsBase aofFilename a) : a.fileName ≠ getTempIncrAofName aofFilename := by
  rcases ha with ha | ha <;> rw [ha] <;> exact temp_ne_baseFileName.symm

lemma temp_ne_isIncr (ha : IsIncr aofFilename a) : a.fileName ≠ getTempIncrAofName aofFilename := by
  rw [ha]
  exact temp_ne_incrFileName.symm

lemma mem_live : ai ∈ live am ↔ ai ∈ am.baseAofInfo ∨ ai ∈ am.incrAofList := by
  simp [live]

section

variable (h : Chain aofFilename am)

include h

lemma hist_ne_live {old : AofInfo} (hold : old ∈ am.historyAofList) (hai : ai ∈ live am) :
    old.fileName ≠ ai.fileName := by
  intro heq
  rcases mem_live.mp hai with hai | hai
  · rcases h.hist_name old hold with hbase | hincr
    · obtain ⟨b, hb, hlt⟩ := h.hist_base old hold hbase
      have hseq := seq_eq_of_isBase hbase (h.base_name ai hai) heq
      rw [Option.mem_def] at hb hai
      rw [hb, Option.some.injEq] at hai
      rw [hai] at hlt
      omega
    · exact isBase_ne_isIncr (h.base_name ai hai) hincr heq.symm
  · rcases h.hist_name old hold with hbase | hincr
    · exact isBase_ne_isIncr hbase (h.incr_name ai hai) heq
    · have hlt := h.hist_incr old hold hincr ai hai
      have hseq := seq_eq_of_isIncr hincr (h.incr_name ai hai) heq
      omega

lemma temp_ne_live (hai : ai ∈ live am) : ai.fileName ≠ getTempIncrAofName aofFilename := by
  rcases mem_live.mp hai with hai | hai
  · exact temp_ne_isBase (h.base_name ai hai)
  · exact temp_ne_isIncr (h.incr_name ai hai)

lemma newBase_ne_live (hai : ai ∈ live am) (rdbPreamble : Bool) :
    ai.fileName ≠ baseFileName aofFilename (am.currBaseFileSeq + 1) rdbPreamble := by
  intro heq
  have hnew : IsBase aofFilename ⟨baseFileName aofFilename (am.currBaseFileSeq + 1) rdbPreamble,
    am.currBaseFileSeq + 1, .base⟩ := isBase_base _ _ _
  rcases mem_live.mp hai with hai | hai
  · have hseq := seq_eq_of_isBase (h.base_name ai hai) hnew heq
    have hle := h.base_le ai hai
    simp only at hseq
    omega
  · exact isBase_ne_isIncr hnew (h.incr_name ai hai) heq.symm

lemma newIncr_ne_live (hai : ai ∈ live am) :
    ai.fileName ≠ incrFileName aofFilename (am.currIncrFileSeq + 1) := by
  intro heq
  have hnew : IsIncr aofFilename
    ⟨incrFileName aofFilename (am.currIncrFileSeq + 1), am.currIncrFileSeq + 1, .incr⟩ := rfl
  rcases mem_live.mp hai with hai | hai
  · exact isBase_ne_isIncr (h.base_name ai hai) hnew heq
  have hseq := seq_eq_of_isIncr (h.incr_name ai hai) hnew heq
  have hle := h.incr_le ai hai
  simp only at hseq
  omega

lemma nodup_entries : (am.entries.map AofInfo.fileName).Nodup := by
  have hincr : (am.incrAofList.map AofInfo.fileName).Nodup := by
    rw [List.Nodup, pairwise_map]
    have hsorted := h.incr_sorted
    rw [pairwise_map] at hsorted
    refine hsorted.imp_of_mem ?_
    intro a b ha hb hlt heq
    have hseq := seq_eq_of_isIncr (h.incr_name a ha) (h.incr_name b hb) heq
    omega
  have hbase : (am.baseAofInfo.toList.map AofInfo.fileName).Nodup := by
    cases am.baseAofInfo <;> simp
  rw [Manifest.entries, map_append, map_append, nodup_append, nodup_append]
  refine ⟨⟨hbase, h.hist_nodup, ?_⟩, hincr, ?_⟩
  · intro name hname name' hname' heq
    obtain ⟨ai, hai, rfl⟩ := mem_map.mp hname
    obtain ⟨old, hold, rfl⟩ := mem_map.mp hname'
    exact hist_ne_live h hold (mem_live.mpr (.inl (Option.mem_toList.mp hai))) heq.symm
  intro name hname name' hname' heq
  obtain ⟨incr, hincr, rfl⟩ := mem_map.mp hname'
  rw [← map_append] at hname
  obtain ⟨ai, hai, rfl⟩ := mem_map.mp hname
  rcases mem_append.mp hai with hai | hai
  · exact isBase_ne_isIncr (h.base_name ai (Option.mem_toList.mp hai)) (h.incr_name incr hincr) heq
  · exact hist_ne_live h hai (mem_live.mpr (.inr hincr)) heq

/-! ### Changes -/

omit h in
lemma chain_empty : Chain aofFilename {} := by
  constructor <;> simp

lemma chain_dirty (dirty : Bool) : Chain aofFilename { am with dirty } := { h with }

lemma chain_noHistory (dirty : Bool) : Chain aofFilename { am with historyAofList := [], dirty } :=
  { h with
    hist_name := by simp
    hist_nodup := by simp
    hist_base := by simp
    hist_incr := by simp }

lemma chain_newIncr (hcount : HistCounted aofFilename am) :
    Chain aofFilename (getNewIncrAofName aofFilename am).1 := by
  refine { h with incr_name := ?_, incr_le := ?_, incr_sorted := ?_, hist_incr := ?_ }
  · intro ai hai
    rcases mem_append.mp hai with hai | hai
    · exact h.incr_name ai hai
    · rw [mem_singleton.mp hai]
      rfl
  · intro ai hai
    simp only [getNewIncrAofName]
    rcases mem_append.mp hai with hai | hai
    · have := h.incr_le ai hai
      omega
    · simp [mem_singleton.mp hai]
  · simp only [getNewIncrAofName, map_append, map_cons]
    rw [pairwise_append]
    refine ⟨h.incr_sorted, by simp, ?_⟩
    intro a ha b hb
    obtain ⟨ai, hai, rfl⟩ := mem_map.mp ha
    rw [mem_singleton.mp hb]
    have := h.incr_le ai hai
    omega
  intro old hold hincr ai hai
  rcases mem_append.mp hai with hai | hai
  · exact h.hist_incr old hold hincr ai hai
  rw [mem_singleton.mp hai]
  have := hcount old hold hincr
  simp only
  omega

omit h in
lemma histCounted_newIncr (hcount : HistCounted aofFilename am) :
    HistCounted aofFilename (getNewIncrAofName aofFilename am).1 := by
  intro old hold hincr
  have := hcount old hold hincr
  simp only [getNewIncrAofName]
  omega

omit h in
/-- A HISTORY file after the BASE file has become one. -/
lemma mem_history_newBase {old : AofInfo} {rdbPreamble : Bool}
    (h : old ∈ (getNewBaseFileNameAndMarkPreAsHistory aofFilename am
    rdbPreamble).1.historyAofList) :
    (∃ ai ∈ am.baseAofInfo, old = { ai with fileType := .hist }) ∨ old ∈ am.historyAofList := by
  rcases mem_append.mp h with h | h
  · obtain ⟨ai, hai, rfl⟩ := Option.map_eq_some_iff.mp (Option.mem_toList.mp h)
    exact .inl ⟨ai, hai, rfl⟩
  · exact .inr h

lemma chain_newBase (rdbPreamble : Bool) : Chain aofFilename
    (getNewBaseFileNameAndMarkPreAsHistory aofFilename am rdbPreamble).1 where
  base_name := by
    intro ai hai
    cases hai
    exact isBase_base _ _ _
  base_le := by
    intro ai hai
    cases hai
    simp [getNewBaseFileNameAndMarkPreAsHistory]
  incr_name := h.incr_name
  incr_le := h.incr_le
  incr_sorted := h.incr_sorted
  hist_name := by
    intro old hold
    rcases mem_history_newBase hold with ⟨ai, hai, rfl⟩ | hold
    · exact .inl (h.base_name ai hai)
    · exact h.hist_name old hold
  hist_nodup := by
    cases hbase : am.baseAofInfo with
    | none => simpa [getNewBaseFileNameAndMarkPreAsHistory, hbase] using h.hist_nodup
    | some ai =>
      simp only [getNewBaseFileNameAndMarkPreAsHistory, hbase, Option.map_some,
        Option.toList_some, singleton_append, map_cons]
      rw [nodup_cons]
      refine ⟨?_, h.hist_nodup⟩
      intro hmem
      obtain ⟨old, hold, heq⟩ := mem_map.mp hmem
      exact hist_ne_live h hold (mem_live.mpr (.inl hbase)) heq
  hist_base := by
    intro old hold hbase
    refine ⟨_, rfl, ?_⟩
    simp only
    rcases mem_history_newBase hold with ⟨ai, hai, rfl⟩ | hold
    · have := h.base_le ai hai
      simp only
      omega
    · obtain ⟨b, hb, hlt⟩ := h.hist_base old hold hbase
      have := h.base_le b hb
      omega
  hist_incr := by
    intro old hold hincr
    rcases mem_history_newBase hold with ⟨ai, hai, rfl⟩ | hold
    · exact absurd rfl (isBase_ne_isIncr (h.base_name ai hai) hincr)
    · exact h.hist_incr old hold hincr

lemma histCounted_newBase (hcount : HistCounted aofFilename am) (rdbPreamble : Bool) :
    HistCounted aofFilename
    (getNewBaseFileNameAndMarkPreAsHistory aofFilename am rdbPreamble).1 := by
  intro old hold hincr
  rcases mem_history_newBase hold with ⟨ai, hai, rfl⟩ | hold
  · exact absurd rfl (isBase_ne_isIncr (h.base_name ai hai) hincr)
  · exact hcount old hold hincr

omit h in
/-- Marking splits the INCR files; the first part becomes HISTORY. -/
lemma markRewritten_eq (aofFd : Bool) (am : Manifest) :
    markRewrittenIncrAofAsHistory aofFd am = am ∨
      ∃ rewritten kept, am.incrAofList = rewritten ++ kept ∧
        markRewrittenIncrAofAsHistory aofFd am =
          { am with
            historyAofList :=
              (rewritten.map fun ai => { ai with fileType := .hist }) ++ am.historyAofList
            incrAofList := kept
            dirty := true } := by
  unfold markRewrittenIncrAofAsHistory
  split
  · exact .inl rfl
  next hne =>
    right
    cases aofFd with
    | false => exact ⟨am.incrAofList, [], by simp, rfl⟩
    | true =>
      refine ⟨am.incrAofList.dropLast, am.incrAofList.getLast?.toList, ?_, rfl⟩
      have hcons : am.incrAofList ≠ [] := by simpa using hne
      rw [getLast?_eq_some_getLast hcons, Option.toList_some, dropLast_append_getLast]

lemma chain_markRewritten (aofFd : Bool) :
    Chain aofFilename (markRewrittenIncrAofAsHistory aofFd am) := by
  rcases markRewritten_eq aofFd am with heq | ⟨rewritten, kept, hincr, heq⟩
  · rwa [heq]
  rw [heq]
  have hmem : ∀ ai ∈ rewritten, ai ∈ am.incrAofList := by simp_all
  have hkept : ∀ ai ∈ kept, ai ∈ am.incrAofList := by simp_all
  have hsorted := h.incr_sorted
  rw [hincr, map_append, pairwise_append] at hsorted
  have hold : ∀ old ∈ (rewritten.map fun ai => { ai with fileType := AofFileType.hist }) ++
    am.historyAofList,
    (∃ ai ∈ rewritten, old = { ai with fileType := .hist }) ∨ old ∈ am.historyAofList := by
    intro old hold
    rcases mem_append.mp hold with hold | hold
    · obtain ⟨ai, hai, rfl⟩ := mem_map.mp hold
      exact .inl ⟨ai, hai, rfl⟩
    · exact .inr hold
  refine { h with
    incr_name := fun ai hai => h.incr_name ai (hkept ai hai)
    incr_le := fun ai hai => h.incr_le ai (hkept ai hai)
    incr_sorted := hsorted.2.1
    hist_name := ?_, hist_nodup := ?_, hist_base := ?_, hist_incr := ?_ }
  · intro old hmem'
    rcases hold old hmem' with ⟨ai, hai, rfl⟩ | hmem'
    · exact .inr (h.incr_name ai (hmem ai hai))
    · exact h.hist_name old hmem'
  · have hall := nodup_entries h
    rw [Manifest.entries, hincr, map_append, map_append, map_append] at hall
    simp only [map_append, map_map]
    rw [nodup_append_comm]
    refine hall.sublist ?_
    rw [append_assoc]
    refine List.Sublist.trans ?_ (sublist_append_right _ _)
    rw [← append_assoc]
    exact sublist_append_left _ _
  · intro old hmem' hbase
    rcases hold old hmem' with ⟨ai, hai, rfl⟩ | hmem'
    · exact absurd rfl (isBase_ne_isIncr hbase (h.incr_name ai (hmem ai hai)))
    · exact h.hist_base old hmem' hbase
  · intro old hmem' hold' ai hai
    rcases hold old hmem' with ⟨ai', hai', rfl⟩ | hmem'
    · exact hsorted.2.2 _ (mem_map_of_mem hai') _ (mem_map_of_mem hai)
    · exact h.hist_incr old hmem' hold' ai (hkept ai hai)

lemma histCounted_markRewritten (hcount : HistCounted aofFilename am) (aofFd : Bool) :
    HistCounted aofFilename (markRewrittenIncrAofAsHistory aofFd am) := by
  rcases markRewritten_eq aofFd am with heq | ⟨rewritten, kept, hincr, heq⟩
  · rwa [heq]
  rw [heq]
  intro old hold hname
  rcases mem_append.mp hold with hold | hold
  · obtain ⟨ai, hai, rfl⟩ := mem_map.mp hold
    exact h.incr_le ai (by simp [hincr, hai])
  · exact hcount old hold hname

omit h in
lemma live_markRewritten {aofFd : Bool}
    (hai : ai ∈ live (markRewrittenIncrAofAsHistory aofFd am)) : ai ∈ live am := by
  rcases markRewritten_eq aofFd am with heq | ⟨rewritten, kept, hincr, heq⟩
  · rwa [heq] at hai
  rw [heq] at hai
  rw [mem_live] at hai ⊢
  rcases hai with hai | hai
  · exact .inl hai
  · exact .inr (by rw [hincr]; exact mem_append_right _ hai)

/-- The counters set again by a restart are those of the files in use. -/
lemma chain_reread : Chain aofFilename (reread am) := by
  refine { h with base_le := ?_, incr_le := ?_ }
  · intro ai hai
    simp only [reread] at hai ⊢
    rw [Option.mem_def] at hai
    simp [hai]
  intro ai hai
  simp only [reread] at hai ⊢
  obtain ⟨init, last, hincr⟩ : ∃ init last, am.incrAofList = init ++ [last] := by
    have hne : am.incrAofList ≠ [] := ne_nil_of_mem hai
    exact ⟨_, _, (dropLast_append_getLast hne).symm⟩
  have hsorted := h.incr_sorted
  rw [hincr, map_append, pairwise_append] at hsorted
  rw [hincr] at hai ⊢
  rcases mem_append.mp hai with hai | hai
  · have := hsorted.2.2 _ (mem_map_of_mem hai) last.fileSeq (by simp)
    simp only [getLast?_concat, Option.map_some, Option.getD_some]
    omega
  · simp [mem_singleton.mp hai]

end

end Manifests

/-- All files in use are there. -/
def Present : Prop := ∀ ai ∈ live am, ai.fileName ∈ d.files

/-- The manifest on disk, if there is one. -/
def DiskOk : Prop := ∀ m ∈ d.manifest, Chain aofFilename m ∧ Present d m

/-- The manifest on disk is that of the server, except that it may list HISTORY
files which the server has already removed. -/
def Synced : Prop :=
  match d.manifest with
  | none => live am = [] ∧ am.historyAofList = []
  | some m =>
    m.baseAofInfo = am.baseAofInfo ∧ m.incrAofList = am.incrAofList ∧
      (am.historyAofList = m.historyAofList ∨ am.historyAofList = [])

/-- What holds between operations. -/
def Live (d : Disk) : Prop :=
  DiskOk aofFilename d ∧ Synced d am ∧ Chain aofFilename am ∧ HistCounted aofFilename am

section Directory

variable {aofFilename : Bytes} {am : Manifest} {d d' : Disk}

lemma present_of_synced (hdisk : DiskOk aofFilename d) (h : Synced d am) : Present d am := by
  intro ai hai
  cases hm : d.manifest with
  | none =>
    simp only [Synced, hm] at h
    rw [h.1] at hai
    cases hai
  | some m =>
    simp only [Synced, hm] at h
    apply (hdisk m hm).2 ai
    rwa [live, h.1, h.2.1]

variable {name : Bytes} {calls : Calls} {o : Outcome} {s : Server} {useRdbPreamble : Bool}

/-- A file that is not in use on the server's side is not in use on disk. -/
lemma ne_live_of_synced (h : Synced d am) (hname : ∀ ai ∈ live am, ai.fileName ≠ name) :
    ∀ m ∈ d.manifest, ∀ ai ∈ live m, ai.fileName ≠ name := by
  intro m hm ai hai
  rw [Option.mem_def] at hm
  simp only [Synced, hm] at h
  rw [live, h.1, h.2.1] at hai
  exact hname ai hai

/-- A change of the directory that keeps the files in use. -/
lemma diskOk_of_files (h : DiskOk aofFilename d) (hmanifest : d'.manifest = d.manifest)
    (hfiles : ∀ m ∈ d.manifest, ∀ ai ∈ live m, ai.fileName ∈ d.files → ai.fileName ∈ d'.files) :
    DiskOk aofFilename d' := by
  intro m hm
  rw [hmanifest] at hm
  obtain ⟨hchain, hpresent⟩ := h m hm
  exact ⟨hchain, fun ai hai => hfiles m hm ai hai (hpresent ai hai)⟩

lemma synced_of_manifest (h : Synced d am) (hmanifest : d'.manifest = d.manifest) :
    Synced d' am := by
  rwa [Synced, hmanifest]

lemma live_of_files (h : Live aofFilename am d) (hmanifest : d'.manifest = d.manifest)
    (hfiles : ∀ ai ∈ live am, ai.fileName ∈ d.files → ai.fileName ∈ d'.files) :
    Live aofFilename am d' := by
  obtain ⟨hdisk, hsynced, hrest⟩ := h
  refine ⟨diskOk_of_files hdisk hmanifest ?_, synced_of_manifest hsynced hmanifest, hrest⟩
  intro m hm ai hai hmem
  apply hfiles ai _ hmem
  rw [Option.mem_def] at hm
  simp only [Synced, hm] at hsynced
  rwa [live, hsynced.1, hsynced.2.1] at hai

lemma create_spec (h : create name d = some d') :
    d'.manifest = d.manifest ∧ name ∈ d'.files ∧ ∀ other ∈ d.files, other ∈ d'.files := by
  cases h
  refine ⟨rfl, ?_, ?_⟩
  · split
    next hmem => exact hmem
    · exact mem_cons_self
  intro other hother
  split
  · exact hother
  · exact mem_cons_of_mem _ hother

lemma remove_spec (h : remove name d = some d') :
    d'.manifest = d.manifest ∧ ∀ other, other ∈ d'.files ↔ other ∈ d.files ∧ other ≠ name := by
  cases h
  exact ⟨rfl, fun other => by simp⟩

lemma rename_spec {old new : Bytes} (h : rename old new d = some d') :
    d'.manifest = d.manifest ∧ new ∈ d'.files ∧
    ∀ other ∈ d.files, other ≠ old → other ∈ d'.files := by
  unfold rename at h
  split at h
  · obtain ⟨mid, hremove, hcreate⟩ := Option.bind_eq_some_iff.mp h
    obtain ⟨hmanifest, hfiles⟩ := remove_spec hremove
    obtain ⟨hmanifest', hnew, hkeep⟩ := create_spec hcreate
    refine ⟨hmanifest'.trans hmanifest, hnew, ?_⟩
    intro other hother hne
    exact hkeep other ((hfiles other).mpr ⟨hother, hne⟩)
  · cases h

/-! ## Operations -/

/-- Removing a file that is not in use keeps everything. -/
lemma triple_bgUnlink_live (hname : ∀ ai ∈ live am, ai.fileName ≠ name) :
    Triple (Live aofFilename am) (bgUnlink calls name) (fun _ => Live aofFilename am)
    (DiskOk aofFilename) := by
  apply triple_call_keep
  · exact fun d h => h.1
  intro d d' h heff
  obtain ⟨hmanifest, hfiles⟩ := remove_spec heff
  exact live_of_files h hmanifest fun ai hai hmem =>
    (hfiles ai.fileName).mpr ⟨hmem, hname ai hai⟩

lemma diskOk_write (hchain : Chain aofFilename am) (hpresent : Present d am) :
    DiskOk aofFilename { d with manifest := some am } := by
  intro m hm
  cases hm
  exact ⟨hchain, hpresent⟩

/-- `persistAofManifest` writes the manifest, or leaves what held before, or
both writes it and reports an error. -/
lemma triple_persist {K : Disk → Prop} (hchain : Chain aofFilename am)
    (hclean : am.dirty = false → ∀ d, K d → Synced d am) :
    Triple (fun d => DiskOk aofFilename d ∧ Present d am ∧ K d) (persistAofManifest o am)
    (fun r d => DiskOk aofFilename d ∧ r.1 = { am with dirty := r.1.dirty } ∧
      ((r.2 = true ∧ Synced d am) ∨ r.2 = false ∧ (K d ∨ o = .unsynced ∧ Synced d am)))
    (DiskOk aofFilename) := by
  apply triple_ite
  · intro _
    have hsynced : ∀ d : Disk, Synced { d with manifest := some am } am :=
      fun _ => ⟨rfl, rfl, .inl rfl⟩
    apply triple_bind (R := fun ok d => DiskOk aofFilename d ∧
      ((ok = true ∧ Synced d am) ∨ ok = false ∧ (K d ∨ o = .unsynced ∧ Synced d am)))
    · apply triple_call
      · exact fun d h => h.1
      · exact fun d h => ⟨h.1, .inr ⟨rfl, .inl h.2.2⟩⟩
      · intro d d' h heff
        cases heff
        exact ⟨diskOk_write hchain h.2.1, .inl ⟨rfl, hsynced d⟩⟩
      · intro d d' h ho heff
        cases heff
        exact ⟨diskOk_write hchain h.2.1, .inr ⟨rfl, .inr ⟨ho, hsynced d⟩⟩⟩
    · intro ok
      apply triple_pure
      intro d h
      refine ⟨h.1, ?_, h.2⟩
      cases ok <;> rfl
  · intro hdirty
    apply triple_pure
    intro d h
    exact ⟨h.1, rfl, .inl ⟨rfl, hclean (by simpa using hdirty) d h.2.2⟩⟩

/-- The state after the history has been removed, or was left alone. -/
lemma triple_aofDelHistoryFiles {gcOff : Bool} (hchain : Chain aofFilename am)
    (hcount : HistCounted aofFilename am ∨ gcOff = false) :
    Triple (fun d => DiskOk aofFilename d ∧ Synced d am) (aofDelHistoryFiles calls gcOff am)
    (Live aofFilename) (DiskOk aofFilename) := by
  apply triple_ite
  · intro hskip
    apply triple_pure
    intro d h
    refine ⟨h.1, h.2, hchain, ?_⟩
    rcases hcount with hcount | hgc
    · exact hcount
    · have hnil : am.historyAofList = [] := by simpa [hgc] using hskip
      simp [HistCounted, hnil]
  intro _
  apply triple_bind (R := fun _ d => DiskOk aofFilename d ∧ Synced d am)
  · apply triple_callAll
    intro old hold
    apply triple_call_keep
    · exact fun d h => h.1
    intro d d' h heff
    obtain ⟨hmanifest, hfiles⟩ := remove_spec heff
    refine ⟨diskOk_of_files h.1 hmanifest ?_, synced_of_manifest h.2 hmanifest⟩
    intro m hm ai hai hmem
    refine (hfiles ai.fileName).mpr ⟨hmem, ?_⟩
    apply ne_live_of_synced h.2 _ m hm ai hai
    exact fun ai hai heq => hist_ne_live hchain hold hai heq.symm
  intro _
  have hchain' := chain_noHistory hchain true
  apply triple_bind (triple_pre (triple_persist
    (K := fun d => Synced d { am with historyAofList := [], dirty := true }) hchain' ?_) ?_)
  · intro r
    apply triple_pure
    intro d h
    have hsynced : Synced d { am with historyAofList := [], dirty := true } := by
      rcases h.2.2 with ⟨_, h⟩ | ⟨_, h | ⟨_, h⟩⟩ <;> exact h
    rw [h.2.1]
    exact ⟨h.1, hsynced, chain_dirty hchain' _, by simp [HistCounted]⟩
  · intro _ d h
    exact h
  intro d h
  have hpresent : Present d am := present_of_synced h.1 h.2
  refine ⟨h.1, hpresent, ?_⟩
  have hsynced := h.2
  unfold Synced at hsynced ⊢
  cases hm : d.manifest with
  | none =>
    rw [hm] at hsynced
    exact ⟨hsynced.1, rfl⟩
  | some m =>
    rw [hm] at hsynced
    exact ⟨hsynced.1, hsynced.2.1, .inr rfl⟩

lemma triple_create_live (name : Bytes) : Triple (Live aofFilename am) (call o (create name))
    (fun ok d => Live aofFilename am d ∧ (ok → name ∈ d.files))
    (DiskOk aofFilename) := by
  apply triple_call_brings
  · exact fun d h => h.1
  · exact fun d h => h
  · intro d d' h heff
    obtain ⟨hmanifest, hnew, hkeep⟩ := create_spec heff
    exact ⟨live_of_files h hmanifest fun ai _ => hkeep ai.fileName, hnew⟩

lemma present_newIncr (h : Present d am) (hnew : (getNewIncrAofName aofFilename am).2 ∈ d.files) :
    Present d (getNewIncrAofName aofFilename am).1 := by
  intro ai hai
  rcases mem_live.mp hai with hai | hai
  · exact h ai (mem_live.mpr (.inl hai))
  rcases mem_append.mp hai with hai | hai
  · exact h ai (mem_live.mpr (.inr hai))
  · rw [mem_singleton.mp hai]
    exact hnew

lemma present_newBase {rdbPreamble : Bool} (h : Present d am)
    (hnew : (getNewBaseFileNameAndMarkPreAsHistory aofFilename am rdbPreamble).2 ∈ d.files) :
    Present d (getNewBaseFileNameAndMarkPreAsHistory aofFilename am rdbPreamble).1 := by
  intro ai hai
  rcases mem_live.mp hai with hai | hai
  · cases hai
    exact hnew
  · exact h ai (mem_live.mpr (.inr hai))

section

variable (hpersist : s.aofState = .on → calls.persist ≠ .unsynced)

include hpersist

lemma triple_openNewIncrAofForAppend :
    Triple (Live aofFilename s.aofManifest) (openNewIncrAofForAppend aofFilename calls s)
    (fun r => Live aofFilename r.1.aofManifest) (DiskOk aofFilename) := by
  unfold openNewIncrAofForAppend
  split
  · exact triple_pure fun d h => h
  · apply triple_bind (triple_create_live _)
    intro ok
    apply triple_pure
    intro d h
    cases ok <;> exact h.1
  next hon =>
    have hpersist := hpersist hon
    show Triple _ (do
      let ok ← call calls.openIncr (create (getNewIncrAofName aofFilename s.aofManifest).2)
      if ok then do
        let r ← persistAofManifest calls.persist (getNewIncrAofName aofFilename s.aofManifest).1
        pure (if r.2 then { s with aofManifest := r.1, aofFd := true } else s, r.2)
      else pure (s, false)) _ _
    apply triple_bind (triple_create_live _)
    intro ok
    apply triple_ite
    · intro hok
      -- the counters are part of what holds before, so the new manifest is sound
      refine triple_assuming (fun d h => h.1.2.2) fun ⟨hchain, hcount⟩ => ?_
      have hchain' := chain_newIncr hchain hcount
      refine triple_bind (triple_pre (triple_persist
        (K := fun d => Synced d s.aofManifest) hchain' Bool.noConfusion) ?_) fun r => ?_
      · intro d ⟨⟨hdisk, hsynced, _⟩, hnew⟩
        exact ⟨hdisk, present_newIncr (present_of_synced hdisk hsynced) (hnew hok), hsynced⟩
      apply triple_pure
      intro d h
      cases hr : r.2 with
      | true =>
        rw [hr] at h
        have hsynced : Synced d (getNewIncrAofName aofFilename s.aofManifest).1 := by
          simpa using h.2.2
        rw [h.2.1]
        exact ⟨h.1, hsynced, chain_dirty hchain' _, histCounted_newIncr hcount⟩
      | false =>
        rw [hr] at h
        exact ⟨h.1, by simpa [hpersist] using h.2.2, hchain, hcount⟩
    · intro _
      exact triple_pure fun d h => h.1

lemma triple_rewriteAppendOnlyFileBackground : Triple (Live aofFilename s.aofManifest)
    (rewriteAppendOnlyFileBackground aofFilename calls useRdbPreamble s)
    (fun r => Live aofFilename r.1.aofManifest) (DiskOk aofFilename) := by
  apply triple_ite
  · exact fun _ => triple_pure fun d h => h
  intro _
  apply triple_bind (R := fun _ => Live aofFilename s.aofManifest)
  · apply triple_call_keep
    · exact fun d h => h.1
    · intro d d' h heff
      cases heff
      exact h
  intro ok
  apply triple_ite
  · intro _
    apply triple_bind (triple_openNewIncrAofForAppend hpersist)
    intro r
    apply triple_ite
    · exact fun _ => triple_pure fun d h => h
    · exact fun _ => triple_pure fun d h => h
  · exact fun _ => triple_pure fun d h => h

end

/-- Installing a manifest whose files are there; the files to remove on failure
are not in use. -/
lemma triple_installRewrite {newFiles : List Bytes}
    (hpersist : calls.persist ≠ .unsynced) (hchain : Chain aofFilename am)
    (hcount : HistCounted aofFilename am)
    (hdirty : (markRewrittenIncrAofAsHistory s.aofFd am).dirty)
    (hnew : ∀ name ∈ newFiles, ∀ ai ∈ live s.aofManifest, ai.fileName ≠ name) :
    Triple (fun d => Live aofFilename s.aofManifest d ∧ Present d am)
    (installRewrite calls am newFiles s) (fun s' => Live aofFilename s'.aofManifest)
    (DiskOk aofFilename) := by
  have hchain' := chain_markRewritten hchain s.aofFd
  have hcount' := histCounted_markRewritten hchain hcount s.aofFd
  refine triple_assuming (fun d h => h.1.2.2) fun ⟨hold, hcold⟩ => ?_
  refine triple_bind (triple_pre (triple_persist
    (K := fun d => Synced d s.aofManifest) hchain' ?_) ?_) fun r => ?_
  · intro hclean
    rw [hdirty] at hclean
    cases hclean
  · intro d ⟨⟨hdisk, hsynced, _⟩, hpresent⟩
    exact ⟨hdisk, fun ai hai => hpresent ai (live_markRewritten hai), hsynced⟩
  apply triple_ite
  · intro hr
    apply triple_assuming
      (p := ∃ dirty, r.1 = { markRewrittenIncrAofAsHistory s.aofFd am with dirty })
      fun d h => ⟨_, h.2.1⟩
    rintro ⟨dirty, heq⟩
    rw [heq]
    apply triple_bind (triple_pre
      (triple_aofDelHistoryFiles (chain_dirty hchain' dirty) (.inl hcount')) ?_)
    · exact fun am' => triple_pure fun d h => h
    intro d h
    rw [hr] at h
    have hsynced : Synced d (markRewrittenIncrAofAsHistory s.aofFd am) := by simpa using h.2.2
    exact ⟨h.1, hsynced⟩
  · intro hr
    apply triple_pre (P := Live aofFilename s.aofManifest)
    · apply triple_bind (triple_callAll fun name hname =>
        triple_bgUnlink_live (hnew name hname))
      intro _
      exact triple_pure fun d h => h
    · intro d h
      have hfalse : r.2 = false := by simpa using hr
      rw [hfalse] at h
      exact ⟨h.1, by simpa [hpersist] using h.2.2, hold, hcold⟩

lemma dirty_markRewritten {aofFd : Bool} (h : am.dirty) :
    (markRewrittenIncrAofAsHistory aofFd am).dirty := by
  rcases markRewritten_eq aofFd am with heq | ⟨_, _, _, heq⟩
  · rwa [heq]
  · rw [heq]

lemma triple_rewriteSucceeded (hpersist : calls.persist ≠ .unsynced) :
    Triple (Live aofFilename s.aofManifest) (rewriteSucceeded aofFilename calls s)
    (fun s' => Live aofFilename s'.aofManifest) (DiskOk aofFilename) := by
  let withBase := getNewBaseFileNameAndMarkPreAsHistory aofFilename s.aofManifest
    s.rewriteUseRdbPreamble
  let withIncr := getNewIncrAofName aofFilename withBase.1
  apply triple_bind (triple_create_live _)
  intro ok
  apply triple_ite
  · intro hok
    refine triple_assuming (fun d h => h.1.2.2) fun ⟨hchain, hcount⟩ => ?_
    apply triple_pre (P := fun d => Live aofFilename s.aofManifest d ∧ Present d withBase.1)
    · have hbaseChain : Chain aofFilename withBase.1 := chain_newBase hchain _
      have hbaseCount : HistCounted aofFilename withBase.1 := histCounted_newBase hchain hcount _
      have hbaseNew : ∀ ai ∈ live s.aofManifest, ai.fileName ≠ withBase.2 :=
        fun ai hai => newBase_ne_live hchain hai _
      apply triple_ite
      · intro _
        apply triple_bind (R := fun ok d => Live aofFilename s.aofManifest d ∧
          (ok = true → Present d withIncr.1))
        · -- the temporary file is no file in use, so renaming it is harmless
          apply triple_call_brings
          · exact fun d h => h.1.1
          · exact fun d h => h.1
          intro d d' h heff
          obtain ⟨hmanifest, hincr, hkeep⟩ := rename_spec heff
          constructor
          · exact live_of_files h.1 hmanifest fun ai hai hmem =>
              hkeep _ hmem (temp_ne_live hchain hai)
          · apply present_newIncr _ hincr
            exact fun ai hai => hkeep _ (h.2 ai hai) (temp_ne_live hbaseChain hai)
        intro ok
        apply triple_ite
        · intro hok
          apply triple_pre (triple_installRewrite hpersist
            (chain_newIncr hbaseChain hbaseCount) (histCounted_newIncr hbaseCount)
            (dirty_markRewritten rfl) ?_)
          · exact fun d h => ⟨h.1, h.2 hok⟩
          intro name hname ai hai
          rcases mem_cons.mp hname with rfl | hname
          · exact hbaseNew ai hai
          · rw [mem_singleton.mp hname]
            have hne := newIncr_ne_live hchain hai
            exact hne
        intro _
        apply triple_pre (P := Live aofFilename s.aofManifest)
        · apply triple_bind (triple_bgUnlink_live hbaseNew)
          intro _
          exact triple_pure fun d h => h
        · exact fun d h => h.1
      · intro _
        apply triple_installRewrite hpersist hbaseChain hbaseCount (dirty_markRewritten rfl)
        intro name hname ai hai
        rw [mem_singleton.mp hname]
        exact hbaseNew ai hai
    · exact fun d ⟨hlive, hnew⟩ =>
        ⟨hlive, present_newBase (present_of_synced hlive.1 hlive.2.1) (hnew hok)⟩
  · intro _
    exact triple_pure fun d h => h.1

lemma triple_rewriteCleanup :
    Triple (Live aofFilename s.aofManifest) (rewriteCleanup aofFilename calls s)
    (fun s' => Live aofFilename s'.aofManifest) (DiskOk aofFilename) := by
  apply triple_ite
  · intro _
    apply triple_assuming fun d h => h.2.2.1
    intro hchain
    apply triple_bind (triple_bgUnlink_live fun ai hai => temp_ne_live hchain hai)
    intro _
    exact triple_pure fun d h => h
  · exact fun _ => triple_pure fun d h => h

lemma triple_backgroundRewriteDoneHandler {success : Bool} (hpersist : calls.persist ≠ .unsynced) :
    Triple (Live aofFilename s.aofManifest)
    (backgroundRewriteDoneHandler aofFilename calls success s)
    (fun s' => Live aofFilename s'.aofManifest) (DiskOk aofFilename) := by
  apply triple_ite
  · intro _
    apply triple_bind (triple_rewriteSucceeded hpersist)
    exact fun s' => triple_rewriteCleanup
  · exact fun _ => triple_rewriteCleanup

/-- A rewrite that is started in `AOF_WAIT_REWRITE` writes no manifest. -/
lemma triple_startAppendOnly {busy : Bool} : Triple (Live aofFilename s.aofManifest)
    (startAppendOnly aofFilename calls busy useRdbPreamble s)
    (fun s' => Live aofFilename s'.aofManifest) (DiskOk aofFilename) := by
  apply triple_ite
  · exact fun _ => triple_pure fun d h => h
  intro _
  apply triple_bind (R := fun r => Live aofFilename r.1.aofManifest)
  · apply triple_rewriteAppendOnlyFileBackground
      (s := { s with aofState := .waitRewrite, aofChild := false })
    intro hon
    cases hon
  · intro r
    apply triple_pure
    intro d h
    cases hr : r.2 <;> simpa using h

/-- What a starting server knows before the history is removed. -/
def Loaded (aofFilename : Bytes) (am : Manifest) (d : Disk) : Prop :=
  DiskOk aofFilename d ∧ Present d am ∧ (am.dirty = false → Synced d am)

lemma loaded_of_files (h : Loaded aofFilename am d)
    (hmanifest : d'.manifest = d.manifest) (hfiles : ∀ name ∈ d.files, name ∈ d'.files) :
    Loaded aofFilename am d' :=
  ⟨diskOk_of_files h.1 hmanifest fun _ _ _ _ hmem => hfiles _ hmem,
    fun ai hai => hfiles _ (h.2.1 ai hai),
    fun hclean => synced_of_manifest (h.2.2 hclean) hmanifest⟩

lemma triple_create_loaded (name : Bytes) : Triple (Loaded aofFilename am) (call o (create name))
    (fun ok d => Loaded aofFilename am d ∧ (ok → name ∈ d.files))
    (DiskOk aofFilename) := by
  apply triple_call_brings
  · exact fun d h => h.1
  · exact fun d h => h
  · intro d d' h heff
    obtain ⟨hmanifest, hnew, hkeep⟩ := create_spec heff
    exact ⟨loaded_of_files h hmanifest hkeep, hnew⟩

section

variable (hchain : Chain aofFilename am) (hcount : HistCounted aofFilename am)

include hchain hcount

lemma triple_createBaseIfEmpty :
    Triple (Loaded aofFilename am) (createBaseIfEmpty aofFilename calls useRdbPreamble am)
    (fun am' d => (Chain aofFilename am' ∧ HistCounted aofFilename am') ∧
      Loaded aofFilename am' d) (DiskOk aofFilename) := by
  apply triple_ite
  · intro _
    apply triple_bind (triple_create_loaded
      (getNewBaseFileNameAndMarkPreAsHistory aofFilename am useRdbPreamble).2)
    intro ok
    apply triple_ite
    · intro hok
      apply triple_pure
      intro d h
      refine ⟨⟨chain_newBase hchain _, histCounted_newBase hchain hcount _⟩, h.1.1,
        present_newBase h.1.2.1 (h.2 hok), ?_⟩
      intro hclean
      cases hclean
    · exact fun _ => triple_exit fun d h => h.1.1
  · exact fun _ => triple_pure fun d h => ⟨⟨hchain, hcount⟩, h⟩

lemma getLastIncr_spec : Chain aofFilename (getLastIncrAofName aofFilename am).1 ∧
    HistCounted aofFilename (getLastIncrAofName aofFilename am).1 ∧
    ∀ d, Loaded aofFilename am d → (getLastIncrAofName aofFilename am).2 ∈ d.files →
      Loaded aofFilename (getLastIncrAofName aofFilename am).1 d := by
  unfold getLastIncrAofName
  split
  · refine ⟨chain_newIncr hchain hcount, histCounted_newIncr hcount, ?_⟩
    intro d h hnew
    refine ⟨h.1, present_newIncr h.2.1 hnew, ?_⟩
    intro hclean
    cases hclean
  · exact ⟨hchain, hcount, fun d h _ => h⟩

lemma triple_openLastIncr : Triple (Loaded aofFilename am) (openLastIncr aofFilename calls am)
    (fun r d => (Chain aofFilename r.1 ∧ HistCounted aofFilename r.1) ∧
      (DiskOk aofFilename d ∧ Synced d r.1)) (DiskOk aofFilename) := by
  obtain ⟨hchain', hcount', hloaded⟩ := getLastIncr_spec hchain hcount
  apply triple_bind (triple_create_loaded _)
  intro ok
  apply triple_ite
  · intro hok
    apply triple_pre (P := Loaded aofFilename (getLastIncrAofName aofFilename am).1)
    · apply triple_bind (triple_persist hchain' ?_)
      · intro r
        apply triple_ite
        · intro hr
          apply triple_pure
          intro d h
          rw [hr] at h
          have hsynced : Synced d (getLastIncrAofName aofFilename am).1 := by simpa using h.2.2
          rw [h.2.1]
          exact ⟨⟨chain_dirty hchain' _, hcount'⟩, h.1, hsynced⟩
        · exact fun _ => triple_exit fun d h => h.1
      · exact fun hclean d h => h hclean
    · exact fun d h => hloaded d h.1 (h.2 hok)
  · exact fun _ => triple_exit fun d h => h.1.1

end

/-- The manifest a restart begins with is that on disk. -/
lemma synced_load (d : Disk) : Synced d (aofLoadManifestFromDisk d) := by
  unfold Synced aofLoadManifestFromDisk
  cases d.manifest with
  | none => exact ⟨rfl, rfl⟩
  | some m => exact ⟨rfl, rfl, .inl rfl⟩

lemma chain_load (h : DiskOk aofFilename d) : Chain aofFilename (aofLoadManifestFromDisk d) := by
  unfold aofLoadManifestFromDisk
  cases hm : d.manifest with
  | none => exact chain_empty
  | some m => exact chain_reread (h m hm).1

lemma triple_startServer {appendonly gcOff : Bool} (hdisk : DiskOk aofFilename d)
    (hcount : HistCounted aofFilename (aofLoadManifestFromDisk d) ∨
    appendonly = false ∧ gcOff = false) :
    Triple (fun d' => d' = d) (startServer aofFilename calls appendonly gcOff useRdbPreamble)
    (fun s => Live aofFilename s.aofManifest) (DiskOk aofFilename) := by
  have hchain := chain_load hdisk
  have hsynced := synced_load d
  have hpresent := present_of_synced hdisk hsynced
  apply triple_bind (R := fun d0 d' => d0 = d ∧ d' = d)
  · exact triple_get fun d' h => ⟨h, h⟩
  intro d0
  apply triple_assume
  rintro rfl
  apply triple_bind (R := fun r d => (Chain aofFilename r.1 ∧
    (HistCounted aofFilename r.1 ∨ gcOff = false)) ∧ (DiskOk aofFilename d ∧ Synced d r.1))
  · apply triple_ite
    · intro hon
      have hcount : HistCounted aofFilename (aofLoadManifestFromDisk d0) := by
        rcases hcount with hcount | ⟨hoff, _⟩
        · exact hcount
        · rw [hon] at hoff
          cases hoff
      apply triple_bind (R := fun _ => Loaded aofFilename (aofLoadManifestFromDisk d0))
      · apply triple_pre (P := Loaded aofFilename (aofLoadManifestFromDisk d0))
        · apply triple_call_keep
          · exact fun d h => h.1
          · intro d d' h heff
            cases heff
            exact h
        · rintro d rfl
          exact ⟨hdisk, hpresent, fun _ => hsynced⟩
      intro ok
      apply triple_ite
      · intro _
        apply triple_bind (triple_createBaseIfEmpty hchain hcount)
        intro am'
        apply triple_assume
        intro h
        apply triple_post (triple_openLastIncr h.1 h.2)
        exact fun r d h => ⟨⟨h.1.1, .inl h.1.2⟩, h.2⟩
      · exact fun _ => triple_exit fun d h => h.1
    · intro hoff
      apply triple_pure
      rintro d rfl
      refine ⟨⟨hchain, ?_⟩, hdisk, hsynced⟩
      rcases hcount with hcount | ⟨_, hgc⟩
      · exact .inl hcount
      · exact .inr hgc
  · intro r
    apply triple_assume
    intro h
    apply triple_bind (triple_aofDelHistoryFiles h.1 h.2)
    intro am'
    exact triple_pure fun d h => h

end Directory

/-! ## Runs -/

/-- What is asked of a manifest: no file twice, INCR numbers increasing, no file
in use removed. -/
def ManifestSafe : Prop :=
  (am.entries.map AofInfo.fileName).Nodup ∧ (am.incrAofList.map AofInfo.fileSeq).Pairwise (· < ·) ∧
    ∀ ai ∈ live am, ai.fileName ∈ d.files

/-- Both manifests are safe. -/
def Safe (w : World) : Prop :=
  (∀ m ∈ w.disk.manifest, ManifestSafe w.disk m) ∧ ∀ s ∈ w.server, ManifestSafe w.disk s.aofManifest

instance (d : Disk) (am : Manifest) : Decidable (ManifestSafe d am) :=
  inferInstanceAs (Decidable (_ ∧ _))

instance (w : World) : Decidable (Safe w) := inferInstanceAs (Decidable (_ ∧ _))

/-- The events that do no harm.  The manifest of a rewrite is not reported as
unwritten when it is in place; and a restart finds an INCR counter that is not
behind the HISTORY files, or removes these before a new name is made. -/
def Harmless (w : World) : Event → Prop
  | .rewriteStart calls _ | .rewriteDone calls _ => calls.persist ≠ .unsynced
  | .restart _ appendonly aofDisableAutoGc _ =>
    (∀ old ∈ (aofLoadManifestFromDisk w.disk).historyAofList, IsIncr aofFilename old →
      old.fileSeq ≤ (aofLoadManifestFromDisk w.disk).currIncrFileSeq) ∨
      appendonly = false ∧ aofDisableAutoGc = false
  | _ => True

instance (aofFilename : Bytes) (w : World) : ∀ e, Decidable (Harmless aofFilename w e)
  | .rewriteStart .. | .rewriteDone .. => inferInstanceAs (Decidable (_ ≠ _))
  | .restart .. => inferInstanceAs (Decidable (_ ∨ _))
  | .delHistory .. | .setDisableAutoGc .. | .enable .. | .disable | .crash =>
    inferInstanceAs (Decidable True)

/-- The invariant of the runs. -/
def WorldOk (w : World) : Prop :=
  DiskOk aofFilename w.disk ∧ ∀ s ∈ w.server, Live aofFilename s.aofManifest w.disk

section Runs

variable {aofFilename : Bytes} {w w' : World} {e : Event}

lemma safe_of_worldOk (h : WorldOk aofFilename w) : Safe w := by
  constructor
  · intro m hm
    obtain ⟨hchain, hpresent⟩ := h.1 m hm
    exact ⟨nodup_entries hchain, hchain.incr_sorted, hpresent⟩
  · intro s hs
    obtain ⟨hdisk, hsynced, hchain, _⟩ := h.2 s hs
    exact ⟨nodup_entries hchain, hchain.incr_sorted, present_of_synced hdisk hsynced⟩

/-- An operation that keeps the invariant, whether it ends or is cut off. -/
lemma worldOk_of_triple {prog : Prog Disk Server} {P : Disk → Prop} {disk : Disk}
    (h : Triple P prog (fun s => Live aofFilename s.aofManifest) (DiskOk aofFilename))
    (hpre : P disk) : WorldOk aofFilename { disk := (prog disk).2, server := (prog disk).1 } := by
  have hres := h disk hpre
  cases hprog : prog disk with
  | mk server disk' =>
    rw [hprog] at hres
    cases server with
    | none => exact ⟨hres, by simp⟩
    | some s =>
      refine ⟨hres.1, ?_⟩
      intro s' hs'
      cases hs'
      exact hres

lemma triple_serverStep {s : Server} {prog : Prog Disk Server}
    (hok : Harmless aofFilename w e) (h : serverStep aofFilename s e = some prog) :
    Triple (Live aofFilename s.aofManifest) prog (fun s => Live aofFilename s.aofManifest)
    (DiskOk aofFilename) := by
  -- removing the history under any setting of the switch
  have hgc : ∀ (calls : Calls) (gcOff : Bool) (s' : Manifest → Server),
    (∀ am, (s' am).aofManifest = am) →
    Triple (Live aofFilename s.aofManifest) (do
      let am ← aofDelHistoryFiles calls gcOff s.aofManifest
      pure (s' am)) (fun s => Live aofFilename s.aofManifest) (DiskOk aofFilename) := by
    intro calls gcOff s' hs'
    refine triple_assuming (fun d h => h.2.2) fun hsound => ?_
    apply triple_bind (triple_pre
      (triple_aofDelHistoryFiles hsound.1 (.inl hsound.2)) fun d h => ⟨h.1, h.2.1⟩)
    intro am
    apply triple_pure
    intro d h
    rwa [hs']
  cases e with
  | rewriteStart calls useRdbPreamble =>
    cases h
    apply triple_bind (triple_rewriteAppendOnlyFileBackground fun _ => hok)
    exact fun r => triple_pure fun d h => h
  | rewriteDone calls success =>
    simp only [serverStep] at h
    split at h
    · cases h
      exact triple_backgroundRewriteDoneHandler hok
    · cases h
  | delHistory calls =>
    cases h
    exact hgc calls _ _ fun _ => rfl
  | setDisableAutoGc calls value =>
    cases h
    exact hgc calls _ _ fun _ => rfl
  | enable calls busy useRdbPreamble =>
    simp only [serverStep] at h
    split at h
    · cases h
      exact triple_startAppendOnly
    · cases h
  | disable =>
    simp only [serverStep] at h
    split at h
    · cases h
    · cases h
      exact triple_pure fun d h => h
  | crash =>
    cases h
    exact triple_exit fun d h => h.1
  | restart => cases h

lemma worldOk_step (h : WorldOk aofFilename w) (hok : Harmless aofFilename w e)
    (hstep : step aofFilename w e = some w') : WorldOk aofFilename w' := by
  obtain ⟨prog, hprog, rfl⟩ := Option.map_eq_some_iff.mp hstep
  cases hserver : w.server with
  | some s =>
    simp only [hserver] at hprog
    exact worldOk_of_triple (triple_serverStep hok hprog) (h.2 s hserver)
  | none =>
    cases e with
    | restart calls appendonly aofDisableAutoGc useRdbPreamble =>
      simp only [hserver, Option.some.injEq] at hprog
      subst hprog
      exact worldOk_of_triple (triple_startServer h.1 hok) rfl
    | _ => simp [hserver] at hprog

/-- Whatever the server does, and whenever it dies: as long as the events are
harmless, no manifest names a file twice, the INCR numbers increase, and no file
that a manifest has in use is gone. -/
theorem files_in_use_kept {events : List Event}
    (hok : Within (step aofFilename) (Harmless aofFilename) {} events)
    (hrun : run (step aofFilename) {} events = some w) : Safe w := by
  have hempty : WorldOk aofFilename {} := ⟨by simp [DiskOk], by simp⟩
  have hw : WorldOk aofFilename w :=
    run_invariant (fun w e w' h hok hstep => worldOk_step h hok hstep) hempty hok hrun
  exact safe_of_worldOk hw

end Runs

/-- A rewrite with the log on, one with the log off, a crash, and a start that
begins a new INCR file. -/
private def plainRun : List Event :=
  [.restart {} true false true, .rewriteStart {} true, .rewriteDone {} true, .disable,
    .rewriteStart {} true, .rewriteDone {} true, .crash, .restart {} true false true]

theorem files_in_use_kept_sample : ((run (step (ofString "a")) {} plainRun).map fun w =>
        w.server.map fun s => (live s.aofManifest).map AofInfo.fileName) =
      some (some [ofString "a.3.base.rdb", ofString "a.1.incr.aof"]) ∧
      ∀ w, run (step (ofString "a")) {} plainRun = some w → Safe w :=
  ⟨by decide +kernel, fun _ h => files_in_use_kept (by decide +kernel) h⟩

/-- With the log off a rewrite turns every INCR file into HISTORY.  The server
dies while the history is being removed, and the next start with the log on
counts INCR files from 1 again: the new file has the name of a HISTORY file and
is removed with it. -/
private def restartRun : List Event :=
  [.restart {} true false true, .disable, .rewriteStart {} true,
    .rewriteDone { gcPersist := .died } true, .restart {} true false true]

/-- The manifest of a rewrite is in place, but the directory cannot be synced. -/
private def unsyncedRun : List Event :=
  [.restart {} true false true, .rewriteStart {} true,
    .rewriteDone { persist := .unsynced } true, .crash]

private def restartEnd : World where
  disk :=
    { files := [ofString "a.2.base.rdb"]
      manifest := some
        { baseAofInfo := some ⟨ofString "a.2.base.rdb", 2, .base⟩
          incrAofList := [⟨ofString "a.1.incr.aof", 1, .incr⟩]
          currBaseFileSeq := 2, currIncrFileSeq := 1, dirty := true } }
  server := some
    { aofManifest :=
        { baseAofInfo := some ⟨ofString "a.2.base.rdb", 2, .base⟩
          incrAofList := [⟨ofString "a.1.incr.aof", 1, .incr⟩]
          currBaseFileSeq := 2, currIncrFileSeq := 1 }
      aofFd := true, aofState := .on, aofDisableAutoGc := false }

private def unsyncedEnd : World where
  disk :=
    { files := [ofString "a.2.incr.aof", ofString "a.1.incr.aof", ofString "a.1.base.rdb"]
      manifest := some
        { baseAofInfo := some ⟨ofString "a.2.base.rdb", 2, .base⟩
          historyAofList :=
            [⟨ofString "a.1.incr.aof", 1, .hist⟩, ⟨ofString "a.1.base.rdb", 1, .hist⟩]
          incrAofList := [⟨ofString "a.2.incr.aof", 2, .incr⟩]
          currBaseFileSeq := 2, currIncrFileSeq := 2, dirty := true } }

theorem files_in_use_removed :
    (run (step (ofString "a")) {} restartRun = some restartEnd ∧ ¬ Safe restartEnd) ∧
      run (step (ofString "a")) {} unsyncedRun = some unsyncedEnd ∧ ¬ Safe unsyncedEnd :=
  ⟨⟨by decide +kernel, by decide +kernel⟩, by decide +kernel, by decide +kernel⟩

end Dice.Ports.AofSafety
