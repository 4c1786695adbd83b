import Dice.Ports.Glob
import Mathlib.Data.List.Basic

/-!
# Slots of patterns

The slot of a key is the hash of its tag, the bytes between the first `{` and
the next `}`, or of the whole key if there is no tag.  A pattern has a slot if
it spells out the tag or the whole key.
-/

namespace Dice.Ports.HashSlots

open List Verified.CString Glob

/-- The bytes `keyHashSlot` hashes; `s` and `e` are the places of the braces. -/
def hashed (key : Bytes) : Bytes :=
  let s := key.idxOf 123
  if s = key.length then key
  else
    let e := s + 1 + (key.drop (s + 1)).idxOf 125
    if e = key.length ∨ e = s + 1 then key else (key.drop (s + 1)).take (e - s - 1)

/-- The loop of `patternHashSlot`: the bytes it hashes, or nothing for -1. -/
def scanPattern (pattern : Bytes) : Nat → Int → Bytes → Option Bytes
  | _, _, [] => some pattern
  | i, s, c :: rest =>
    if c = 42 ∨ c = 63 ∨ c = 91 then none
    else if c = 92 then none
    else if s = -1 ∧ c = 123 then scanPattern pattern (i + 1) i rest
    else if s ≥ 0 ∧ c = 125 ∧ i = s + 1 then scanPattern pattern (i + 1) (-2) rest
    else if s ≥ 0 ∧ c = 125 then
      some ((pattern.drop (s.toNat + 1)).take (i - s.toNat - 1))
    else scanPattern pattern (i + 1) s rest

section

variable (crc16 : Bytes → UInt16)

def keyHashSlot (key : Bytes) : UInt16 := crc16 (hashed key) &&& 0x3FFF

def patternHashSlot (pattern : Bytes) : Int :=
  (scanPattern pattern 0 (-1) pattern).elim (-1) fun bytes => (crc16 bytes &&& 0x3FFF).toNat

end

variable {a b t pattern key : Bytes}

lemma hashed_none (ha : 123 ∉ a) : hashed a = a := by
  rw [hashed, if_pos (idxOf_eq_length ha)]

lemma idxOf_middle {c : UInt8} (hc : c ∉ a) (t : Bytes) : (a ++ c :: t).idxOf c = a.length := by
  rw [idxOf_append_of_notMem hc, idxOf_cons_self, Nat.add_zero]

lemma drop_middle (a t : Bytes) (c : UInt8) : (a ++ c :: t).drop (a.length + 1) = t := by
  rw [← drop_drop, drop_left, drop_one, tail_cons]

lemma hashed_brace (ha : 123 ∉ a) (t : Bytes) : hashed (a ++ 123 :: t) =
    if t.idxOf 125 = t.length ∨ t.idxOf 125 = 0 then a ++ 123 :: t
    else t.take (t.idxOf 125) := by
  rw [hashed, idxOf_middle ha, drop_middle]
  simp only [length_append, length_cons]
  rw [if_neg (by omega), show a.length + 1 + t.idxOf 125 - a.length - 1 = t.idxOf 125 by omega]
  refine if_congr ?_ rfl rfl
  omega

/-- Bytes that match only themselves. -/
def Plain (c : UInt8) : Prop := c ≠ 42 ∧ c ≠ 63 ∧ c ≠ 91 ∧ c ≠ 92

/-- What a pattern spells out at its front stands at the front of every string it
matches. -/
lemma front_of_match {fuel nesting : Nat} {skip : Bool} (ha : ∀ c ∈ a, Plain c)
    (h : (stringmatchlenImpl false fuel (a ++ t) key skip nesting).1 = true) :
    ∃ rest, key = a ++ rest ∧ (t = [] → rest = []) := by
  induction a generalizing fuel key with
  | nil =>
    refine ⟨key, rfl, ?_⟩
    rintro rfl
    cases fuel with
    | zero => simp [stringmatchlenImpl] at h
    | succ fuel =>
      unfold stringmatchlenImpl at h
      split_ifs at h
      simpa using h
  | cons p a ih =>
    obtain ⟨hp, ha⟩ := forall_mem_cons.mp ha
    cases fuel with
    | zero => simp [stringmatchlenImpl] at h
    | succ fuel =>
      cases key with
      | nil =>
        unfold stringmatchlenImpl at h
        split_ifs at h
        simp at h
      | cons c key =>
        simp only [cons_append, stringmatchlenImpl, if_neg hp.1, if_neg hp.2.1, if_neg hp.2.2.1,
          if_neg hp.2.2.2] at h
        split_ifs at h with _ hc hend
        · obtain rfl : p = c := by simpa [sameByte] using hc
          obtain rfl := List.isEmpty_iff.mp hend
          -- the rest of the pattern consists of stars
          cases a with
          | nil => exact ⟨[], rfl, fun _ => rfl⟩
          | cons q a =>
            have hq := (ha q (mem_cons_self ..)).1
            simp [hq] at h
        · obtain rfl : p = c := by simpa [sameByte] using hc
          obtain ⟨rest, rfl, hrest⟩ := ih ha h
          exact ⟨rest, rfl, hrest⟩

/-- What the index `s` says about the bytes that were passed. -/
def Passed (s : Int) (a : Bytes) : Prop :=
  (s = -1 ∧ 123 ∉ a) ∨ (∃ b t, a = b ++ 123 :: t ∧ 123 ∉ b ∧ 125 ∉ t ∧ s = b.length) ∨
    ∃ b t, a = b ++ 123 :: 125 :: t ∧ 123 ∉ b ∧ s = -2

lemma Passed.hashed_eq {s : Int} (h : Passed s a) : hashed a = a := by
  rcases h with ⟨_, hopen⟩ | ⟨b, t, rfl, hb, ht, _⟩ | ⟨b, t, rfl, hb, _⟩
  · exact hashed_none hopen
  · rw [hashed_brace hb, if_pos (.inl (idxOf_eq_length ht))]
  · rw [hashed_brace hb, if_pos (.inr (idxOf_cons_self ..))]

lemma scanPattern_spec {s : Int} {bytes : Bytes} (ha : ∀ c ∈ a, Plain c) (hs : Passed s a)
    (h : scanPattern (a ++ t) a.length s t = some bytes)
    (hmatch : stringmatchlen (a ++ t) key = true) : hashed key = bytes := by
  induction t generalizing a s with
  | nil =>
    obtain ⟨rest, rfl, hrest⟩ := front_of_match ha hmatch
    obtain rfl := hrest rfl
    rw [append_nil] at h ⊢
    cases h
    exact hs.hashed_eq
  | cons c t ih =>
    have hon : ∀ s', Passed s' (a ++ [c]) → Plain c →
      scanPattern (a ++ c :: t) (a.length + 1) s' t = some bytes → hashed key = bytes := by
      intro s' hs' hc hscan
      rw [append_cons] at hscan hmatch
      exact ih (forall_mem_append.mpr ⟨ha, by simpa using hc⟩) hs' (by simpa using hscan) hmatch
    rw [scanPattern] at h
    split_ifs at h with hwild hesc hopen hempty hclose
    all_goals have hc : Plain c := by grind [Plain]
    · obtain ⟨rfl, rfl⟩ := hopen
      have hout : 123 ∉ a := by
        rcases hs with ⟨_, hout⟩ | ⟨_, _, _, _, _, hlen⟩ | ⟨_, _, _, _, hlen⟩
        · exact hout
        · omega
        · omega
      exact hon _ (.inr (.inl ⟨a, [], rfl, hout, by simp, rfl⟩)) hc h
    all_goals
      rcases hs with ⟨hs, hout⟩ | ⟨b, u, rfl, hb, hu, hs⟩ | ⟨b, u, rfl, hb, hs⟩
    · omega
    · obtain ⟨_, rfl, hlen⟩ := hempty
      have hnil : u = [] := by
        rw [length_append, length_cons] at hlen
        exact length_eq_zero_iff.mp (by omega)
      subst hnil
      exact hon _ (.inr (.inr ⟨b, [], by simp, hb, rfl⟩)) hc h
    · omega
    · omega
    · obtain ⟨_, rfl⟩ := hclose
      rw [append_cons] at hmatch
      obtain ⟨rest, rfl, _⟩ := front_of_match (forall_mem_append.mpr ⟨ha, by simpa using hc⟩) hmatch
      subst hs
      rw [append_assoc, cons_append, Int.toNat_natCast, drop_middle, length_append, length_cons,
        show b.length + (u.length + 1) - b.length - 1 = u.length by omega, take_left] at h
      cases h
      have hne : bytes.length ≠ 0 := fun hnil => hempty ⟨by omega, rfl, by simp [hnil]⟩
      rw [append_assoc, append_assoc, cons_append, singleton_append, hashed_brace hb,
        idxOf_middle hu, if_neg, take_left]
      rw [length_append, length_cons]
      omega
    · omega
    · exact hon _ (.inl ⟨hs, by grind⟩) hc h
    · exact hon _ (.inr (.inl ⟨b, u ++ [c], by simp, hb, by grind, hs⟩)) hc h
    · exact hon _ (.inr (.inr ⟨b, u ++ [c], by simp, hb, hs⟩)) hc h

/-- Every key that a pattern with a slot matches is in that slot. -/
theorem patternHashSlot_sound (crc16 : Bytes → UInt16) (pattern key : Bytes)
    (hslot : patternHashSlot crc16 pattern ≠ -1) (hmatch : stringmatchlen pattern key = true) :
    (keyHashSlot crc16 key).toNat = patternHashSlot crc16 pattern := by
  rw [patternHashSlot] at hslot ⊢
  cases h : scanPattern pattern 0 (-1) pattern with
  | none => simp [h] at hslot
  | some bytes =>
    have := scanPattern_spec (a := []) (by simp) (.inl ⟨rfl, by simp⟩) h hmatch
    rw [keyHashSlot, this]
    rfl

/-- A tag before a star. -/
theorem patternHashSlot_sound_tag :
    (keyHashSlot (UInt16.ofNat ·.length) (ofString "a\x7bbc\x7dd")).toNat =
      patternHashSlot (UInt16.ofNat ·.length) (ofString "a\x7bbc\x7d*") :=
  patternHashSlot_sound _ _ _ (by decide) (by decide)

end Dice.Ports.HashSlots
