import Mathlib.Data.List.Infix

/-!
# Streams with holes

A writer that must announce a length before it knows it leaves a hole in its
output and fills it later.  A stream is a list of items, some of which are
such holes.  The facts below say where a filled text ends up and that filling
never breaks up a stretch of text that has no hole in it.
-/

namespace Dice.Verified.Holes

open List

variable {α : Type}

/-- One position of a stream: a hole with its address, or an item. -/
inductive Item (α : Type)
  | hole (address : Nat)
  | item (a : α)

/-- The stream that is just this text. -/
def solid (text : List α) : List (Item α) := text.map .item

/-- Replace the first hole of that address by a text. -/
def fill (address : Nat) (text : List α) : List (Item α) → List (Item α)
  | [] => []
  | .hole other :: rest =>
    if other = address then solid text ++ rest
    else .hole other :: fill address text rest
  | .item a :: rest => .item a :: fill address text rest

/-- The text of a stream, its holes left out. -/
def text (stream : List (Item α)) : List α :=
  stream.filterMap fun
    | .hole _ => none
    | .item a => some a

@[simp] lemma solid_nil : solid ([] : List α) = [] := rfl

section

variable (address : Nat) (x : List α)

@[simp] lemma solid_append (x y : List α) : solid (x ++ y) = solid x ++ solid y := by
  simp [solid]

@[simp] lemma text_solid : text (solid x) = x := by
  simp only [text, solid, filterMap_map]
  exact filterMap_some

@[simp] lemma text_append (x y : List (Item α)) : text (x ++ y) = text x ++ text y := by
  simp [text]

lemma hole_notMem_solid : Item.hole address ∉ solid x := by
  simp [solid]

/-- Text and other holes in front of the hole stay as they are. -/
theorem fill_append (before after : List (Item α)) (h : Item.hole address ∉ before) :
    fill address x (before ++ after) = before ++ fill address x after := by
  induction before with
  | nil => rfl
  | cons i before ih =>
    have hrest : Item.hole address ∉ before := fun hmem => h (by simp [hmem])
    cases i with
    | item a => rw [cons_append, fill, ih hrest, cons_append]
    | hole other =>
      have hne : other ≠ address := by
        intro heq
        exact h (by simp [heq])
      rw [cons_append, fill, if_neg hne, ih hrest, cons_append]

/-- The hole itself is replaced by the text. -/
theorem fill_hole (after : List (Item α)) :
    fill address x (.hole address :: after) = solid x ++ after := by
  rw [fill, if_pos rfl]

/-- A stream without the hole is left alone. -/
theorem fill_of_notMem (stream : List (Item α)) (h : Item.hole address ∉ stream) :
    fill address x stream = stream := by
  have happend := fill_append address x stream [] h
  simpa [fill] using happend

end

section

variable {block : List α} {stream : List (Item α)}

/-- Filling a hole does not break up solid text elsewhere. -/
theorem solid_infix_fill (address : Nat) (x : List α) (h : solid block <:+: stream) :
    solid block <:+: fill address x stream := by
  obtain ⟨before, after, rfl⟩ := h
  rw [append_assoc]
  by_cases hbefore : Item.hole address ∈ before
  · -- the hole is in front of the block
    obtain ⟨front, back, rfl, hfront⟩ := eq_append_cons_of_mem hbefore
    rw [append_assoc, fill_append _ _ _ _ hfront, cons_append, fill_hole,
      ← append_assoc, ← append_assoc, ← append_assoc]
    exact List.infix_append _ (solid block) after
  · rw [fill_append _ _ _ _ hbefore, fill_append _ _ _ _ (hole_notMem_solid _ _), ← append_assoc]
    exact List.infix_append before (solid block) _

/-- Solid text is contiguous in the text of the stream. -/
theorem infix_text (h : solid block <:+: stream) : block <:+: text stream := by
  obtain ⟨before, after, rfl⟩ := h
  rw [text_append, text_append, text_solid]
  exact List.infix_append _ _ _

end

end Dice.Verified.Holes
