import Dice.Verified.CString

/-!
# Buffers

A buffer is the list of its cells.  Reading or writing outside of it is an
error, so a computation on buffers that succeeds has stayed inside.  Moving a
part of a buffer onto another goes through a copy, as `memmove` does.  The
second part is about numbers that are stored with the lowest byte first.
-/

namespace Dice.Verified.Buffer

open List CString Nat Option

variable {α : Type*}

/-- `n` cells from `off` on. -/
def load (buf : List α) (off n : Nat) : Option (List α) :=
  if off + n ≤ buf.length then some ((buf.drop off).take n) else none

/-- Overwrites the cells from `off` on. -/
def store (buf : List α) (off : Nat) (xs : List α) : Option (List α) :=
  if off + xs.length ≤ buf.length then
    some (buf.take off ++ xs ++ buf.drop (off + xs.length))
  else none

def memmove (buf : List α) (dst src n : Nat) : Option (List α) :=
  (load buf src n).bind (store buf dst)

/-- `realloc`; what the new cells hold is given. -/
def realloc (fill : α) (buf : List α) (n : Nat) : List α :=
  buf.take n ++ replicate (n - buf.length) fill

lemma load_append (pre xs post : List α) :
    load (pre ++ xs ++ post) pre.length xs.length = some xs := by
  rw [load, if_pos (by simp only [length_append]; omega), append_assoc, drop_left, take_left]

variable {n : Nat}

lemma load_of_le {buf : List α} {off : Nat} (h : off + n ≤ buf.length) :
    load buf off n = some ((buf.drop off).take n) := if_pos h

lemma store_append (pre post : List α) {old xs : List α} (h : xs.length = old.length) :
    store (pre ++ old ++ post) pre.length xs = some (pre ++ xs ++ post) := by
  have htake : (pre ++ old ++ post).take pre.length = pre := by rw [append_assoc, take_left]
  rw [store, if_pos (by simp only [length_append]; omega), htake, h, ← length_append, drop_left]

/-- A gap is filled by two pieces. -/
theorem store_store (pre post : List α) {gap xs ys : List α}
    (h : gap.length = xs.length + ys.length) :
    (store (pre ++ gap ++ post) pre.length xs).bind
      (fun buf => store buf (pre.length + xs.length) ys) =
    some (pre ++ (xs ++ ys) ++ post) := by
  have hfirst : store (pre ++ gap ++ post) pre.length xs =
    some (pre ++ xs ++ gap.drop xs.length ++ post) := by
    have hgap : pre ++ gap ++ post = pre ++ gap.take xs.length ++ (gap.drop xs.length ++ post) := by
      rw [← append_assoc, append_assoc pre (gap.take _), take_append_drop]
    rw [hgap, store_append pre _ (by rw [length_take]; omega), ← append_assoc]
  rw [hfirst, bind_some, ← length_append, store_append _ post (by
    rw [length_drop]; omega), append_assoc pre]

lemma realloc_of_le (fill : α) {buf : List α} (h : n ≤ buf.length) :
    realloc fill buf n = buf.take n := by
  rw [realloc, Nat.sub_eq_zero_of_le h, replicate_zero, append_nil]

/-- What follows a gap of `n` cells is moved. -/
theorem memmove_after (pre mid post rest : List α)
    (hfit : pre.length + n + post.length ≤ (pre ++ mid ++ post ++ rest).length) :
    memmove (pre ++ mid ++ post ++ rest) (pre.length + n) (pre.length + mid.length)
      post.length =
    some (pre ++ (mid ++ post ++ rest).take n ++ post ++
      (pre ++ mid ++ post ++ rest).drop (pre.length + n + post.length)) := by
  have htake : (pre ++ mid ++ post ++ rest).take (pre.length + n) =
    pre ++ (mid ++ post ++ rest).take n := by
    rw [append_assoc, append_assoc, take_length_add_append, ← append_assoc]
  rw [memmove, ← length_append, load_append, bind_some, store, if_pos hfit, htake]

/-- A part of a buffer makes room for `n` cells: the buffer grows first or
shrinks afterwards, and what follows the part is moved. -/
theorem memmove_gap (fill : α) (pre mid post : List α) (n : Nat) :
    ∃ buf gap : List α, gap.length = n ∧ memmove
      (if (pre ++ mid ++ post).length < pre.length + n + post.length then
        realloc fill (pre ++ mid ++ post) (pre.length + n + post.length)
      else pre ++ mid ++ post)
      (pre.length + n) (pre.length + mid.length) post.length = some buf ∧
    (if pre.length + n + post.length < (pre ++ mid ++ post).length then
      realloc fill buf (pre.length + n + post.length) else buf) = pre ++ gap ++ post := by
  simp only [length_append]
  rcases lt_or_ge mid.length n with hgrow | hshrink
  · have hbuf : realloc fill (pre ++ mid ++ post) (pre.length + n + post.length) =
      pre ++ mid ++ post ++ replicate (n - mid.length) fill := by
      rw [realloc, take_of_length_le (by simp only [length_append]; omega)]
      congr 2
      simp only [length_append]
      omega
    have hmove := memmove_after pre mid post (replicate (n - mid.length) fill) (n := n)
      (by simp only [length_append, length_replicate]; omega)
    refine ⟨_, (mid ++ post ++ replicate (n - mid.length) fill).take n, ?_,
      by rw [if_pos (by omega), hbuf, hmove], ?_⟩
    · simp only [length_take, length_append, length_replicate]
      omega
    · rw [if_neg (by omega), drop_of_length_le, append_nil]
      simp only [length_append, length_replicate]
      omega
  · have hmove := memmove_after pre mid post [] (n := n) (by simp only [length_append]; omega)
    simp only [append_nil] at hmove
    have hgap : ((mid ++ post).take n).length = n := by
      simp only [length_take, length_append]
      omega
    refine ⟨_, (mid ++ post).take n, hgap, by rw [if_neg (by omega), hmove], ?_⟩
    have hlen : (pre ++ (mid ++ post).take n ++ post).length = pre.length + n + post.length := by
      rw [length_append, length_append, hgap]
    split
    · rw [realloc_of_le, ← hlen, take_left]
      rw [length_append]
      omega
    · rw [drop_of_length_le (by simp only [length_append]; omega), append_nil]

/-- Where the pieces start if the first one starts at `p`. -/
def starts (p : Nat) : List (List α) → List Nat
  | [] => []
  | e :: es => p :: starts (p + e.length) es

@[simp] lemma length_starts (p : Nat) (es : List (List α)) : (starts p es).length = es.length := by
  induction es generalizing p with
  | nil => rfl
  | cons e es ih => rw [starts, length_cons, ih, length_cons]

lemma getElem?_starts (p : Nat) {es : List (List α)} {i : Nat} (h : i < es.length) :
    (starts p es)[i]? = some (p + (es.take i).flatten.length) := by
  induction es generalizing p i with
  | nil => simp at h
  | cons e es ih =>
    cases i with
    | zero => rfl
    | succ i =>
      rw [starts, getElem?_cons_succ, ih _ (by simpa using h), take_succ_cons,
        flatten_cons, length_append, add_assoc]

/-- The `n` lowest bytes of a number. -/
def toLE : Nat → Nat → Bytes
  | 0, _ => []
  | n + 1, v => UInt8.ofNat v :: toLE n (v / 256)

/-- The number that bytes stand for. -/
def ofLE : Bytes → Nat
  | [] => 0
  | b :: bs => b.toNat + 256 * ofLE bs

def readLE (buf : Bytes) (off n : Nat) : Option Nat := (load buf off n).map ofLE

def writeLE (buf : Bytes) (off n v : Nat) : Option Bytes := store buf off (toLE n v)

@[simp] lemma length_toLE (n v : Nat) : (toLE n v).length = n := by
  induction n generalizing v with
  | zero => rfl
  | succ n ih => rw [toLE, length_cons, ih]

lemma ofLE_toLE (n v : Nat) : ofLE (toLE n v) = v % 256 ^ n := by
  induction n generalizing v with
  | zero => rw [toLE, ofLE, pow_zero, mod_one]
  | succ n ih =>
    have hmod : v % 256 ^ (n + 1) = v % 256 + 256 * (v / 256 % 256 ^ n) := by
      rw [pow_succ', mod_mul]
    rw [toLE, ofLE, ih, UInt8.toNat_ofNat', hmod]

/-- Only the lowest bytes are written. -/
theorem toLE_mod (n v : Nat) : toLE n (v % 256 ^ n) = toLE n v := by
  induction n generalizing v with
  | zero => rfl
  | succ n ih =>
    have hbyte : UInt8.ofNat (v % 256 ^ (n + 1)) = UInt8.ofNat v := by
      apply UInt8.toNat_inj.mp
      rw [UInt8.toNat_ofNat', UInt8.toNat_ofNat', pow_succ',
        Nat.mod_mod_of_dvd _ (Nat.dvd_mul_right _ _)]
    rw [toLE, toLE, hbyte, Nat.pow_succ', Nat.mod_mul_right_div_self, ih]

lemma ofLE_lt (bs : Bytes) : ofLE bs < 256 ^ bs.length := by
  induction bs with
  | nil => decide
  | cons b bs ih =>
    have := b.toNat_lt
    rw [ofLE, length_cons]
    omega

/-- A number that was written is read back. -/
theorem readLE_toLE (pre post : Bytes) {v : Nat} (h : v < 256 ^ n) :
    readLE (pre ++ toLE n v ++ post) pre.length n = some v := by
  have hload := load_append pre (toLE n v) post
  rw [length_toLE] at hload
  rw [readLE, hload, map_some, ofLE_toLE, mod_eq_of_lt h]

lemma readLE_of_le {buf : Bytes} {off : Nat} (h : off + n ≤ buf.length) :
    ∃ v, readLE buf off n = some v ∧ v < 256 ^ n := by
  have hlen : ((buf.drop off).take n).length = n := by
    rw [length_take, length_drop]
    omega
  refine ⟨ofLE ((buf.drop off).take n), by rw [readLE, load_of_le h]; rfl, ?_⟩
  have := ofLE_lt ((buf.drop off).take n)
  rwa [hlen] at this

end Dice.Verified.Buffer
