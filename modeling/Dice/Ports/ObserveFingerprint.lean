import Dice.Verified.CString

/-!
# Command fingerprints

A subscription is identified by the CRC-64 of the observed command, printed
as sixteen hexadecimal digits.  What is hashed is the argument vector joined
with single blanks, without any quoting.  The checksum is the bit-by-bit form
`_crc64` that the lookup tables of `crc64` are generated from, from zero.

`generateCommandFingerprint_eq_iff`: as long as the checksum does not collide
on the two joined strings, two vectors have the same fingerprint exactly when
they are the same sequence of blank-separated words.
-/

namespace Dice.Ports.ObserveFingerprint

open Verified.CString

/-- `POLY`. -/
def crcPoly : UInt64 := 0xad93d23594c935a9

/-- One turn of the inner loop of `_crc64`: shift, and fold in the polynomial
when the bit shifted out differs from the data bit. -/
def crcBit (crc : UInt64) (dataBit : Bool) : UInt64 :=
  let bit := (crc &&& 0x8000000000000000 != 0) != dataBit
  if bit then (crc <<< 1) ^^^ crcPoly else crc <<< 1

/-- One byte, least significant bit first. -/
def crcByte (crc : UInt64) (c : UInt8) : UInt64 :=
  [0x01, 0x02, 0x04, 0x08, 0x10, 0x20, 0x40, 0x80].foldl
    (fun crc i => crcBit crc (c &&& i != 0)) crc

/-- `crc_reflect(data, 64)`: swap bits, pairs, nibbles, bytes, then the
two- and four-byte groups. -/
def crcReflect (data : UInt64) : UInt64 :=
  let swap (shift mask : UInt64) (d : UInt64) : UInt64 :=
    ((d >>> shift) &&& mask) ||| ((d &&& mask) <<< shift)
  swap 32 0x00000000ffffffff <| swap 16 0x0000ffff0000ffff <|
    swap 8 0x00ff00ff00ff00ff <| swap 4 0x0f0f0f0f0f0f0f0f <|
      swap 2 0x3333333333333333 <| swap 1 0x5555555555555555 data

/-- `crc64(0, s, len)`. -/
def crc64 (s : Bytes) : UInt64 := crcReflect (s.foldl crcByte 0)

-- The check value of the CRC-64 the server uses.
example : crc64 (ofString "123456789") = 0xe9c6d914c4b8d9ca := by decide +kernel

/-- A digit of `%x`. -/
def hexDigit (n : Nat) : UInt8 :=
  if n < 10 then (48 + n).toUInt8 else (87 + n).toUInt8

/-- The `width` least significant hexadecimal digits of `v`, most significant
first. -/
def hexDigits : Nat → Nat → Bytes
  | 0, _ => []
  | width + 1, v => hexDigits width (v / 16) ++ [hexDigit (v % 16)]

private lemma hexDigit_inj : ∀ a < 16, ∀ b < 16, hexDigit a = hexDigit b → a = b := by
  decide

lemma hexDigits_inj {width a b : Nat} (ha : a < 16 ^ width)
    (hb : b < 16 ^ width) (h : hexDigits width a = hexDigits width b) : a = b := by
  induction width generalizing a b with
  | zero => simp at ha hb; omega
  | succ width ih =>
    obtain ⟨hhigh, hlow⟩ := List.append_inj' h rfl
    have hquot : a / 16 = b / 16 := by
      refine ih ?_ ?_ hhigh <;>
        exact Nat.div_lt_of_lt_mul (by rw [Nat.pow_succ] at *; omega)
    have hrem : a % 16 = b % 16 :=
      hexDigit_inj _ (Nat.mod_lt _ (by decide)) _ (Nat.mod_lt _ (by decide)) (by simpa using hlow)
    omega

/-- `%016llx`. -/
def hex16 (hash : UInt64) : Bytes := hexDigits 16 hash.toNat

lemma hex16_inj {a b : UInt64} (h : hex16 a = hex16 b) : a = b := by
  refine UInt64.toNat_inj.mp (@hexDigits_inj 16 _ _ ?_ ?_ h)
  · exact a.toNat_lt
  · exact b.toNat_lt

/-- The loop of `generateCommandFingerprint`: every argument, with one blank
after each but the last. -/
def fingerprintData : List Bytes → Bytes
  | [] => []
  | [arg] => arg
  | arg :: next :: rest => arg ++ 32 :: fingerprintData (next :: rest)

/-- `generateCommandFingerprint` on the (shifted) argument vector. -/
def generateCommandFingerprint (argv : List Bytes) : Bytes := hex16 (crc64 (fingerprintData argv))

/-- The checksum does not collide on the data of these two vectors. -/
def NoCollision (argv₁ argv₂ : List Bytes) : Prop :=
  crc64 (fingerprintData argv₁) = crc64 (fingerprintData argv₂) →
    fingerprintData argv₁ = fingerprintData argv₂

instance (argv₁ argv₂ : List Bytes) : Decidable (NoCollision argv₁ argv₂) := by
  unfold NoCollision
  infer_instance

/-- The blank-separated words of a vector: all its arguments split at blanks,
in order. -/
def words (argv : List Bytes) : List Bytes := argv.flatMap fun arg => arg.splitOn 32

/-- Splitting the hashed data at blanks gives the words back. -/
lemma splitOn_fingerprintData {argv : List Bytes} (h : argv ≠ []) :
    (fingerprintData argv).splitOn 32 = words argv := by
  induction argv using fingerprintData.induct with
  | case1 => exact absurd rfl h
  | case2 arg => simp [fingerprintData, words]
  | case3 arg next rest ih =>
    rw [fingerprintData, List.splitOn_append_cons_self, ih (by simp)]
    simp [words]

section

variable {argv1 argv2 : List Bytes} (h1 : argv1 ≠ []) (h2 : argv2 ≠ [])

include h1 h2

lemma fingerprintData_eq_iff : fingerprintData argv1 = fingerprintData argv2 ↔
    words argv1 = words argv2 := by
  constructor
  · intro h
    rw [← splitOn_fingerprintData h1, ← splitOn_fingerprintData h2, h]
  intro h
  rw [← splitOn_fingerprintData h1, ← splitOn_fingerprintData h2] at h
  calc fingerprintData argv1
    = [(32 : UInt8)].intercalate ((fingerprintData argv1).splitOn 32) :=
      (List.intercalate_splitOn 32).symm
    _ = [(32 : UInt8)].intercalate ((fingerprintData argv2).splitOn 32) := by
      rw [h]
    _ = fingerprintData argv2 := List.intercalate_splitOn 32

/-- Without a checksum collision the fingerprint identifies the word
sequence, and nothing finer. -/
lemma generateCommandFingerprint_eq_iff (hcrc : NoCollision argv1 argv2) :
    generateCommandFingerprint argv1 = generateCommandFingerprint argv2 ↔
    words argv1 = words argv2 := by
  rw [← fingerprintData_eq_iff h1 h2]
  constructor
  · intro h
    exact hcrc (hex16_inj h)
  · intro h
    simp [generateCommandFingerprint, h]

end

end Dice.Ports.ObserveFingerprint
