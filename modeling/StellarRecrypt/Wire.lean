import StellarRecrypt.Keys

/-!
# Wire — capsules, ciphertexts, re-encryption keys and their encodings

The four serialized types of `pre.rs` with their `to_bytes` and `from_bytes`.  The slices and the
offsets are those of the source; reading out of range panics.  The width of `usize` is a parameter.
-/

namespace StellarRecrypt

open ByteString
open EdwardsCurve
open Outcome

variable {Point : Type} [EdwardsCurve Point]

/-! ## Sizes -/

/-- `CAPSULE_SIZE`. -/
def capsuleSize : Nat := 32 + 32 + 32

/-- `len as u32`, written in little-endian order. -/
def lenBytes (len : Nat) : Bytes 4 :=
  toLeBytes 4 (len % 2 ^ 32)

/-- `u32::from_le_bytes(..) as usize`. -/
def readLen (usizeBits : Nat) (bytes : Bytes 4) : Nat :=
  leNat bytes.toList % 2 ^ usizeBits

/-! ## Hash helpers -/

def decompressPoint (bytes : List UInt8) : Outcome Point := do
  let arr ← copyFromSlice 32 bytes
  okOr (decompress arr) .invalidPublicKey

def hashCapsulePoints (D : Primitives Point) (e v : Point) : Scalar :=
  let dig := D.sha512
    (ascii "StellarRecrypt/capsule" ++ (compress e).toList ++ (compress v).toList)
  Scalar.fromBytesModOrderWide dig

/-- `d = H(precursor, pk_B, dh_point)`, and `1` instead of `0`. -/
def hashToD (D : Primitives Point) (precursor bobPk dh : Point) : Scalar :=
  let dig := D.sha512
    (ascii "StellarRecrypt/rekey-d" ++ (compress precursor).toList ++ (compress bobPk).toList ++
      (compress dh).toList)
  let s := Scalar.fromBytesModOrderWide dig
  -- `d` is inverted later, so zero is replaced
  if s = 0 then 1 else s

theorem hashToD_ne_zero (D : Primitives Point) (precursor bobPk dh : Point) :
    hashToD D precursor bobPk dh ≠ 0 := by
  rw [hashToD]
  split
  · exact one_ne_zero
  · assumption

/-! ## Capsules -/

/-- `Capsule`. -/
@[ext] structure Capsule (Point : Type) where
  pointE : Point
  pointV : Point
  signature : Scalar

namespace Capsule

/-- Compressed `E`, compressed `V`, `s`. -/
def toBytes (c : Capsule Point) : Bytes capsuleSize :=
  ⟨(compress c.pointE).toList ++ (compress c.pointV).toList ++ (Scalar.toBytes c.signature).toList,
    by simp [capsuleSize]⟩

def verify (D : Primitives Point) (c : Capsule Point) : Bool :=
  let h := hashCapsulePoints D c.pointE c.pointV
  let lhs := c.signature • (basepoint : Point)
  let rhs := c.pointV + h • c.pointE
  decide (lhs = rhs)

def fromBytes (D : Primitives Point) (bytes : List UInt8) : Outcome (Capsule Point) := do
  if bytes.length ≠ capsuleSize then
    err (.encoding "capsule must be 96 bytes")
  else
    -- points may be the identity or carry a small-order part
    let pointE ← decompressPoint (← Outcome.slice bytes 0 32)
    let pointV ← decompressPoint (← Outcome.slice bytes 32 64)
    let sBytes ← copyFromSlice 32 (← Outcome.slice bytes 64 96)
    let signature ← okOr (Scalar.fromCanonicalBytes sBytes) (.encoding "invalid capsule scalar")
    let capsule : Capsule Point := { pointE := pointE, pointV := pointV, signature := signature }
    if ¬ capsule.verify D then err .capsuleValidationFailed else return capsule

end Capsule

/-! ## Ciphertexts -/

/-- `Ciphertext`. -/
@[ext] structure Ciphertext (Point : Type) where
  capsule : Capsule Point
  payload : List UInt8

namespace Ciphertext

/-- Capsule, payload length, payload. -/
def toBytes (ct : Ciphertext Point) : List UInt8 :=
  ct.capsule.toBytes.toList ++ (lenBytes ct.payload.length).toList ++ ct.payload

def fromBytes (D : Primitives Point) (usizeBits : Nat) (bytes : List UInt8) :
    Outcome (Ciphertext Point) := do
  if bytes.length < capsuleSize + 4 then
    err (.encoding "ciphertext too short")
  else
    -- the capsule is checked before the length field is read
    let capsule ← Capsule.fromBytes D (← Outcome.slice bytes 0 capsuleSize)
    let len := readLen usizeBits
      (← copyFromSlice 4 (← Outcome.slice bytes capsuleSize (capsuleSize + 4)))
    let payloadStart := capsuleSize + 4
    -- an attacker chooses `len`; the sum is made before the comparison
    if bytes.length ≠ (← usizeAdd usizeBits payloadStart len) then
      err (.encoding "ciphertext length mismatch")
    else
      let payload ← Outcome.slice bytes payloadStart bytes.length
      return { capsule := capsule, payload := payload }

end Ciphertext

/-! ## Re-encryption keys -/

/-- `ReencryptionKey`. -/
@[ext] structure ReencryptionKey (Point : Type) where
  rk : Scalar
  precursor : Point
  bobEd25519 : Bytes 32
  alicePrePk : Bytes 32

namespace ReencryptionKey

/-- `rk`, precursor, Alice's PRE key, Bob's account key. -/
def toBytes (k : ReencryptionKey Point) : Bytes 128 :=
  ⟨(Scalar.toBytes k.rk).toList ++ (compress k.precursor).toList ++ k.alicePrePk.toList ++
    k.bobEd25519.toList, by simp⟩

def fromBytes (bytes : List UInt8) : Outcome (ReencryptionKey Point) := do
  if bytes.length ≠ 128 then
    err (.encoding "re-encryption key must be 128 bytes")
  else
    let rkBytes ← copyFromSlice 32 (← Outcome.slice bytes 0 32)
    let rk ← okOr (Scalar.fromCanonicalBytes rkBytes) .invalidReencryptionKey
    if rk = 0 then err .invalidReencryptionKey
    else
      let precursor ← decompressPoint (← Outcome.slice bytes 32 64)
      let alicePrePk ← copyFromSlice 32 (← Outcome.slice bytes 64 96)
      let bobEd25519 ← copyFromSlice 32 (← Outcome.slice bytes 96 128)
      -- both keys are parsed for their checks only
      let _ ← (PrePublicKey.fromBytes alicePrePk : Outcome (PrePublicKey Point))
      let _ ← (StellarPublicKey.fromEd25519Bytes bobEd25519 : Outcome (StellarPublicKey Point))
      return { rk := rk, precursor := precursor, bobEd25519 := bobEd25519,
               alicePrePk := alicePrePk }

def alicePrePublic (k : ReencryptionKey Point) : Outcome (PrePublicKey Point) :=
  PrePublicKey.fromBytes k.alicePrePk

def bobStellarPublic (k : ReencryptionKey Point) : Outcome (StellarPublicKey Point) :=
  StellarPublicKey.fromEd25519Bytes k.bobEd25519

end ReencryptionKey

/-! ## Re-encrypted ciphertexts -/

/-- `ReencryptedCiphertext`. -/
@[ext] structure ReencryptedCiphertext (Point : Type) where
  pointEPrime : Point
  pointVPrime : Point
  precursor : Point
  originalCapsule : Capsule Point
  payload : List UInt8
  alicePrePk : Bytes 32
  bobEd25519 : Bytes 32

namespace ReencryptedCiphertext

/-- `E'`, `V'`, precursor, capsule, both keys, payload length, payload. -/
def toBytes (r : ReencryptedCiphertext Point) : List UInt8 :=
  (compress r.pointEPrime).toList ++ (compress r.pointVPrime).toList ++
    (compress r.precursor).toList ++ r.originalCapsule.toBytes.toList ++ r.alicePrePk.toList ++
    r.bobEd25519.toList ++ (lenBytes r.payload.length).toList ++ r.payload

def fromBytes (D : Primitives Point) (usizeBits : Nat) (bytes : List UInt8) :
    Outcome (ReencryptedCiphertext Point) := do
  let header := 32 + 32 + 32 + capsuleSize + 32 + 32
  if bytes.length < header + 4 then
    err (.encoding "reencrypted ciphertext too short")
  else
    let pointEPrime ← decompressPoint (← Outcome.slice bytes 0 32)
    let pointVPrime ← decompressPoint (← Outcome.slice bytes 32 64)
    let precursor ← decompressPoint (← Outcome.slice bytes 64 96)
    let originalCapsule ← Capsule.fromBytes D (← Outcome.slice bytes 96 (96 + capsuleSize))
    -- the keys are copied and not parsed here
    let alicePrePk ← copyFromSlice 32
      (← Outcome.slice bytes (96 + capsuleSize) (96 + capsuleSize + 32))
    let bobEd25519 ← copyFromSlice 32
      (← Outcome.slice bytes (96 + capsuleSize + 32) (96 + capsuleSize + 64))
    let lenOff := header
    let len := readLen usizeBits
      (← copyFromSlice 4 (← Outcome.slice bytes lenOff (lenOff + 4)))
    if bytes.length ≠ (← usizeAdd usizeBits (lenOff + 4) len) then
      err (.encoding "reencrypted ciphertext length mismatch")
    else
      let payload ← Outcome.slice bytes (lenOff + 4) bytes.length
      return { pointEPrime := pointEPrime, pointVPrime := pointVPrime, precursor := precursor,
               originalCapsule := originalCapsule, payload := payload, alicePrePk := alicePrePk,
               bobEd25519 := bobEd25519 }

end ReencryptedCiphertext

end StellarRecrypt
