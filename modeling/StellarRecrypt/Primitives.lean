import StellarRecrypt.Dalek

/-!
# Primitives — the hash, the KDF, the AEAD and the random source

The remaining dependencies are functions the crate calls and never looks into: SHA-512,
HKDF-SHA256, XChaCha20-Poly1305 and `ed25519-dalek`'s public key.  They are parameters.  Nothing is
assumed of the hash and of the KDF; the public key is the documented multiple of the basepoint;
what is assumed of the AEAD is stated apart, in `LawfulAead`, and only where it is used.
-/

namespace StellarRecrypt

open ByteString EdwardsCurve

/-- The first 32 bytes of a SHA-512 digest. -/
def lowerHalf (digest : Bytes 64) : Bytes 32 :=
  ⟨digest.toList.take 32, by simp⟩

/-- The clamped integer of RFC 8032: bits 0, 1, 2 and 255 cleared, bit 254 set. -/
def clampInteger (n : Nat) : Nat :=
  2 ^ 254 + n % 2 ^ 254 / 8 * 8

/-- The functions the crate takes from its other dependencies. -/
structure Primitives (Point : Type) [EdwardsCurve Point] where
  /-- `Sha512::digest`. -/
  sha512 : List UInt8 → Bytes 64
  /-- `Hkdf::<Sha256>::new(Some(salt), ikm)`, then `expand(info, n bytes)`. -/
  hkdfSha256 : (salt ikm info : List UInt8) → (n : Nat) → Bytes n
  /-- `XChaCha20Poly1305::encrypt`: key, nonce, message, associated data. -/
  aeadEncrypt : Bytes 32 → Bytes 24 → (msg aad : List UInt8) → Option (List UInt8)
  /-- `XChaCha20Poly1305::decrypt`: key, nonce, ciphertext and tag, associated data. -/
  aeadDecrypt : Bytes 32 → Bytes 24 → (msg aad : List UInt8) → Option (List UInt8)
  /-- `SigningKey::from_bytes(seed).verifying_key().to_bytes()`. -/
  verifyingKey : Bytes 32 → Bytes 32
  verifyingKey_eq : ∀ seed : Bytes 32, verifyingKey seed =
    compress (clampInteger (leNat (lowerHalf (sha512 seed.toList)).toList) • (basepoint : Point))

/-- The documented behaviour of the AEAD: decryption under the same key, nonce and associated data
inverts encryption, and a ciphertext is the length of its message and a 16-byte tag. -/
structure LawfulAead {Point : Type} [EdwardsCurve Point] (D : Primitives Point) : Prop where
  decrypt_encrypt : ∀ {key nonce msg aad ct},
    D.aeadEncrypt key nonce msg aad = some ct → D.aeadDecrypt key nonce ct aad = some msg
  length_encrypt : ∀ {key nonce msg aad ct},
    D.aeadEncrypt key nonce msg aad = some ct → ct.length = msg.length + 16

/-- `RngCore`: a source of bytes with its own state. -/
class RngCore (R : Type) where
  fillBytes : (n : Nat) → R → Bytes n × R

end StellarRecrypt
