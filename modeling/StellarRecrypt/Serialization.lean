import StellarRecrypt.Sample
import StellarRecrypt.WireTheorems

/-!
# Serialization — encoding what the API returns

The decoders validate again what they read.  Everything the API returns passes that validation; what
limits the round trip is the length of the payload, which is written on 32 bits.
-/

namespace StellarRecrypt

open ByteString
open EdwardsCurve
open Outcome

variable {Point : Type} [EdwardsCurve Point] {D : Primitives Point}
variable {R : Type} [RngCore R]

/-! ## What the producers guarantee -/

/-- A ciphertext of `encrypt` verifies, and its payload is 40 bytes longer than its plaintext. -/
theorem encrypt_invariant (hD : LawfulAead D) {rng rng₁ : R} {pk : PrePublicKey Point}
    {m : List UInt8} {ct : Ciphertext Point} (h : encrypt D rng pk m = some (.ok ct, rng₁)) :
    ct.capsule.verify D = true ∧ ct.payload.length = m.length + 40 := by
  rcases encrypt_spec h with ⟨r, u, rng₂, _, _, hcapsule, hseal⟩
  refine ⟨?_, length_seal hD hseal⟩
  rw [hcapsule]
  exact verify_encapsulate r u

/-- A re-encryption key is a nonzero scalar with two valid keys. -/
theorem delegate_invariant (alice : StellarSecretKey D) (bobPk : StellarPublicKey Point)
    (x : Scalar) :
    (delegate alice bobPk x).rk ≠ 0 ∧
      Nonempty (ValidPoint Point (delegate alice bobPk x).alicePrePk) ∧
      Nonempty (ValidPoint Point (delegate alice bobPk x).bobEd25519) := by
  refine ⟨?_, ⟨alice.prePublicKey.valid⟩, ⟨bobPk.valid⟩⟩
  exact mul_ne_zero alice.preSk_ne_zero (inv_ne_zero (hashToD_ne_zero _ _ _ _))

/-! ## Round trips -/

theorem ReencryptionKey.fromBytes_toBytes_delegate (alice : StellarSecretKey D)
    (bobPk : StellarPublicKey Point) (x : Scalar) :
    fromBytes (delegate alice bobPk x).toBytes.toList = .ok (delegate alice bobPk x) :=
  fromBytes_toBytes_iff.2 (delegate_invariant alice bobPk x)

/-- A length that does not fit in a `u32` is announced modulo `2 ^ 32`, and rejected. -/
theorem Ciphertext.fromBytes_toBytes_eq_err {ct : Ciphertext Point}
    (hct : ct.capsule.verify D = true) (hlen : 2 ^ 32 ≤ ct.payload.length) :
    fromBytes D 64 ct.toBytes = err (.encoding "ciphertext length mismatch") := by
  -- the four bytes hold the length modulo `2 ^ 32`, which is another number
  have hmismatch : ct.payload.length ≠ leNat (lenBytes ct.payload.length).toList := by
    intro h
    exact absurd ((eq_leNat_lenBytes_iff _).1 h) (Nat.not_lt.2 hlen)
  rw [toBytes, fromBytes_append (by norm_num), Capsule.fromBytes_toBytes_iff.2 hct, ok_bind,
    if_pos hmismatch]

/-- Everything the API returns survives its encoding exactly when the payload length fits in a
`u32`; the re-encryption key always does. -/
theorem serialization_lossless_iff (hD : LawfulAead D) {rng rng₁ rng₂ rng₃ : R}
    {pk : PrePublicKey Point} {m : List UInt8} {ct : Ciphertext Point} {alice : StellarSecretKey D}
    {bobPk : StellarPublicKey Point} {rekey : ReencryptionKey Point}
    {reenc : ReencryptedCiphertext Point} (hct : encrypt D rng pk m = some (.ok ct, rng₁))
    (hrekey : rekeyGen rng₂ alice bobPk = some (.ok rekey, rng₃))
    (hreenc : reencrypt D rekey ct = .ok reenc) :
    ReencryptionKey.fromBytes rekey.toBytes.toList = .ok rekey ∧
      ((Ciphertext.fromBytes D 64 ct.toBytes = .ok ct ∧
          ReencryptionKey.fromBytes rekey.toBytes.toList = .ok rekey ∧
          ReencryptedCiphertext.fromBytes D 64 reenc.toBytes = .ok reenc) ↔
        m.length + 40 < 2 ^ 32) := by
  rcases encrypt_invariant hD hct with ⟨hverify, hlen⟩
  -- name what the API returned: a drawn scalar decides the key, and the key the ciphertext
  rcases rekeyGen_eq_some_iff.1 hrekey with ⟨x, _, hx⟩
  obtain rfl : rekey = delegate alice bobPk x := Except.ok.inj hx
  rw [reencrypt_of_verify hverify] at hreenc
  obtain rfl : redirect (delegate alice bobPk x) ct = reenc := Except.ok.inj hreenc
  have hkey := ReencryptionKey.fromBytes_toBytes_delegate alice bobPk x
  refine ⟨hkey, ?_⟩
  rw [Ciphertext.fromBytes_toBytes_iff (by norm_num),
    ReencryptedCiphertext.fromBytes_toBytes_iff (by norm_num)]
  -- re-encryption keeps the capsule and the payload
  show (_ ∧ ct.payload.length < 2 ^ 32) ∧ _ ∧
    ct.capsule.verify D = true ∧ ct.payload.length < 2 ^ 32 ↔ _
  rw [hlen]
  constructor
  · rintro ⟨⟨_, h⟩, _⟩
    exact h
  · intro h
    exact ⟨⟨hverify, h⟩, hkey, hverify, h⟩

/-- A one-byte plaintext. -/
theorem serialization_lossless_one_byte :
    ReencryptionKey.fromBytes (delegate Sample.alice Sample.bob.account 1).toBytes.toList =
        .ok (delegate Sample.alice Sample.bob.account 1) ∧
      ((Ciphertext.fromBytes Sample.primitives 64
            (Sample.ciphertext Sample.alice.prePublicKey [7]).toBytes =
          .ok (Sample.ciphertext Sample.alice.prePublicKey [7]) ∧
        ReencryptionKey.fromBytes (delegate Sample.alice Sample.bob.account 1).toBytes.toList =
          .ok (delegate Sample.alice Sample.bob.account 1) ∧
        ReencryptedCiphertext.fromBytes Sample.primitives 64
            (redirect (delegate Sample.alice Sample.bob.account 1)
              (Sample.ciphertext Sample.alice.prePublicKey [7])).toBytes =
          .ok (redirect (delegate Sample.alice Sample.bob.account 1)
            (Sample.ciphertext Sample.alice.prePublicKey [7]))) ↔
        [(7 : UInt8)].length + 40 < 2 ^ 32) :=
  serialization_lossless_iff Sample.lawfulAead
    (Sample.encrypt_rng Sample.alice.prePublicKey (by decide))
    (Sample.rekeyGen_rng Sample.alice Sample.bob.account)
    (reencrypt_of_verify (Sample.verify_ciphertext Sample.alice.prePublicKey [7]))

/-- The ciphertext of `2 ^ 32 - 40` zero bytes is not read back. -/
theorem ciphertext_fromBytes_toBytes_long :
    encrypt Sample.primitives Sample.rng Sample.alice.prePublicKey
          (List.replicate (2 ^ 32 - 40) 0) =
        some (.ok (Sample.ciphertext Sample.alice.prePublicKey
          (List.replicate (2 ^ 32 - 40) 0)), Sample.rng) ∧
      Ciphertext.fromBytes Sample.primitives 64
          (Sample.ciphertext Sample.alice.prePublicKey
            (List.replicate (2 ^ 32 - 40) 0)).toBytes =
        err (.encoding "ciphertext length mismatch") := by
  have hfits : ChaChaPoly.Fits (List.replicate (2 ^ 32 - 40) (0 : UInt8)).length := by
    rw [List.length_replicate]
    decide
  have hct := Sample.encrypt_rng Sample.alice.prePublicKey hfits
  rcases encrypt_invariant Sample.lawfulAead hct with ⟨hverify, hlen⟩
  refine ⟨hct, Ciphertext.fromBytes_toBytes_eq_err hverify ?_⟩
  rw [hlen, List.length_replicate]
  norm_num

end StellarRecrypt
