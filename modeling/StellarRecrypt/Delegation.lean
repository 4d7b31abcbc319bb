import StellarRecrypt.Lib.Reencryption
import StellarRecrypt.Pre

/-!
# Delegation — the honest run

A ciphertext, its owner's key, a re-encryption key for Bob, and Bob: what the two derive.  Scalars
act on the curve through their representatives, so the algebra is that of integers acting on the
whole group; the capsules of the model are capsules of that abstract scheme.  On the prime-order
subgroup integers can be taken modulo `L`, and there the divisions of the protocol are divisions.
-/

namespace StellarRecrypt

open ByteString
open PrimeOrder
open EdwardsCurve
open Outcome

variable {Point : Type} [EdwardsCurve Point] {D : Primitives Point}
variable {R : Type} [RngCore R]

/-! ## The scheme behind the code -/

/-- A scalar acts as its representative. -/
theorem smul_eq_zsmul (s : Scalar) (P : Point) : s • P = (s.val : ℤ) • P := by
  rw [smul_eq_val_nsmul, natCast_zsmul]

/-- A capsule of the abstract scheme, over integers and the whole curve. -/
def Capsule.scheme (c : Capsule Point) : Reencryption.Capsule ℤ Point :=
  { e := c.pointE, v := c.pointV, s := (c.signature.val : ℤ) }

/-- The two points of a re-encrypted ciphertext. -/
def ReencryptedCiphertext.scheme (reenc : ReencryptedCiphertext Point) :
    Reencryption.Reencrypted Point :=
  { e := reenc.pointEPrime, v := reenc.pointVPrime }

/-- The capsule check, `lhs == rhs`. -/
theorem verify_iff {c : Capsule Point} :
    c.verify D = true ↔ c.signature • (basepoint : Point) = c.pointV + c.challenge D • c.pointE :=
  decide_eq_true_iff

theorem verify_iff_valid {c : Capsule Point} :
    c.verify D = true ↔ c.scheme.Valid basepoint ((c.challenge D).val : ℤ) := by
  rw [verify_iff, smul_eq_zsmul, smul_eq_zsmul]
  rfl

theorem ownerShared_eq (alice : StellarSecretKey D) (c : Capsule Point) :
    ownerShared alice c = c.scheme.shared (alice.preSk.val : ℤ) :=
  smul_eq_zsmul _ _

theorem delegateeShared_eq (bob : StellarSecretKey D) (reenc : ReencryptedCiphertext Point) :
    delegateeShared bob reenc = reenc.scheme.shared ((recoveredScalar bob reenc).val : ℤ) :=
  smul_eq_zsmul _ _

theorem consistent_iff {bob : StellarSecretKey D} {reenc : ReencryptedCiphertext Point}
    {pk : PrePublicKey Point} :
    Consistent bob reenc pk ↔ reenc.scheme.Consistent
      ((reenc.originalCapsule.challenge D).val : ℤ)
      ((reenc.originalCapsule.signature * Scalar.invert (recoveredScalar bob reenc)).val : ℤ)
      pk.point := by
  rw [Consistent, smul_eq_zsmul, smul_eq_zsmul]
  rfl

theorem scheme_redirect (rekey : ReencryptionKey Point) (ct : Ciphertext Point) :
    (redirect rekey ct).scheme = ct.capsule.scheme.reencrypt (rekey.rk.val : ℤ) := by
  rw [Reencryption.Capsule.reencrypt, Capsule.scheme, ReencryptedCiphertext.scheme, redirect,
    smul_eq_zsmul, smul_eq_zsmul]

/-! ## Scalars on the base point -/

theorem smul_smul_basepoint (s t : Scalar) :
    s • t • (basepoint : Point) = (s * t) • (basepoint : Point) :=
  (torsionFree_basepoint.mul_scalarMul s t).symm

theorem add_smul_basepoint (s t : Scalar) :
    (s + t) • (basepoint : Point) = s • (basepoint : Point) + t • (basepoint : Point) :=
  torsionFree_basepoint.add_scalarMul s t

/-- A scalar is determined by its multiple of the base point. -/
theorem smul_basepoint_inj {s t : Scalar} :
    s • (basepoint : Point) = t • (basepoint : Point) ↔ s = t := by
  constructor
  · intro h
    rw [smul_eq_val_nsmul, smul_eq_val_nsmul, nsmul_eq_nsmul_iff_modEq, addOrderOf_basepoint] at h
    exact ZMod.val_injective groupOrder
      (Nat.ModEq.eq_of_lt_of_lt h (Scalar.val_lt s) (Scalar.val_lt t))
  · rintro rfl
    rfl

theorem one_smul_point (P : Point) : (1 : Scalar) • P = P :=
  one_scalarMul P

/-- An encapsulation verifies. -/
theorem verify_encapsulate (r u : Scalar) : (encapsulate D r u).verify D = true := by
  rw [verify_iff]
  dsimp only [encapsulate, Capsule.challenge]
  rw [smul_smul_basepoint, ← add_smul_basepoint, mul_comm]

/-- The encryptor's point is the one the owner derives. -/
theorem ownerShared_encapsulate (alice : StellarSecretKey D) (r u : Scalar) :
    ownerShared alice (encapsulate D r u) = (r + u) • alice.prePublicKey.point := by
  rw [ownerShared, StellarSecretKey.point_prePublicKey]
  dsimp only [encapsulate]
  rw [← add_smul_basepoint, smul_smul_basepoint, smul_smul_basepoint, mul_comm]

/-! ## What the delegatee computes -/

/-- Bob's point of two opposite points is the identity. -/
theorem delegateeShared_eq_zero {bob : StellarSecretKey D} {reenc : ReencryptedCiphertext Point}
    (h : reenc.pointEPrime + reenc.pointVPrime = 0) : delegateeShared bob reenc = 0 := by
  rw [delegateeShared, h]
  exact nsmul_zero _

section Honest

variable (alice bob : StellarSecretKey D) (x : Scalar) (ct : Ciphertext Point)

/-- The scalar `d` of a delegation. -/
def delegationScalar (bob : StellarSecretKey D) (x : Scalar) : Scalar :=
  hashToD D (x • basepoint) bob.account.point (x • bob.account.point)

theorem delegationScalar_ne_zero : delegationScalar bob x ≠ 0 :=
  hashToD_ne_zero _ _ _ _

theorem rk_delegate : (delegate alice bob.account x).rk =
    alice.preSk * Scalar.invert (delegationScalar bob x) := rfl

/-- Bob recomputes the scalar Alice divided by. -/
theorem recoveredScalar_eq {bob : StellarSecretKey D} {x : Scalar}
    {reenc : ReencryptedCiphertext Point} (h : reenc.precursor = x • (basepoint : Point)) :
    recoveredScalar bob reenc = delegationScalar bob x := by
  have hdh : bob.signingScalar • x • (basepoint : Point) = x • bob.account.point := by
    rw [StellarSecretKey.point_account, smul_smul_basepoint, smul_smul_basepoint, mul_comm]
  rw [recoveredScalar, delegationScalar, h, hdh]

theorem recoveredScalar_redirect :
    recoveredScalar bob (redirect (delegate alice bob.account x) ct) = delegationScalar bob x :=
  recoveredScalar_eq rfl

/-- Bob's check accepts an honest delegation of any capsule that verifies. -/
theorem consistent_redirect (hct : ct.capsule.verify D = true) :
    Consistent bob (redirect (delegate alice bob.account x) ct) alice.prePublicKey := by
  rw [consistent_iff, scheme_redirect]
  refine Reencryption.consistent_reencrypt (verify_iff_valid.1 hct) ?_
  rw [recoveredScalar_redirect]
  -- both sides are multiples of the base point, by the same scalar
  calc ((ct.capsule.signature * Scalar.invert (delegationScalar bob x)).val : ℤ) •
        alice.prePublicKey.point
      = (ct.capsule.signature * Scalar.invert (delegationScalar bob x)) •
          alice.preSk • (basepoint : Point) := by
        rw [smul_eq_zsmul]
        rfl
    _ = (delegate alice bob.account x).rk • ct.capsule.signature • (basepoint : Point) := by
        rw [smul_smul_basepoint, smul_smul_basepoint, rk_delegate]
        congr 1
        ring
    _ = ((delegate alice bob.account x).rk.val : ℤ) • (ct.capsule.signature.val : ℤ) •
          (basepoint : Point) := by
        rw [smul_eq_zsmul, smul_eq_zsmul ct.capsule.signature]

/-- Bob derives Alice's point exactly when `d·rk` acts as `pre_sk` on `E + V`. -/
theorem delegateeShared_redirect_eq_iff :
    delegateeShared bob (redirect (delegate alice bob.account x) ct) =
        ownerShared alice ct.capsule ↔
      (delegationScalar bob x).val * (delegate alice bob.account x).rk.val ≡ alice.preSk.val
        [MOD addOrderOf (ct.capsule.pointE + ct.capsule.pointV)] := by
  rw [← sub_eq_zero, delegateeShared_eq, ownerShared_eq, scheme_redirect,
    recoveredScalar_redirect, Reencryption.shared_reencrypt_sub_shared,
    ← addOrderOf_dvd_iff_zsmul_eq_zero]
  constructor
  · intro h
    refine (Nat.modEq_iff_dvd.2 ?_).symm
    exact_mod_cast h
  · intro h
    exact_mod_cast Nat.modEq_iff_dvd.1 h.symm

/-- `d·rk` is `pre_sk` modulo `L`. -/
theorem delegationScalar_mul_rk_modEq :
    (delegationScalar bob x).val * (delegate alice bob.account x).rk.val ≡ alice.preSk.val
      [MOD groupOrder] := by
  rw [← ZMod.natCast_eq_natCast_iff]
  push_cast
  rw [ZMod.natCast_zmod_val, ZMod.natCast_zmod_val, ZMod.natCast_zmod_val, rk_delegate,
    Scalar.invert, mul_left_comm, mul_inv_cancel₀ (delegationScalar_ne_zero bob x), mul_one]

/-- On torsion-free points the two always meet. -/
theorem delegateeShared_redirect
    (htorsion : TorsionFree groupOrder (ct.capsule.pointE + ct.capsule.pointV)) :
    delegateeShared bob (redirect (delegate alice bob.account x) ct) =
      ownerShared alice ct.capsule :=
  (delegateeShared_redirect_eq_iff alice bob x ct).2
    ((delegationScalar_mul_rk_modEq alice bob x).of_dvd
      (addOrderOf_dvd_iff_nsmul_eq_zero.2 htorsion))

/-- Decryption of an honest delegation is the AEAD under the key of Bob's point. -/
theorem decryptReencrypted_redirect (hct : ct.capsule.verify D = true) :
    decryptReencrypted bob (redirect (delegate alice bob.account x) ct) =
      openWith D (delegateeShared bob (redirect (delegate alice bob.account x) ct)) ct.capsule
        ct.payload := by
  have hkey : bob.account.ed25519 =
      (redirect (delegate alice bob.account x) ct).bobEd25519 := rfl
  have halice : PrePublicKey.fromBytes (redirect (delegate alice bob.account x) ct).alicePrePk =
      .ok alice.prePublicKey :=
    PrePublicKey.fromBytes_eq_ok_iff.2 rfl
  rw [decryptReencrypted_eq, if_neg (not_not.2 hkey), halice, ok_bind,
    if_neg (not_not.2 (consistent_redirect alice bob x ct hct))]
  rfl

end Honest

/-! ## End to end -/

theorem decrypt_of_verify {alice : StellarSecretKey D} {ct : Ciphertext Point}
    (hct : ct.capsule.verify D = true) :
    decrypt alice ct = openWith D (ownerShared alice ct.capsule) ct.capsule ct.payload := by
  rw [decrypt_eq, if_neg (not_not.2 hct)]

theorem reencrypt_of_verify {rekey : ReencryptionKey Point} {ct : Ciphertext Point}
    (hct : ct.capsule.verify D = true) : reencrypt D rekey ct = .ok (redirect rekey ct) := by
  rw [reencrypt_eq, if_neg (not_not.2 hct)]

/-- What a ciphertext of `encrypt` is: it verifies, its points are torsion free, and its payload
opens under the point of its owner. -/
theorem encrypt_correct (hD : LawfulAead D) {alice : StellarSecretKey D} {rng rng' : R}
    {m : List UInt8} {ct : Ciphertext Point}
    (h : encrypt D rng alice.prePublicKey m = some (.ok ct, rng')) :
    ct.capsule.verify D = true ∧
      TorsionFree groupOrder (ct.capsule.pointE + ct.capsule.pointV) ∧
      openWith D (ownerShared alice ct.capsule) ct.capsule ct.payload = .ok m := by
  rcases encrypt_spec h with ⟨r, u, rng₂, _, _, hcapsule, hseal⟩
  refine ⟨?_, ?_, ?_⟩
  · rw [hcapsule]
    exact verify_encapsulate r u
  · rw [hcapsule]
    exact (torsionFree_smul_basepoint r).add (torsionFree_smul_basepoint u)
  · rw [← ownerShared_encapsulate, ← hcapsule] at hseal
    exact open_seal hD hseal

end StellarRecrypt
