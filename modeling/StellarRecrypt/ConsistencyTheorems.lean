import StellarRecrypt.Sample
import StellarRecrypt.WireTheorems

/-!
# ConsistencyTheorems — what Bob's check says

`decrypt_reencrypted` compares `(s/d)·pk_A` with `h·E' + V'`.  The check is one equation on two
points the proxy chose: it fixes Bob's point up to a multiple of `1 - h`, and it fixes Alice's key
unless the capsule's scalar is zero.
-/

namespace StellarRecrypt

open ByteString
open PrimeOrder
open EdwardsCurve
open Outcome

variable {Point : Type} [EdwardsCurve Point] {D : Primitives Point}

/-- `decrypt_reencrypted` reaches the AEAD: the key is Bob's, Alice's key decodes and
`lhs == rhs`. -/
def PassesCheck (bob : StellarSecretKey D) (reenc : ReencryptedCiphertext Point) : Prop :=
  bob.account.ed25519 = reenc.bobEd25519 ∧
    ∃ pk, PrePublicKey.fromBytes reenc.alicePrePk = .ok pk ∧ Consistent bob reenc pk

theorem decryptReencrypted_of_passesCheck {bob : StellarSecretKey D}
    {reenc : ReencryptedCiphertext Point} (h : PassesCheck bob reenc) :
    decryptReencrypted bob reenc =
      openWith D (delegateeShared bob reenc) reenc.originalCapsule reenc.payload := by
  rcases h with ⟨hbob, pk, hpk, hconsistent⟩
  rw [decryptReencrypted_eq, if_neg (not_not.2 hbob), hpk, ok_bind,
    if_neg (not_not.2 hconsistent)]

/-- Every plaintext comes after the check. -/
theorem passesCheck_of_decryptReencrypted {bob : StellarSecretKey D}
    {reenc : ReencryptedCiphertext Point} {m : List UInt8}
    (h : decryptReencrypted bob reenc = .ok m) : PassesCheck bob reenc := by
  rw [decryptReencrypted_eq] at h
  split at h
  · exact absurd h (err_ne_ok _ _)
  · rename_i hbob
    rcases bind_eq_ok_iff.1 h with ⟨pk, hpk, h⟩
    split at h
    · exact absurd h (err_ne_ok _ _)
    · rename_i hconsistent
      exact ⟨not_not.1 hbob, pk, hpk, not_not.1 hconsistent⟩

/-- A failed comparison is reported as `CapsuleValidationFailed`. -/
theorem decryptReencrypted_of_not_consistent {bob : StellarSecretKey D}
    {reenc : ReencryptedCiphertext Point} {pk : PrePublicKey Point}
    (hbob : bob.account.ed25519 = reenc.bobEd25519)
    (hpk : PrePublicKey.fromBytes reenc.alicePrePk = .ok pk) (h : ¬ Consistent bob reenc pk) :
    decryptReencrypted bob reenc = err .capsuleValidationFailed := by
  rw [decryptReencrypted_eq, if_neg (not_not.2 hbob), hpk, ok_bind, if_pos h]

theorem openWith_ne_capsuleValidationFailed (P : Point) (c : Capsule Point)
    (payload : List UInt8) : openWith D P c payload ≠ err .capsuleValidationFailed := by
  intro h
  rcases open_eq_ok_or (D := D) (kdfFromPoint D P encryptContext) payload c.toBytes.toList with
    ⟨m, hm⟩ | herr
  · exact absurd (h.symm.trans hm) (err_ne_ok _ _)
  · -- opening fails with one error only, and it is another one
    have heq := err_inj.1 (h.symm.trans herr)
    cases heq

/-! ## The shared point -/

/-- How far Bob's point is from Alice's when the check passes. -/
theorem delegateeShared_sub_ownerShared {alice bob : StellarSecretKey D}
    {reenc : ReencryptedCiphertext Point} (hcapsule : reenc.originalCapsule.verify D = true)
    (hconsistent : Consistent bob reenc alice.prePublicKey) :
    delegateeShared bob reenc - ownerShared alice reenc.originalCapsule =
      (1 - ((reenc.originalCapsule.challenge D).val : ℤ)) •
        (recoveredScalar bob reenc • reenc.pointEPrime -
          alice.preSk • reenc.originalCapsule.pointE) := by
  rw [delegateeShared_eq, ownerShared_eq, smul_eq_zsmul (recoveredScalar bob reenc),
    smul_eq_zsmul alice.preSk]
  refine Reencryption.shared_sub_shared_of_consistent (verify_iff_valid.1 hcapsule) ?_
    (consistent_iff.1 hconsistent)
  -- `d·((s/d)·pk_A)` and `pre_sk·(s·B)` are the same multiple of the base point
  have hd : recoveredScalar bob reenc ≠ 0 := hashToD_ne_zero _ _ _ _
  calc ((recoveredScalar bob reenc).val : ℤ) •
        ((reenc.originalCapsule.signature * Scalar.invert (recoveredScalar bob reenc)).val : ℤ) •
          alice.prePublicKey.point
      = recoveredScalar bob reenc •
          (reenc.originalCapsule.signature * Scalar.invert (recoveredScalar bob reenc)) •
            alice.preSk • (basepoint : Point) := by
        rw [smul_eq_zsmul, smul_eq_zsmul (_ * _)]
        rfl
    _ = alice.preSk • reenc.originalCapsule.signature • (basepoint : Point) := by
        rw [smul_smul_basepoint, smul_smul_basepoint, smul_smul_basepoint, Scalar.invert]
        congr 1
        field_simp
    _ = (alice.preSk.val : ℤ) • (reenc.originalCapsule.signature.val : ℤ) •
          (basepoint : Point) := by
        rw [smul_eq_zsmul, smul_eq_zsmul reenc.originalCapsule.signature]

/-- The check pins Bob's point, and with it Alice's decryption, exactly when the part of the proxy's
point that the check leaves free is killed by `1 - h`. -/
theorem consistency_check_sound_iff {alice bob : StellarSecretKey D}
    {reenc : ReencryptedCiphertext Point} {bytes : List UInt8}
    (hcapsule : Capsule.fromBytes D bytes = .ok reenc.originalCapsule)
    (hpk : alice.prePublicKey.bytes = reenc.alicePrePk) :
    ((PassesCheck bob reenc →
          delegateeShared bob reenc = ownerShared alice reenc.originalCapsule) ∧
        ∀ m, decryptReencrypted bob reenc = .ok m →
          decrypt alice { capsule := reenc.originalCapsule, payload := reenc.payload } = .ok m) ↔
      (PassesCheck bob reenc →
        (1 - ((reenc.originalCapsule.challenge D).val : ℤ)) •
          (recoveredScalar bob reenc • reenc.pointEPrime -
            alice.preSk • reenc.originalCapsule.pointE) = 0) := by
  have hverify := Capsule.verify_of_fromBytes hcapsule
  have hconsistent : PassesCheck bob reenc → Consistent bob reenc alice.prePublicKey := by
    rintro ⟨_, pk, hkey, hconsistent⟩
    -- the key in the ciphertext is Alice's, so the check is made against her point
    rw [PrePublicKey.fromBytes_eq_ok_iff.2 hpk] at hkey
    obtain rfl : alice.prePublicKey = pk := Except.ok.inj hkey
    exact hconsistent
  constructor
  · rintro ⟨hshared, _⟩ hcheck
    rw [← delegateeShared_sub_ownerShared hverify (hconsistent hcheck), hshared hcheck, sub_self]
  · intro hresidue
    have hshared : PassesCheck bob reenc →
        delegateeShared bob reenc = ownerShared alice reenc.originalCapsule := by
      intro hcheck
      rw [← sub_eq_zero, delegateeShared_sub_ownerShared hverify (hconsistent hcheck)]
      exact hresidue hcheck
    refine ⟨hshared, fun m hm => ?_⟩
    have hcheck := passesCheck_of_decryptReencrypted hm
    rw [decryptReencrypted_of_passesCheck hcheck, hshared hcheck] at hm
    rw [decrypt_of_verify hverify]
    exact hm

/-- An honest re-encryption. -/
theorem consistency_check_sound_redirected :
    ((PassesCheck Sample.bob Sample.redirected →
          delegateeShared Sample.bob Sample.redirected =
            ownerShared Sample.alice Sample.redirected.originalCapsule) ∧
        ∀ m, decryptReencrypted Sample.bob Sample.redirected = .ok m →
          decrypt Sample.alice { capsule := Sample.redirected.originalCapsule,
                                 payload := Sample.redirected.payload } = .ok m) ↔
      (PassesCheck Sample.bob Sample.redirected →
        (1 - ((Sample.redirected.originalCapsule.challenge Sample.primitives).val : ℤ)) •
          (recoveredScalar Sample.bob Sample.redirected • Sample.redirected.pointEPrime -
            Sample.alice.preSk • Sample.redirected.originalCapsule.pointE) = 0) :=
  consistency_check_sound_iff
    (Capsule.fromBytes_toBytes_iff.2 (Sample.verify_ciphertext Sample.alice.prePublicKey [7])) rfl

/-- The proxy replaces `E'` by the identity and solves the check for `V'`. -/
def tamper (alice bob : StellarSecretKey D) (x : Scalar) (c : Capsule Point)
    (payload : List UInt8) : ReencryptedCiphertext Point :=
  { pointEPrime := 0
    pointVPrime := (c.signature * Scalar.invert (delegationScalar bob x)) •
      alice.prePublicKey.point
    precursor := x • basepoint
    originalCapsule := c
    payload := payload
    alicePrePk := alice.prePublicKey.bytes
    bobEd25519 := bob.account.ed25519 }

section Tamper

variable {alice bob : StellarSecretKey D} {x : Scalar} {c : Capsule Point} {payload : List UInt8}

/-- Bob accepts it, for every capsule. -/
theorem passesCheck_tamper : PassesCheck bob (tamper alice bob x c payload) := by
  refine ⟨rfl, alice.prePublicKey, PrePublicKey.fromBytes_eq_ok_iff.2 rfl, ?_⟩
  have hd : recoveredScalar bob (tamper alice bob x c payload) = delegationScalar bob x :=
    recoveredScalar_eq rfl
  -- the identity contributes nothing, so `V'` alone has to meet `lhs`
  have hE : c.challenge D • (0 : Point) = 0 := nsmul_zero _
  rw [Consistent, hd]
  dsimp only [tamper]
  rw [hE, zero_add]

/-- He derives a point that depends on the scalar of the capsule only. -/
theorem delegateeShared_tamper : delegateeShared bob (tamper alice bob x c payload) =
    (c.signature * alice.preSk) • (basepoint : Point) := by
  have hd : recoveredScalar bob (tamper alice bob x c payload) = delegationScalar bob x :=
    recoveredScalar_eq rfl
  have hne : delegationScalar bob x ≠ 0 := delegationScalar_ne_zero bob x
  rw [delegateeShared, hd]
  dsimp only [tamper]
  rw [zero_add, StellarSecretKey.point_prePublicKey, smul_smul_basepoint, smul_smul_basepoint,
    Scalar.invert]
  congr 1
  field_simp

end Tamper

namespace Sample

/-- `pre_sk·s` for the capsule of both draws `1`. -/
def tamperedNat : Nat :=
  5358532026801685551880633983003182956831595926956066054350681674969415128267

/-- The payload key of the point Alice derives. -/
theorem kdf_owner : kdfFromPoint primitives (ownerNat • (basepoint : Ed25519.Point))
    encryptContext =
    ⟨[90, 110, 225, 29, 33, 48, 201, 180, 189, 167, 69, 53, 219, 70, 235, 108, 72, 10, 197,
      210, 116, 123, 180, 243, 158, 153, 78, 39, 70, 217, 67, 97], rfl⟩ := by
  rw [kdfFromPoint, Ed25519.compress_nsmul_basepoint
    (x := 45958388713231733506645738687588992591318942394606135625192851211678913604696)
    (y := 32780734767212445903964056549503543072269511408542249288533966508563298069086)
    (by norm_num [ownerNat]) (by norm_num [fieldPrime]) (by norm_num [fieldPrime])
    (by decide +kernel)]
  decide +kernel

/-- The payload key of the point Bob derives. -/
theorem kdf_tampered : kdfFromPoint primitives (tamperedNat • (basepoint : Ed25519.Point))
    encryptContext =
    ⟨[151, 196, 195, 19, 36, 102, 106, 127, 221, 69, 194, 35, 249, 144, 15, 60, 53, 39, 151,
      175, 71, 19, 134, 104, 229, 183, 125, 106, 16, 62, 83, 181], rfl⟩ := by
  rw [kdfFromPoint, Ed25519.compress_nsmul_basepoint
    (x := 15259623977030376748408277084727196627804136277690763432474761239849367098685)
    (y := 36094679661661606211444622273482189350338396782660169174665194803073697573282)
    (by norm_num [tamperedNat]) (by norm_num [fieldPrime]) (by norm_num [fieldPrime])
    (by decide +kernel)]
  decide +kernel

/-- The scalar of the capsule of both draws `1`. -/
def signatureNat : Nat :=
  3511345849991542789213986256003248253451781540637832412361398522128283827356

theorem signature_encapsulate :
    (encapsulate primitives 1 1).signature = (signatureNat : Scalar) := by
  show 1 + 1 * hashCapsulePoints primitives ((1 : Scalar) • basepoint) ((1 : Scalar) • basepoint) =
    (signatureNat : Scalar)
  rw [one_smul_point]
  decide +kernel

theorem toBytes_encapsulate : (encapsulate primitives 1 1).toBytes.toList =
    (compress (basepoint : Ed25519.Point)).toList ++
      (compress (basepoint : Ed25519.Point)).toList ++
      (Scalar.toBytes (signatureNat : Scalar)).toList := by
  rw [Capsule.toList_toBytes, signature_encapsulate]
  dsimp only [encapsulate]
  rw [one_smul_point]

/-- Alice's ciphertext, redirected with other points. -/
def tampered : ReencryptedCiphertext Ed25519.Point :=
  tamper alice bob 1 (encapsulate primitives 1 1)
    (payload (kdfFromPoint primitives (tamperedNat • (basepoint : Ed25519.Point)) encryptContext)
      [7] (encapsulate primitives 1 1).toBytes.toList)

theorem delegateeShared_tampered :
    delegateeShared bob tampered = tamperedNat • (basepoint : Ed25519.Point) := by
  have hscalar : (signatureNat : Scalar) * alice.preSk = (tamperedNat : Scalar) := by
    decide +kernel
  rw [tampered, delegateeShared_tamper, signature_encapsulate, hscalar]
  exact torsionFree_basepoint.natCast_scalarMul tamperedNat

end Sample

/-- Bob's check passes, he reads a plaintext, and Alice cannot read the same payload. -/
theorem consistency_check_unsound :
    Capsule.fromBytes Sample.primitives Sample.tampered.originalCapsule.toBytes.toList =
        .ok Sample.tampered.originalCapsule ∧
      Sample.alice.prePublicKey.bytes = Sample.tampered.alicePrePk ∧
      PassesCheck Sample.bob Sample.tampered ∧
      decryptReencrypted Sample.bob Sample.tampered = .ok [7] ∧
      decrypt Sample.alice { capsule := Sample.tampered.originalCapsule,
                             payload := Sample.tampered.payload } = err .decryptionFailed := by
  have hverify : Sample.tampered.originalCapsule.verify Sample.primitives = true :=
    verify_encapsulate 1 1
  have hpass : PassesCheck Sample.bob Sample.tampered := passesCheck_tamper
  have hbob := decryptReencrypted_of_passesCheck hpass
  rw [Sample.delegateeShared_tampered] at hbob
  -- Alice's own path, over the same capsule and payload
  have halice : decrypt Sample.alice { capsule := encapsulate Sample.primitives 1 1,
                                       payload := Sample.tampered.payload } =
      openWith Sample.primitives (ownerShared Sample.alice (encapsulate Sample.primitives 1 1))
        (encapsulate Sample.primitives 1 1) Sample.tampered.payload :=
    decrypt_of_verify (verify_encapsulate 1 1)
  rw [Sample.ownerShared_alice] at halice
  refine ⟨Capsule.fromBytes_toBytes_iff.2 hverify, rfl, hpass, hbob.trans ?_, halice.trans ?_⟩
  · exact Sample.open_payload _ (by decide) _
  · refine Sample.open_payload_eq_err (by decide) ?_
    rw [Sample.kdf_owner, Sample.kdf_tampered, Sample.toBytes_encapsulate]
    decide +kernel

/-! ## Alice's key -/

/-- Replacing Alice's key. -/
def ReencryptedCiphertext.withAlice (reenc : ReencryptedCiphertext Point) (bytes : Bytes 32) :
    ReencryptedCiphertext Point :=
  { reenc with alicePrePk := bytes }

/-- Twice a key is another key. -/
theorem exists_other_key (pk : PrePublicKey Point) :
    ∃ pk' : PrePublicKey Point, pk'.point ≠ pk.point := by
  have hne : pk.point + pk.point ≠ pk.point := fun h =>
    pk.valid.point_ne_zero (left_eq_add.1 h.symm)
  have hzero : 2 • pk.point ≠ 0 := by
    intro h
    have hdvd := addOrderOf_dvd_iff_nsmul_eq_zero.2 h
    have horder : addOrderOf pk.point = groupOrder :=
      pk.valid.torsionFree.addOrderOf pk.valid.point_ne_zero
    rw [horder] at hdvd
    exact absurd (Nat.le_of_dvd Nat.two_pos hdvd) (by norm_num [groupOrder])
  refine ⟨PrePublicKey.ofPoint (2 • pk.point) hzero (pk.valid.torsionFree.nsmul 2), ?_⟩
  rw [← two_nsmul] at hne
  exact hne

/-- The check binds Alice's key exactly when the scalar of the capsule is not zero. -/
theorem attribution_iff {bob : StellarSecretKey D} {reenc : ReencryptedCiphertext Point}
    (hpass : PassesCheck bob reenc) :
    (∀ (pk pk' : PrePublicKey Point) (bytes : Bytes 32),
        PrePublicKey.fromBytes reenc.alicePrePk = .ok pk →
        PrePublicKey.fromBytes bytes = .ok pk' → pk'.point ≠ pk.point →
        decryptReencrypted bob (reenc.withAlice bytes) = err .capsuleValidationFailed) ↔
      reenc.originalCapsule.signature ≠ 0 := by
  rcases hpass with ⟨hbob, pk, hpk, hcheck⟩
  constructor
  · intro hall hzero
    rcases exists_other_key pk with ⟨pk', hne⟩
    -- with a zero scalar both sides of the check are the identity, for every key
    have hlhs : ∀ key : PrePublicKey Point,
        (reenc.originalCapsule.signature * Scalar.invert (recoveredScalar bob reenc)) •
          key.point = 0 := by
      intro key
      rw [hzero, zero_mul]
      exact zero_scalarMul _
    have hconsistent : Consistent bob (reenc.withAlice pk'.bytes) pk' := by
      unfold Consistent at hcheck ⊢
      rw [hlhs] at hcheck
      exact (hlhs pk').trans hcheck
    have hpass : PassesCheck bob (reenc.withAlice pk'.bytes) :=
      ⟨hbob, pk', PrePublicKey.fromBytes_eq_ok_iff.2 rfl, hconsistent⟩
    have hrun := hall pk pk' pk'.bytes hpk (PrePublicKey.fromBytes_eq_ok_iff.2 rfl) hne
    rw [decryptReencrypted_of_passesCheck hpass] at hrun
    exact openWith_ne_capsuleValidationFailed _ _ _ hrun
  · intro hne pk₁ pk' bytes hpk₁ hpk' hpoint
    obtain rfl : pk = pk₁ := Except.ok.inj (hpk.symm.trans hpk₁)
    refine decryptReencrypted_of_not_consistent hbob hpk' ?_
    intro hconsistent
    have hd : recoveredScalar bob reenc ≠ 0 := hashToD_ne_zero _ _ _ _
    have hscalar :
        reenc.originalCapsule.signature * Scalar.invert (recoveredScalar bob reenc) ≠ 0 :=
      mul_ne_zero hne (inv_ne_zero hd)
    -- both keys have the same image under a nonzero scalar
    have himage : (reenc.originalCapsule.signature * Scalar.invert (recoveredScalar bob reenc)) •
        pk'.point = (reenc.originalCapsule.signature *
          Scalar.invert (recoveredScalar bob reenc)) • pk.point :=
      hconsistent.trans hcheck.symm
    exact hpoint ((pk'.valid.torsionFree.scalarMul_right_inj pk.valid.torsionFree hscalar).1 himage)

/-- An honest re-encryption binds Alice's key exactly when its capsule has a nonzero scalar. -/
theorem attribution_redirected :
    (∀ (pk pk' : PrePublicKey Ed25519.Point) (bytes : Bytes 32),
        PrePublicKey.fromBytes Sample.redirected.alicePrePk = .ok pk →
        PrePublicKey.fromBytes bytes = .ok pk' → pk'.point ≠ pk.point →
        decryptReencrypted Sample.bob (Sample.redirected.withAlice bytes) =
          err .capsuleValidationFailed) ↔
      Sample.redirected.originalCapsule.signature ≠ 0 :=
  attribution_iff ⟨rfl, Sample.alice.prePublicKey, PrePublicKey.fromBytes_eq_ok_iff.2 rfl,
    consistent_redirect Sample.alice Sample.bob 1 _
      (Sample.verify_ciphertext Sample.alice.prePublicKey [7])⟩

/-- Identities throughout. -/
def unattributed (bob : StellarSecretKey D) (bytes : Bytes 32) (payload : List UInt8) :
    ReencryptedCiphertext Point :=
  { pointEPrime := 0
    pointVPrime := 0
    precursor := 0
    originalCapsule := Sample.identityCapsule
    payload := payload
    alicePrePk := bytes
    bobEd25519 := bob.account.ed25519 }

/-- Bob accepts them under any key, and derives the identity. -/
theorem passesCheck_unattributed (bob : StellarSecretKey D) (pk : PrePublicKey Point)
    (payload : List UInt8) :
    PassesCheck bob (unattributed bob pk.bytes payload) ∧
      delegateeShared bob (unattributed bob pk.bytes payload) = 0 := by
  refine ⟨⟨rfl, pk, PrePublicKey.fromBytes_eq_ok_iff.2 rfl, ?_⟩,
    delegateeShared_eq_zero (add_zero _)⟩
  rw [Consistent]
  dsimp only [unattributed, Sample.identityCapsule]
  rw [zero_mul, add_zero, smul_eq_val_nsmul, smul_eq_val_nsmul, ZMod.val_zero, zero_nsmul,
    nsmul_zero]

theorem Sample.decryptReencrypted_unattributed (pk : PrePublicKey Ed25519.Point) :
    decryptReencrypted Sample.bob (unattributed Sample.bob pk.bytes Sample.identityPayload) =
      .ok [7] := by
  rcases passesCheck_unattributed Sample.bob pk Sample.identityPayload with ⟨hpass, hshared⟩
  have hrun := decryptReencrypted_of_passesCheck hpass
  rw [hshared] at hrun
  exact hrun.trans (Sample.open_payload _ (by decide) _)

/-- The same re-encryption is accepted under Alice's key and under another one. -/
theorem attribution_fails :
    Capsule.fromBytes Sample.primitives
        (Sample.identityCapsule : Capsule Ed25519.Point).toBytes.toList =
        .ok Sample.identityCapsule ∧
      PassesCheck Sample.bob
        (unattributed Sample.bob Sample.alice.prePublicKey.bytes Sample.identityPayload) ∧
      PrePublicKey.fromBytes Sample.bob.prePublicKey.bytes = .ok Sample.bob.prePublicKey ∧
      Sample.bob.prePublicKey.point ≠ Sample.alice.prePublicKey.point ∧
      decryptReencrypted Sample.bob ((unattributed Sample.bob Sample.alice.prePublicKey.bytes
        Sample.identityPayload).withAlice Sample.bob.prePublicKey.bytes) = .ok [7] := by
  refine ⟨Capsule.fromBytes_toBytes_iff.2 (Sample.verify_identityCapsule Sample.primitives),
    (passesCheck_unattributed Sample.bob Sample.alice.prePublicKey _).1,
    PrePublicKey.fromBytes_eq_ok_iff.2 rfl, ?_,
    Sample.decryptReencrypted_unattributed Sample.bob.prePublicKey⟩
  intro h
  exact Sample.preSk_bob_ne_preSk_alice (smul_basepoint_inj.1 h)

end StellarRecrypt
