import StellarRecrypt.ConsistencyTheorems
import StellarRecrypt.WireTheorems

/-!
# ExclusivityTheorems — at most one recipient

Two secrets with different PRE scalars derive different points from a capsule, unless the capsule's
`E + V` has small order.  Different points mean different payload keys as far as the key derivation
does not collide on them, and a payload that is bound to its key opens under one of them only.  Both
conditions are on the two points and the ciphertext at hand: no AEAD with a short tag binds every
payload.
-/

namespace StellarRecrypt

open ByteString
open PrimeOrder
open EdwardsCurve
open Outcome

variable {Point : Type} [EdwardsCurve Point] {D : Primitives Point}
variable {R : Type} [RngCore R]

/-- The payload key of a shared point. -/
def payloadKey (D : Primitives Point) (P : Point) : Bytes keyLen :=
  kdfFromPoint D P encryptContext

/-- The key derivation does not collide on the two points. -/
def CollisionFreeKdf (D : Primitives Point) (P Q : Point) : Prop :=
  payloadKey D P = payloadKey D Q → P = Q

/-- What the AEAD opens of the payload, it opens under one of the two keys only. -/
def KeyCommitting (D : Primitives Point) (key key' : Bytes keyLen) (sealed aad : List UInt8) :
    Prop :=
  ∀ {nonce : Bytes nonceLen} {ct m m' : List UInt8}, sealed = nonce.toList ++ ct →
    D.aeadDecrypt key nonce ct aad = some m → D.aeadDecrypt key' nonce ct aad = some m' → key = key'

/-- Two secrets derive different points, and so do not both decrypt. -/
def Exclusive (alice eve : StellarSecretKey D) (ct : Ciphertext Point) : Prop :=
  ownerShared alice ct.capsule ≠ ownerShared eve ct.capsule ∧
    (CollisionFreeKdf D (ownerShared alice ct.capsule) (ownerShared eve ct.capsule) →
      KeyCommitting D (payloadKey D (ownerShared alice ct.capsule))
          (payloadKey D (ownerShared eve ct.capsule)) ct.payload ct.capsule.toBytes.toList →
        ¬ ∃ m m', decrypt alice ct = .ok m ∧ decrypt eve ct = .ok m')

/-- The points on which two scalars act alike. -/
def SmallOrderCollision (s t : Scalar) (P : Point) : Prop :=
  8 • P = 0 ∧ s.val ≡ t.val [MOD addOrderOf P]

theorem smul_eq_smul_iff (s t : Scalar) (P : Point) :
    s • P = t • P ↔ s = t ∨ SmallOrderCollision s t P :=
  scalarMul_eq_scalarMul_iff (nsmul_card P) s t

/-- A payload that opens under two keys opened under one. -/
theorem key_eq_of_open {key key' : Bytes keyLen} {sealed aad m m' : List UInt8}
    (hcommit : KeyCommitting D key key' sealed aad) (h : Dem.open D key sealed aad = .ok m)
    (h' : Dem.open D key' sealed aad = .ok m') : key = key' := by
  rcases open_cases (D := D) key sealed aad with herr | ⟨nonce, ct, rfl, hopen⟩
  · exact absurd (herr.symm.trans h) (err_ne_ok _ _)
  rcases open_cases (D := D) key' (nonce.toList ++ ct) aad with herr | ⟨nonce', ct', hcut, hopen'⟩
  · exact absurd (herr.symm.trans h') (err_ne_ok _ _)
  -- both runs cut the payload at the same place
  rcases block_append_inj.1 hcut with ⟨rfl, rfl⟩
  rw [hopen, okOr_eq_ok_iff] at h
  rw [hopen', okOr_eq_ok_iff] at h'
  exact hcommit rfl h h'

/-- Two secrets that both decrypt derived one key. -/
theorem payloadKey_eq_of_decrypt {alice eve : StellarSecretKey D} {ct : Ciphertext Point}
    {m m' : List UInt8}
    (hcommit : KeyCommitting D (payloadKey D (ownerShared alice ct.capsule))
      (payloadKey D (ownerShared eve ct.capsule)) ct.payload ct.capsule.toBytes.toList)
    (h : decrypt alice ct = .ok m) (h' : decrypt eve ct = .ok m') :
    payloadKey D (ownerShared alice ct.capsule) = payloadKey D (ownerShared eve ct.capsule) := by
  have hverify : ct.capsule.verify D = true := by
    by_contra hnot
    rw [decrypt_eq, if_pos hnot] at h
    exact absurd h (err_ne_ok _ _)
  rw [decrypt_of_verify hverify] at h h'
  exact key_eq_of_open hcommit h h'

/-- Decryption is exclusive exactly where `E + V` does not have a small order on which the two PRE
scalars agree. -/
theorem exclusive_iff {alice eve : StellarSecretKey D} (hne : alice.preSk ≠ eve.preSk)
    (ct : Ciphertext Point) :
    Exclusive alice eve ct ↔
      ¬ SmallOrderCollision alice.preSk eve.preSk (ct.capsule.pointE + ct.capsule.pointV) := by
  have hpoints : ownerShared alice ct.capsule = ownerShared eve ct.capsule ↔
      SmallOrderCollision alice.preSk eve.preSk (ct.capsule.pointE + ct.capsule.pointV) := by
    rw [ownerShared, ownerShared, smul_eq_smul_iff, or_iff_right hne]
  constructor
  · rintro ⟨hdifferent, _⟩ hcollision
    exact hdifferent (hpoints.2 hcollision)
  · intro hnot
    have hdifferent : ownerShared alice ct.capsule ≠ ownerShared eve ct.capsule :=
      fun heq => hnot (hpoints.1 heq)
    -- were both to decrypt, their points would be equal after all
    refine ⟨hdifferent, ?_⟩
    rintro hkdf hcommit ⟨m, m', h, h'⟩
    exact hdifferent (hkdf (payloadKey_eq_of_decrypt hcommit h h'))

/-- On a ciphertext of `encrypt` only the identity has a small order. -/
theorem smallOrderCollision_encrypt_iff {rng rng₁ : R} {pk : PrePublicKey Point} {m : List UInt8}
    {ct : Ciphertext Point} (hct : encrypt D rng pk m = some (.ok ct, rng₁)) (s t : Scalar) :
    SmallOrderCollision s t (ct.capsule.pointE + ct.capsule.pointV) ↔
      ct.capsule.pointE + ct.capsule.pointV = 0 := by
  rcases encrypt_spec hct with ⟨r, u, _, _, _, hcapsule, _⟩
  -- both points are multiples of the base point, so their sum has no torsion
  have htorsion : TorsionFree groupOrder (ct.capsule.pointE + ct.capsule.pointV) := by
    rw [hcapsule]
    exact (torsionFree_smul_basepoint r).add (torsionFree_smul_basepoint u)
  constructor
  · rintro ⟨hsmall, _⟩
    exact htorsion.eq_zero_of_cofactor coprime_cofactor hsmall
  · intro hzero
    rw [hzero, SmallOrderCollision, addOrderOf_zero]
    exact ⟨nsmul_zero _, Nat.modEq_one⟩

namespace Sample

/-- The key Bob would open Alice's payload with. -/
theorem payloadKey_bob : payloadKey primitives (ownerShared bob (encapsulate primitives 1 1)) =
    ⟨[165, 43, 22, 26, 192, 88, 94, 66, 8, 254, 75, 32, 56, 9, 142, 181, 32, 255, 223, 242,
      55, 180, 2, 109, 231, 67, 97, 184, 96, 72, 187, 176], rfl⟩ := by
  rw [ownerShared_bob, payloadKey, kdfFromPoint, Ed25519.compress_nsmul_basepoint
    (x := 22639977619515446356578230120619366937270895243262517536664664770135787445121)
    (y := 37141794911657454048418719225874220089875448257872399758857809137149216043082)
    (by norm_num [bobNat]) (by norm_num [fieldPrime]) (by norm_num [fieldPrime])
    (by decide +kernel)]
  decide +kernel

theorem payloadKey_alice : payloadKey primitives (ownerShared alice (encapsulate primitives 1 1)) =
    ⟨[90, 110, 225, 29, 33, 48, 201, 180, 189, 167, 69, 53, 219, 70, 235, 108, 72, 10, 197,
      210, 116, 123, 180, 243, 158, 153, 78, 39, 70, 217, 67, 97], rfl⟩ := by
  rw [ownerShared_alice, payloadKey, kdf_owner]

theorem collisionFreeKdf_ciphertext : CollisionFreeKdf primitives
    (ownerShared bob (encapsulate primitives 1 1))
    (ownerShared alice (encapsulate primitives 1 1)) := by
  intro hkeys
  rw [payloadKey_bob, payloadKey_alice] at hkeys
  exact absurd hkeys (by decide)

/-- The tag of Alice's payload does not match under Bob's key. -/
theorem aeadDecrypt_bob :
    primitives.aeadDecrypt (payloadKey primitives (ownerShared bob (encapsulate primitives 1 1)))
      nonce ((primitives.aeadEncrypt
        (payloadKey primitives (ownerShared alice (encapsulate primitives 1 1))) nonce [7]
        (encapsulate primitives 1 1).toBytes.toList).getD [])
      (encapsulate primitives 1 1).toBytes.toList = none := by
  rw [payloadKey_bob, payloadKey_alice, toBytes_encapsulate]
  decide +kernel

theorem keyCommitting_ciphertext : KeyCommitting primitives
    (payloadKey primitives (ownerShared bob (encapsulate primitives 1 1)))
    (payloadKey primitives (ownerShared alice (encapsulate primitives 1 1)))
    (ciphertext alice.prePublicKey [7]).payload (encapsulate primitives 1 1).toBytes.toList := by
  intro nonce' ct m m' hcut hbob _
  have hpayload : (ciphertext alice.prePublicKey [7]).payload =
      payload (payloadKey primitives (ownerShared alice (encapsulate primitives 1 1))) [7]
        (encapsulate primitives 1 1).toBytes.toList := by
    rw [ownerShared_encapsulate]
    rfl
  rw [hpayload, payload] at hcut
  rcases block_append_inj.1 hcut with ⟨rfl, rfl⟩
  rw [aeadDecrypt_bob] at hbob
  cases hbob

end Sample

/-- Bob does not decrypt what Alice decrypts, an honest ciphertext of one byte. -/
theorem exclusive_one_byte :
    ownerShared Sample.bob (Sample.ciphertext Sample.alice.prePublicKey [7]).capsule ≠
        ownerShared Sample.alice (Sample.ciphertext Sample.alice.prePublicKey [7]).capsule ∧
      ¬ ∃ m m', decrypt Sample.bob (Sample.ciphertext Sample.alice.prePublicKey [7]) = .ok m ∧
        decrypt Sample.alice (Sample.ciphertext Sample.alice.prePublicKey [7]) = .ok m' := by
  have hcollision : ¬ SmallOrderCollision Sample.bob.preSk Sample.alice.preSk
      ((Sample.ciphertext Sample.alice.prePublicKey [7]).capsule.pointE +
        (Sample.ciphertext Sample.alice.prePublicKey [7]).capsule.pointV) := by
    rw [smallOrderCollision_encrypt_iff (Sample.encrypt_rng Sample.alice.prePublicKey (by decide))]
    intro hzero
    have htwo : ((1 : Scalar) + 1) • (basepoint : Ed25519.Point) = 0 :=
      (add_smul_basepoint 1 1).trans hzero
    have hdvd : groupOrder ∣ 2 := by
      rw [← ZMod.natCast_eq_zero_iff]
      exact_mod_cast smul_basepoint_eq_zero_iff.1 htwo
    exact absurd (Nat.le_of_dvd Nat.two_pos hdvd) (by norm_num [groupOrder])
  rcases (exclusive_iff Sample.preSk_bob_ne_preSk_alice _).2 hcollision with ⟨hpoints, hopens⟩
  exact ⟨hpoints, hopens Sample.collisionFreeKdf_ciphertext Sample.keyCommitting_ciphertext⟩

namespace Sample

/-- A payload for the identity, on the capsule of identities. -/
def identityCiphertext : Ciphertext Ed25519.Point :=
  { capsule := identityCapsule, payload := identityPayload }

theorem fromBytes_identityCiphertext :
    Ciphertext.fromBytes primitives 64 identityCiphertext.toBytes = .ok identityCiphertext := by
  refine (Ciphertext.fromBytes_toBytes_iff (by norm_num)).2
    ⟨verify_identityCapsule primitives, ?_⟩
  show (payload _ [7] _).length < 2 ^ 32
  rw [length_payload _ (by decide)]
  norm_num

theorem ownerShared_identityCapsule (sk : StellarSecretKey primitives) :
    ownerShared sk identityCapsule = 0 := by
  have hsum : (0 : Ed25519.Point) + 0 = 0 := add_zero 0
  exact (congrArg (sk.preSk • ·) hsum).trans (nsmul_zero _)

/-- Every secret decrypts it. -/
theorem decrypt_identityCiphertext (sk : StellarSecretKey primitives) :
    decrypt sk identityCiphertext = .ok [7] := by
  have hrun : decrypt sk identityCiphertext =
      openWith primitives (ownerShared sk identityCapsule) identityCapsule identityPayload :=
    decrypt_of_verify (verify_identityCapsule primitives)
  rw [ownerShared_identityCapsule] at hrun
  exact hrun.trans (open_payload _ (by decide) _)

end Sample

/-- An accepted ciphertext that both Alice and Bob decrypt with their own PRE scalars. -/
theorem exclusive_fails :
    Ciphertext.fromBytes Sample.primitives 64 Sample.identityCiphertext.toBytes =
        .ok Sample.identityCiphertext ∧
      Sample.bob.preSk ≠ Sample.alice.preSk ∧
      ownerShared Sample.alice Sample.identityCiphertext.capsule = 0 ∧
      ownerShared Sample.bob Sample.identityCiphertext.capsule = 0 ∧
      decrypt Sample.alice Sample.identityCiphertext = .ok [7] ∧
      decrypt Sample.bob Sample.identityCiphertext = .ok [7] :=
  ⟨Sample.fromBytes_identityCiphertext, Sample.preSk_bob_ne_preSk_alice,
    Sample.ownerShared_identityCapsule _, Sample.ownerShared_identityCapsule _,
    Sample.decrypt_identityCiphertext _, Sample.decrypt_identityCiphertext _⟩

end StellarRecrypt
