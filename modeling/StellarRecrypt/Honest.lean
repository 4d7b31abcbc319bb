import StellarRecrypt.Delegation
import StellarRecrypt.KeyTheorems
import StellarRecrypt.StrkeyTheorems

/-!
# Honest — which values an honest party could have made

The validations of the crate are tests on bytes and points; this module says which scalars stand
behind what they accept.  A valid key is the public point of exactly one nonzero scalar, a key pair
that passes its checks is the one its secret makes, a pair of points is completed to a capsule by at
most one scalar, and what `decrypt` accepts on points of the prime-order subgroup is what `encrypt`
returns for some random bytes.
-/

namespace StellarRecrypt

open ByteString
open PrimeOrder
open EdwardsCurve
open Outcome
open RngCore

variable {Point : Type} [EdwardsCurve Point] {D : Primitives Point}

/-! ## Scalars behind points -/

theorem finite_point : Finite Point := by
  refine Nat.finite_of_card_ne_zero ?_
  rw [card_point]
  norm_num [groupOrder]

/-- A point of the prime-order subgroup is the multiple of the basepoint by one scalar. -/
theorem exists_smul_basepoint {P : Point} (hP : TorsionFree groupOrder P) :
    ∃ s : Scalar, s • (basepoint : Point) = P := by
  have : Finite Point := finite_point
  refine torsionFree_basepoint.exists_scalarMul ?_ basepoint_ne_zero hP
  rw [card_point]
  norm_num [groupOrder]

theorem torsionFree_iff {P : Point} :
    TorsionFree groupOrder P ↔ ∃ s : Scalar, s • (basepoint : Point) = P := by
  constructor
  · exact exists_smul_basepoint
  · rintro ⟨s, rfl⟩
    exact torsionFree_smul_basepoint s

/-- A valid key block is the encoding of the public point of one nonzero scalar. -/
theorem nonempty_validPoint_iff_scalar {bytes : Bytes 32} :
    Nonempty (ValidPoint Point bytes) ↔
      ∃! s : Scalar, s ≠ 0 ∧ decompress bytes = some (s • (basepoint : Point)) := by
  constructor
  · rintro ⟨valid⟩
    rcases exists_smul_basepoint valid.torsionFree with ⟨s, hs⟩
    refine ⟨s, ⟨?_, by rw [hs, valid.decompress_eq]⟩, ?_⟩
    · rintro rfl
      exact valid.point_ne_zero (hs.symm.trans (zero_scalarMul _))
    · rintro t ⟨_, ht⟩
      rw [valid.decompress_eq, ← hs, Option.some_inj] at ht
      exact (smul_basepoint_inj.1 ht).symm
  · rintro ⟨s, ⟨hne, hs⟩, _⟩
    exact ⟨{ point := s • basepoint
             decompress_eq := hs
             point_ne_zero := fun h => hne (smul_basepoint_eq_zero_iff.1 h)
             torsionFree := torsionFree_smul_basepoint s }⟩

/-- Both kinds of public key accept exactly the encodings of public points of nonzero scalars, and
the scalar is determined. -/
theorem key_validation_iff (bytes : Bytes 32) :
    ((∃ k : PrePublicKey Point, PrePublicKey.fromBytes bytes = .ok k) ↔
        ∃! s : Scalar, s ≠ 0 ∧ decompress bytes = some (s • (basepoint : Point))) ∧
      ((∃ k : StellarPublicKey Point, StellarPublicKey.fromEd25519Bytes bytes = .ok k) ↔
        ∃! s : Scalar, s ≠ 0 ∧ decompress bytes = some (s • (basepoint : Point))) := by
  rw [PrePublicKey.exists_fromBytes_iff, StellarPublicKey.exists_fromEd25519Bytes_iff]
  exact ⟨nonempty_validPoint_iff_scalar, nonempty_validPoint_iff_scalar⟩

/-! ## Secrets behind key pairs -/

theorem StellarKeyPair.validatePreConsistency_iff {kp : StellarKeyPair D} :
    kp.validatePreConsistency = true ↔ kp.prePublic = kp.secret.prePublicKey := by
  rw [validatePreConsistency, beq_iff_eq]
  constructor
  · intro h
    exact PrePublicKey.eq_of_bytes h.symm
  · intro h
    rw [h]
    rfl

theorem StellarKeyPair.validateStellarConsistency_iff {kp : StellarKeyPair D} :
    kp.validateStellarConsistency = true ↔ kp.stellarPublic = kp.secret.account := by
  rw [validateStellarConsistency, beq_iff_eq]
  constructor
  · intro h
    exact StellarPublicKey.eq_of_ed25519 h.symm
  · intro h
    rw [h]
    rfl

theorem StellarKeyPair.fromSecret_eq_ok_iff {sk : StellarSecretKey D} {kp : StellarKeyPair D} :
    fromSecret sk = .ok kp ↔
      kp.secret = sk ∧ kp.stellarPublic = sk.account ∧ kp.prePublic = sk.prePublicKey := by
  rcases exists_fromSecret sk with ⟨made, hmade, hsecret, hstellar, hpre, _⟩
  rw [hmade, Except.ok.injEq]
  constructor
  · rintro rfl
    exact ⟨hsecret, hstellar, hpre⟩
  · rcases kp with ⟨secret, stellarPublic, prePublic⟩
    rcases made with ⟨secret', stellarPublic', prePublic'⟩
    rintro ⟨hsecret', hstellar', hpre'⟩
    dsimp only at *
    rw [hsecret', hstellar', hpre', hsecret, hstellar, hpre]

/-- The fields of a key pair are public.  A pair passes both consistency checks exactly when it is
what its own strkey restores, with some info. -/
theorem key_pair_checks_iff (kp : StellarKeyPair D) :
    (kp.validatePreConsistency = true ∧ kp.validateStellarConsistency = true) ↔
      ∃ info, StellarKeyPair.fromSecretStrkey D kp.secret.toStrkey info = .ok kp := by
  have hread : ∀ info, StellarSecretKey.fromStrkey D kp.secret.toStrkey info =
      StellarSecretKey.fromSeed D kp.secret.seed info := by
    intro info
    rw [StellarSecretKey.fromStrkey, StellarSecretKey.toStrkey, decodeSeed_encodeSeed, ok_bind]
  rw [StellarKeyPair.validatePreConsistency_iff, StellarKeyPair.validateStellarConsistency_iff]
  constructor
  · rintro ⟨hpre, hstellar⟩
    rcases kp.secret.exists_fromSeed with ⟨info, hinfo⟩
    refine ⟨info, ?_⟩
    rw [StellarKeyPair.fromSecretStrkey, hread, hinfo, ok_bind]
    exact StellarKeyPair.fromSecret_eq_ok_iff.2 ⟨rfl, hstellar, hpre⟩
  · rintro ⟨info, h⟩
    rw [StellarKeyPair.fromSecretStrkey, hread] at h
    rcases bind_eq_ok_iff.1 h with ⟨sk, _, hkp⟩
    rcases StellarKeyPair.fromSecret_eq_ok_iff.1 hkp with ⟨rfl, hstellar, hpre⟩
    exact ⟨hpre, hstellar⟩

/-! ## Scalars behind capsules -/

/-- The points of a capsule determine its scalar. -/
theorem eq_of_verify {c c' : Capsule Point} (hc : c.verify D = true) (hc' : c'.verify D = true)
    (hE : c.pointE = c'.pointE) (hV : c.pointV = c'.pointV) : c = c' := by
  rw [verify_iff] at hc hc'
  have hpoints : c.signature • (basepoint : Point) = c'.signature • (basepoint : Point) := by
    rw [hc, hc', Capsule.challenge, Capsule.challenge, hE, hV]
  exact Capsule.ext hE hV (smul_basepoint_inj.1 hpoints)

/-- Two points are completed to a capsule by exactly one scalar when `V + h·E` is torsion free, and
by none otherwise. -/
theorem capsule_signature_iff (D : Primitives Point) (E V : Point) :
    ((∃ s : Scalar, Capsule.verify D { pointE := E, pointV := V, signature := s } = true) ↔
        TorsionFree groupOrder (V + hashCapsulePoints D E V • E)) ∧
      ∀ s t : Scalar, Capsule.verify D { pointE := E, pointV := V, signature := s } = true →
        Capsule.verify D { pointE := E, pointV := V, signature := t } = true → s = t := by
  constructor
  · rw [torsionFree_iff]
    exact exists_congr fun s => verify_iff
  · intro s t hs ht
    exact congrArg Capsule.signature (eq_of_verify hs ht rfl rfl)

/-- A capsule on two points of the prime-order subgroup is the encapsulation of their scalars. -/
theorem eq_encapsulate {c : Capsule Point} (hc : c.verify D = true) {r u : Scalar}
    (hr : r • (basepoint : Point) = c.pointE) (hu : u • (basepoint : Point) = c.pointV) :
    c = encapsulate D r u :=
  -- the encapsulation verifies on the same points
  eq_of_verify hc (verify_encapsulate r u) hr.symm hu.symm

/-! ## Random bytes behind ciphertexts -/

/-- A random source that reads a tape, and zeros after its end. -/
structure TapeRng where
  tape : List UInt8

instance : RngCore TapeRng where
  fillBytes n rng :=
    (⟨(rng.tape ++ List.replicate n 0).take n, by simp⟩, ⟨rng.tape.drop n⟩)

namespace TapeRng

theorem fillBytes_append {n : Nat} (b : Bytes n) (rest : List UInt8) :
    RngCore.fillBytes n (TapeRng.mk (b.toList ++ rest)) = (b, ⟨rest⟩) := by
  refine Prod.ext (Bytes.ext ?_) ?_
  · show (b.toList ++ rest ++ List.replicate n 0).take n = b.toList
    rw [List.append_assoc, List.take_append_of_le_length b.length_eq.ge,
      List.take_of_length_le b.length_eq.le]
  · show TapeRng.mk ((b.toList ++ rest).drop n) = ⟨rest⟩
    rw [List.drop_append_of_le_length b.length_eq.ge, List.drop_eq_nil_of_le b.length_eq.le,
      List.nil_append]

/-- The 64 bytes the drawing loop turns into a scalar. -/
def scalarBytes (s : Scalar) : Bytes 64 :=
  toLeBytes 64 s.val

theorem fromBytesModOrderWide_scalarBytes (s : Scalar) :
    Scalar.fromBytesModOrderWide (scalarBytes s) = s := by
  have hlt : s.val < 256 ^ 64 := lt_trans (Scalar.val_lt s) (by norm_num [groupOrder])
  rw [Scalar.fromBytesModOrderWide, scalarBytes, leNat_toLeBytes_of_lt hlt, ZMod.natCast_zmod_val]

theorem randomNonzeroScalar_append {s : Scalar} (hs : s ≠ 0) (rest : List UInt8) :
    randomNonzeroScalar (TapeRng.mk ((scalarBytes s).toList ++ rest)) = some (s, ⟨rest⟩) := by
  rw [randomNonzeroScalar, fillBytes_append]
  dsimp only
  rw [fromBytesModOrderWide_scalarBytes, if_pos hs]

end TapeRng

/-- The AEAD has one ciphertext for each message: what decrypts is what sealing the plaintext
again returns, as for any stream cipher with a tag. -/
def TidyAead (D : Primitives Point) : Prop :=
  ∀ {key nonce ct aad m}, D.aeadDecrypt key nonce ct aad = some m →
    D.aeadEncrypt key nonce m aad = some ct

/-- A payload opens to a message exactly when sealing the message with some nonce returns it. -/
theorem open_eq_ok_iff (hD : LawfulAead D) (htidy : TidyAead D) {key : Bytes keyLen}
    {sealed m aad : List UInt8} :
    Dem.open D key sealed aad = .ok m ↔
      ∃ nonce : Bytes nonceLen, ∀ rest : List UInt8,
        Dem.seal D (TapeRng.mk (nonce.toList ++ rest)) key m aad = (.ok sealed, ⟨rest⟩) := by
  constructor
  · intro h
    rcases open_cases (D := D) key sealed aad with herr | ⟨nonce, ct, rfl, hopen⟩
    · rw [herr] at h
      exact absurd h (err_ne_ok _ _)
    · rw [hopen, okOr_eq_ok_iff] at h
      refine ⟨nonce, fun rest => ?_⟩
      rw [Dem.seal, TapeRng.fillBytes_append]
      dsimp only
      rw [htidy h]
  · rintro ⟨nonce, hseal⟩
    exact open_seal hD (congrArg Prod.fst (hseal []))

/-- `decrypt` returns a message on a ciphertext whose two points are nonzero and torsion free
exactly when the ciphertext is what `encrypt` returns for the message and some random bytes. -/
theorem encrypt_image_iff (hD : LawfulAead D) (htidy : TidyAead D) {alice : StellarSecretKey D}
    {ct : Ciphertext Point} {m : List UInt8} :
    (∃ (R : Type) (_ : RngCore R) (rng rng' : R),
        encrypt D rng alice.prePublicKey m = some (.ok ct, rng')) ↔
      decrypt alice ct = .ok m ∧
        (ct.capsule.pointE ≠ 0 ∧ TorsionFree groupOrder ct.capsule.pointE) ∧
        (ct.capsule.pointV ≠ 0 ∧ TorsionFree groupOrder ct.capsule.pointV) := by
  constructor
  · rintro ⟨R, source, rng, rng', h⟩
    rcases encrypt_correct hD h with ⟨hverify, _, hopen⟩
    rcases encrypt_spec h with ⟨r, u, _, hr, hu, hcapsule, _⟩
    refine ⟨by rw [decrypt_of_verify hverify, hopen], ?_, ?_⟩
    · rw [hcapsule]
      exact ⟨fun h0 => hr (smul_basepoint_eq_zero_iff.1 h0), torsionFree_smul_basepoint r⟩
    · rw [hcapsule]
      exact ⟨fun h0 => hu (smul_basepoint_eq_zero_iff.1 h0), torsionFree_smul_basepoint u⟩
  · rintro ⟨hdecrypt, ⟨hE0, hE⟩, hV0, hV⟩
    have hverify : ct.capsule.verify D = true := by
      by_contra hnot
      rw [decrypt_eq, if_pos hnot] at hdecrypt
      exact err_ne_ok _ _ hdecrypt
    rcases exists_smul_basepoint hE with ⟨r, hr⟩
    rcases exists_smul_basepoint hV with ⟨u, hu⟩
    have hr0 : r ≠ 0 := fun h => hE0 (hr.symm.trans (smul_basepoint_eq_zero_iff.2 h))
    have hu0 : u ≠ 0 := fun h => hV0 (hu.symm.trans (smul_basepoint_eq_zero_iff.2 h))
    have hcapsule := eq_encapsulate hverify hr hu
    rw [decrypt_of_verify hverify, hcapsule, ownerShared_encapsulate] at hdecrypt
    rcases (open_eq_ok_iff hD htidy).1 hdecrypt with ⟨nonce, hseal⟩
    -- the tape holds both scalars and the nonce
    refine ⟨TapeRng, inferInstance, ⟨(TapeRng.scalarBytes r).toList ++
      ((TapeRng.scalarBytes u).toList ++ (nonce.toList ++ []))⟩, ⟨[]⟩, ?_⟩
    simp only [encrypt_eq, TapeRng.randomNonzeroScalar_append hr0, Option.bind_eq_bind,
      Option.bind_some, TapeRng.randomNonzeroScalar_append hu0, hseal]
    rw [← hcapsule]
    rfl

/-- The AEAD the crate links is tidy. -/
theorem Sample.tidyAead : TidyAead Sample.primitives :=
  ChaChaPoly.encrypt_decrypt

/-- Alice's ciphertext of one byte. -/
theorem encrypt_image_one_byte :
    (∃ (R : Type) (_ : RngCore R) (rng rng' : R),
        encrypt Sample.primitives rng Sample.alice.prePublicKey [7] =
          some (.ok (Sample.ciphertext Sample.alice.prePublicKey [7]), rng')) ↔
      decrypt Sample.alice (Sample.ciphertext Sample.alice.prePublicKey [7]) = .ok [7] ∧
        ((Sample.ciphertext Sample.alice.prePublicKey [7]).capsule.pointE ≠ 0 ∧
          TorsionFree groupOrder (Sample.ciphertext Sample.alice.prePublicKey [7]).capsule.pointE) ∧
        ((Sample.ciphertext Sample.alice.prePublicKey [7]).capsule.pointV ≠ 0 ∧
          TorsionFree groupOrder
            (Sample.ciphertext Sample.alice.prePublicKey [7]).capsule.pointV) :=
  encrypt_image_iff Sample.lawfulAead Sample.tidyAead

end StellarRecrypt
