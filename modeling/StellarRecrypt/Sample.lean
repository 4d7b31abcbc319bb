import StellarRecrypt.Delegation
import StellarRecrypt.Ed25519
import StellarRecrypt.Lib.ChaChaPoly
import StellarRecrypt.Lib.Sha2

/-!
# Sample — the functions the crate links, and two parties

The curve of Ed25519 with SHA-512, HKDF-SHA256 and XChaCha20-Poly1305, as the crate uses them.
Statements about particular runs are made over these functions, with the secrets of two fixed seeds
and a random source that repeats one number.
-/

namespace StellarRecrypt

namespace Sample

open ByteString
open EdwardsCurve
open Outcome
open RngCore

/-! ## The dependencies -/

def sha512 (msg : List UInt8) : Bytes 64 :=
  ⟨Sha2.sha512.hash msg, Sha2.sha512.length_hash msg⟩

def hkdfSha256 (salt ikm info : List UInt8) (n : Nat) : Bytes n :=
  ⟨Sha2.sha256.hkdf salt ikm info n, Sha2.sha256.length_hkdf (by decide) salt ikm info n⟩

/-- The functions behind the interface. -/
def primitives : Primitives Ed25519.Point where
  sha512 := sha512
  hkdfSha256 := hkdfSha256
  aeadEncrypt := fun key nonce msg aad => ChaChaPoly.encrypt key.toList nonce.toList msg aad
  aeadDecrypt := fun key nonce ct aad => ChaChaPoly.decrypt key.toList nonce.toList ct aad
  verifyingKey := fun seed =>
    compress (clampInteger (leNat (lowerHalf (sha512 seed.toList)).toList) • basepoint)
  verifyingKey_eq := fun _ => rfl

/-- The AEAD satisfies its law. -/
theorem lawfulAead : LawfulAead primitives where
  decrypt_encrypt := ChaChaPoly.decrypt_encrypt
  length_encrypt := ChaChaPoly.length_encrypt

/-! ## A random source -/

/-- A random source that repeats one number. -/
structure ConstantRng where
  value : Nat

instance : RngCore ConstantRng where
  fillBytes n rng := (toLeBytes n rng.value, rng)

/-- The source that repeats `1`. -/
def rng : ConstantRng := ⟨1⟩

theorem randomNonzeroScalar_rng : randomNonzeroScalar rng = some ((1 : Scalar), rng) := by
  have hdrawn : Scalar.fromBytesModOrderWide (RngCore.fillBytes 64 rng).1 = (1 : Scalar) := by
    have hone : leNat (toLeBytes 64 1).toList = 1 := leNat_toLeBytes_of_lt (by norm_num)
    exact (congrArg Nat.cast hone).trans Nat.cast_one
  rw [randomNonzeroScalar, hdrawn, if_pos one_ne_zero]
  rfl

/-! ## Two parties -/

/-- The secret of a seed, with the PRE scalar of an empty info. -/
def secret (seed : Bytes 32) (preSk : Scalar)
    (hpre : preSk = derivePreScalarWithInfo primitives seed []) (hne : preSk ≠ 0) :
    StellarSecretKey primitives where
  seed := seed
  preSk := preSk
  signingScalar := ed25519SeedToScalar primitives seed
  x25519Private := ed25519SeedToX25519Private primitives seed
  preSk_eq := ⟨[], hpre⟩
  preSk_ne_zero := hne
  signingScalar_eq := rfl
  x25519Private_eq := rfl

theorem preScalar_alice :
    (396462479021233678402989851696525353297157787000646856454283296266329951001 : Scalar) =
      derivePreScalarWithInfo primitives (toLeBytes 32 1) [] := by
  decide +kernel

theorem preScalar_bob :
    (1691122405937974334545997302152181319916230704398018818917025777675875325392 : Scalar) =
      derivePreScalarWithInfo primitives (toLeBytes 32 2) [] := by
  decide +kernel

/-- The seed `1, 0, 0, …`. -/
def alice : StellarSecretKey primitives :=
  secret (toLeBytes 32 1)
    396462479021233678402989851696525353297157787000646856454283296266329951001
    preScalar_alice (by decide +kernel)

/-- The seed `2, 0, 0, …`. -/
def bob : StellarSecretKey primitives :=
  secret (toLeBytes 32 2)
    1691122405937974334545997302152181319916230704398018818917025777675875325392
    preScalar_bob (by decide +kernel)

theorem fromSeed_alice :
    StellarSecretKey.fromSeed primitives (toLeBytes 32 1) [] = .ok alice :=
  StellarSecretKey.fromSeed_eq_ok_iff.2 ⟨rfl, preScalar_alice⟩

theorem fromSeed_bob :
    StellarSecretKey.fromSeed primitives (toLeBytes 32 2) [] = .ok bob :=
  StellarSecretKey.fromSeed_eq_ok_iff.2 ⟨rfl, preScalar_bob⟩

theorem signingScalar_bob : bob.signingScalar =
    (5005166472244870385131046180232723518085914182094655471602729641202823688765 : Nat) := by
  decide +kernel

/-- The nonce the source gives. -/
def nonce : Bytes nonceLen := toLeBytes nonceLen 1

/-- A payload sealed with that nonce. -/
def payload (key : Bytes keyLen) (m aad : List UInt8) : List UInt8 :=
  nonce.toList ++ (primitives.aeadEncrypt key nonce m aad).getD []

theorem seal_rng (key : Bytes keyLen) {m : List UInt8} (hm : ChaChaPoly.Fits m.length)
    (aad : List UInt8) : Dem.seal primitives rng key m aad = (.ok (payload key m aad), rng) := by
  have hsealed : ∃ ct, primitives.aeadEncrypt key nonce m aad = some ct :=
    ⟨_, ChaChaPoly.encrypt_eq_some_iff.2 ⟨hm, rfl⟩⟩
  rcases hsealed with ⟨ct, hct⟩
  have hdrawn : RngCore.fillBytes nonceLen rng = (nonce, rng) := rfl
  rw [Dem.seal, hdrawn]
  dsimp only
  rw [payload, hct]
  rfl

theorem open_payload (key : Bytes keyLen) {m : List UInt8} (hm : ChaChaPoly.Fits m.length)
    (aad : List UInt8) : Dem.open primitives key (payload key m aad) aad = .ok m :=
  open_seal lawfulAead (congrArg Prod.fst (seal_rng key hm aad))

theorem length_payload (key : Bytes keyLen) {m : List UInt8} (hm : ChaChaPoly.Fits m.length)
    (aad : List UInt8) : (payload key m aad).length = m.length + 40 :=
  length_seal lawfulAead (congrArg Prod.fst (seal_rng key hm aad))

/-- A payload under another key, whose tag does not match. -/
theorem open_payload_eq_err {key key' : Bytes keyLen} {m aad : List UInt8}
    (hm : ChaChaPoly.Fits m.length)
    (h : primitives.aeadDecrypt key' nonce
      ((primitives.aeadEncrypt key nonce m aad).getD []) aad = none) :
    Dem.open primitives key' (payload key m aad) aad = err .decryptionFailed := by
  have hlen := length_payload key hm aad
  rw [payload, List.length_append, Bytes.length_eq, nonceLen] at hlen
  rw [payload, open_append _ _ (by omega), h]
  rfl

/-- The ciphertext of `m` with both draws `1`. -/
def ciphertext (pk : PrePublicKey Ed25519.Point) (m : List UInt8) : Ciphertext Ed25519.Point :=
  { capsule := encapsulate primitives 1 1
    payload := payload (kdfFromPoint primitives (((1 : Scalar) + 1) • pk.point) encryptContext) m
      (encapsulate primitives 1 1).toBytes.toList }

theorem encrypt_rng (pk : PrePublicKey Ed25519.Point) {m : List UInt8}
    (hm : ChaChaPoly.Fits m.length) :
    encrypt primitives rng pk m = some (.ok (ciphertext pk m), rng) := by
  simp only [encrypt_eq, randomNonzeroScalar_rng, Option.bind_eq_bind, Option.bind_some,
    seal_rng _ hm]
  rfl

theorem verify_ciphertext (pk : PrePublicKey Ed25519.Point) (m : List UInt8) :
    (ciphertext pk m).capsule.verify primitives = true :=
  verify_encapsulate 1 1

theorem length_ciphertext (pk : PrePublicKey Ed25519.Point) {m : List UInt8}
    (hm : ChaChaPoly.Fits m.length) : (ciphertext pk m).payload.length = m.length + 40 :=
  length_payload _ hm _

/-- The delegation with draw `1`. -/
theorem rekeyGen_rng (aliceSk : StellarSecretKey primitives)
    (bobPk : StellarPublicKey Ed25519.Point) :
    rekeyGen rng aliceSk bobPk = some (.ok (delegate aliceSk bobPk 1), rng) :=
  rekeyGen_eq_some_iff.2 ⟨1, randomNonzeroScalar_rng, rfl⟩

/-- The ciphertext of one byte for Alice, redirected to Bob. -/
def redirected : ReencryptedCiphertext Ed25519.Point :=
  redirect (delegate alice bob.account 1) (ciphertext alice.prePublicKey [7])

/-! ## What they derive, as numbers -/

/-- `pre_sk·(r + u)` for Alice and both draws `1`. -/
def ownerNat : Nat :=
  792924958042467356805979703393050706594315574001293712908566592532659902002

/-- The same for Bob. -/
def bobNat : Nat :=
  3382244811875948669091994604304362639832461408796037637834051555351750650784

theorem ownerShared_encapsulate_one {sk : StellarSecretKey primitives} {n : Nat}
    (h : (1 + 1) * sk.preSk = (n : Scalar)) :
    ownerShared sk (encapsulate primitives 1 1) = n • (basepoint : Ed25519.Point) := by
  rw [ownerShared_encapsulate, StellarSecretKey.point_prePublicKey, smul_smul_basepoint, h]
  exact torsionFree_basepoint.natCast_scalarMul n

theorem ownerShared_alice : ownerShared alice (encapsulate primitives 1 1) =
    ownerNat • (basepoint : Ed25519.Point) :=
  ownerShared_encapsulate_one (by decide +kernel)

theorem ownerShared_bob : ownerShared bob (encapsulate primitives 1 1) =
    bobNat • (basepoint : Ed25519.Point) :=
  ownerShared_encapsulate_one (by decide +kernel)

/-- The scalar `d` of Alice's delegation to Bob. -/
def dNat : Nat :=
  3708038089701889633114934638347024237894826916901182818320103190354289629447

/-- The scalar `rk` of that delegation. -/
def rkNat : Nat :=
  2998090770786196167830279933429779209560757960654519212646357809454157452234

theorem compress_account_bob : compress bob.account.point =
    toLeBytes 32
      114274576364016493030484937871110756318215970969947945995345336632801482865003 := by
  have hval : bob.signingScalar.val =
      5005166472244870385131046180232723518085914182094655471602729641202823688765 := by
    rw [signingScalar_bob]
    exact ZMod.val_natCast_of_lt (by norm_num [groupOrder])
  rw [StellarSecretKey.point_account, smul_eq_val_nsmul, hval]
  exact Ed25519.compress_nsmul_basepoint
    (x := 30502062408368802319605209355040172200299064220671145128052775605321946045309)
    (y := 56378531745358395318699445366766802391580978637127663975616544628844918045035)
    (by norm_num) (by norm_num [fieldPrime]) (by norm_num [fieldPrime]) (by decide +kernel)

theorem hashToD_bob :
    hashToD primitives ((1 : Scalar) • basepoint) bob.account.point
      ((1 : Scalar) • bob.account.point) = (dNat : Scalar) := by
  rw [one_smul_point, one_smul_point, hashToD, compress_account_bob]
  decide +kernel

theorem rk_bob : (delegate alice bob.account 1).rk = (rkNat : Scalar) := by
  have hmul : alice.preSk = (rkNat : Scalar) * (dNat : Scalar) := by
    decide +kernel
  have hne : (dNat : Scalar) ≠ 0 := by
    decide +kernel
  show alice.preSk * (hashToD primitives ((1 : Scalar) • basepoint) bob.account.point
      ((1 : Scalar) • bob.account.point))⁻¹ = _
  rw [hashToD_bob, hmul, mul_inv_cancel_right₀ hne]

/-! ## Degenerate capsules -/

/-- The capsule of two identities and a zero scalar. -/
def identityCapsule {Point : Type} [EdwardsCurve Point] : Capsule Point :=
  { pointE := 0, pointV := 0, signature := 0 }

/-- It passes the capsule check, whatever the hash. -/
theorem verify_identityCapsule {Point : Type} [EdwardsCurve Point] (D : Primitives Point) :
    identityCapsule.verify D = true := by
  rw [Capsule.verify, identityCapsule, decide_eq_true_iff, smul_eq_val_nsmul, smul_eq_val_nsmul,
    ZMod.val_zero, zero_nsmul, nsmul_zero, add_zero]

/-- A payload for the identity, on that capsule. -/
def identityPayload : List UInt8 :=
  payload (kdfFromPoint primitives (0 : Ed25519.Point) encryptContext) [7]
    (identityCapsule : Capsule Ed25519.Point).toBytes.toList

theorem preSk_bob_ne_preSk_alice : bob.preSk ≠ alice.preSk := by
  decide +kernel

end Sample

end StellarRecrypt
