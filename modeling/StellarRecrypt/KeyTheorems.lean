import StellarRecrypt.Sample
import StellarRecrypt.WireGrammar

/-!
# KeyTheorems — what deriving and converting keys guarantees

The two derivations of a seed agree, and the keys they build pass every validation.  Two conversions
keep less than their names suggest: reducing the clamped integer modulo `L` loses that it is a
multiple of the cofactor, and the map to X25519 also accepts points that are no account keys.
-/

namespace StellarRecrypt

open ByteString
open PrimeOrder
open EdwardsCurve
open Outcome

variable {Point : Type} [EdwardsCurve Point]

/-! ## Derived key sets -/

/-- The PRE key of a seed is derived exactly when the PRE scalar is not zero. -/
theorem PrePublicKey.fromStellarSeed_eq_ok_iff {D : Primitives Point} {seed : Bytes 32}
    {info : List UInt8} {pk : PrePublicKey Point} :
    fromStellarSeed D seed info = .ok pk ↔
      ∃ h : derivePreScalarWithInfo D seed info ≠ 0, ofScalar _ h = pk := by
  rw [fromStellarSeed]
  split
  · rename_i hzero
    constructor
    · intro h
      exact absurd h (err_ne_ok _ _)
    · rintro ⟨h, _⟩
      exact absurd hzero h
  · rename_i hne
    constructor
    · intro h
      exact ⟨hne, Except.ok.inj h⟩
    · rintro ⟨_, rfl⟩
      rfl

/-- Both scalars of a seed are checked, and only the PRE scalar can fail. -/
theorem StellarSecretKey.exists_fromSeed_iff {D : Primitives Point} {seed : Bytes 32}
    {info : List UInt8} :
    (∃ sk, fromSeed D seed info = .ok sk) ↔ derivePreScalarWithInfo D seed info ≠ 0 := by
  constructor
  · rintro ⟨sk, hsk⟩
    rw [← (fromSeed_eq_ok_iff.1 hsk).2]
    exact sk.preSk_ne_zero
  · intro hne
    refine ⟨⟨seed, _, _, _, ⟨info, rfl⟩, hne, rfl, rfl⟩, fromSeed_eq_ok_iff.2 ⟨rfl, rfl⟩⟩

theorem StellarSecretKey.fromSeed_eq_err {D : Primitives Point} {seed : Bytes 32}
    {info : List UInt8} (h : derivePreScalarWithInfo D seed info = 0) :
    fromSeed D seed info = err .invalidPrivateKey :=
  dif_pos (Or.inl h)

/-- `from_stellar_seed` returns the PRE key of the secret that `from_seed` returns. -/
theorem PrePublicKey.fromStellarSeed_of_fromSeed {D : Primitives Point} {seed : Bytes 32}
    {info : List UInt8} {sk : StellarSecretKey D}
    (h : StellarSecretKey.fromSeed D seed info = .ok sk) :
    fromStellarSeed D seed info = .ok sk.prePublicKey := by
  have hpre := (StellarSecretKey.fromSeed_eq_ok_iff.1 h).2
  refine fromStellarSeed_eq_ok_iff.2 ⟨hpre ▸ sk.preSk_ne_zero, ?_⟩
  apply eq_of_bytes
  show compress _ = compress _
  rw [hpre]

/-- A key pair is built from every secret, and both its consistency checks pass. -/
theorem StellarKeyPair.exists_fromSecret {D : Primitives Point} (sk : StellarSecretKey D) :
    ∃ kp, fromSecret sk = .ok kp ∧ kp.secret = sk ∧ kp.stellarPublic = sk.account ∧
      kp.prePublic = sk.prePublicKey ∧ kp.validatePreConsistency = true ∧
      kp.validateStellarConsistency = true := by
  have hpair : fromSecret sk =
      .ok { secret := sk, stellarPublic := sk.account, prePublic := sk.prePublicKey } := by
    rw [fromSecret, sk.stellarPublicKey_eq]
    rfl
  exact ⟨_, hpair, rfl, rfl, rfl, beq_self_eq_true _, beq_self_eq_true _⟩

/-- Every derived key set is consistent and valid. -/
theorem derived_keys_consistent (D : Primitives Point) (seed : Bytes 32) (info : List UInt8) :
    ed25519SeedToScalar D seed ≠ 0 ∧
      ((∃ sk, StellarSecretKey.fromSeed D seed info = .ok sk) ↔
        ∃ pk, PrePublicKey.fromStellarSeed D seed info = .ok pk) ∧
      ∀ sk, StellarSecretKey.fromSeed D seed info = .ok sk →
        sk.signingScalar ≠ 0 ∧
        PrePublicKey.fromStellarSeed D seed info = .ok sk.prePublicKey ∧
        PrePublicKey.fromBytes sk.prePublicKey.bytes = .ok sk.prePublicKey ∧
        ∃ account kp, sk.stellarPublicKey = .ok account ∧
          StellarKeyPair.fromSecret sk = .ok kp ∧
          kp.secret = sk ∧ kp.stellarPublic = account ∧ kp.prePublic = sk.prePublicKey ∧
          kp.validatePreConsistency = true ∧ kp.validateStellarConsistency = true := by
  refine ⟨ed25519SeedToScalar_ne_zero D seed, ?_, fun sk hsk => ?_⟩
  · rw [StellarSecretKey.exists_fromSeed_iff]
    constructor
    · intro hne
      exact ⟨_, PrePublicKey.fromStellarSeed_eq_ok_iff.2 ⟨hne, rfl⟩⟩
    · rintro ⟨pk, hpk⟩
      exact (PrePublicKey.fromStellarSeed_eq_ok_iff.1 hpk).1
  · -- the pair and both its checks depend on the secret only
    rcases StellarKeyPair.exists_fromSecret sk with ⟨kp, hkp, hfields⟩
    exact ⟨sk.signingScalar_ne_zero, PrePublicKey.fromStellarSeed_of_fromSeed hsk,
      PrePublicKey.fromBytes_eq_ok_iff.2 rfl, sk.account, kp, sk.stellarPublicKey_eq, hkp, hfields⟩

/-! ## Conversion to X25519 -/

/-- The conversion accepts the account keys and no others exactly as far as the encoding does not
stand for the identity or a point off the prime-order subgroup, which it does not look at. -/
theorem conversion_accepts_keys_iff (bytes : Bytes 32) :
    (∀ u, ed25519PublicToX25519Public Point bytes = .ok u ↔
        ∃ k : StellarPublicKey Point, StellarPublicKey.fromEd25519Bytes bytes = .ok k ∧
          k.x25519 = u) ↔
      ∀ P : Point, decompress bytes = some P → P ≠ 0 ∧ TorsionFree groupOrder P := by
  constructor
  · intro hagree P hP
    -- whatever decompresses is converted, so it has to be an account key
    rcases (hagree _).1 (StellarPublicKey.ed25519PublicToX25519Public_of_decompress hP) with
      ⟨k, hk, _⟩
    rcases StellarPublicKey.exists_fromEd25519Bytes_iff.1 ⟨k, hk⟩ with ⟨valid⟩
    obtain rfl : valid.point = P := Option.some_inj.1 (valid.decompress_eq.symm.trans hP)
    exact ⟨valid.point_ne_zero, valid.torsionFree⟩
  · intro hvalid u
    constructor
    · intro hu
      -- what is converted decompresses, and the condition makes it a key
      rcases okOr_bind_eq_ok_iff.1 hu with ⟨P, hP, _⟩
      rcases hvalid P hP with ⟨hne, htorsion⟩
      refine ⟨⟨bytes, ⟨P, hP, hne, htorsion⟩, u, hu⟩, ?_, rfl⟩
      exact StellarPublicKey.fromEd25519Bytes_eq_ok_iff.2 rfl
    · rintro ⟨k, hk, rfl⟩
      rw [← StellarPublicKey.fromEd25519Bytes_eq_ok_iff.1 hk]
      exact k.x25519_eq

/-- The encoding of the identity is converted, and is no account key. -/
theorem conversion_accepts_identity :
    ed25519PublicToX25519Public Ed25519.Point (toLeBytes 32 1) = .ok (toLeBytes 32 0) ∧
      (StellarPublicKey.fromEd25519Bytes (toLeBytes 32 1) :
        Outcome (StellarPublicKey Ed25519.Point)) = err .invalidPublicKey := by
  have hidentity : decompress (toLeBytes 32 1) = some (0 : Ed25519.Point) := by
    rw [decompress_eq_some_iff]
    decide +kernel
  have hu : toMontgomery (0 : Ed25519.Point) = toLeBytes 32 0 := by
    decide +kernel
  constructor
  · rw [StellarPublicKey.ed25519PublicToX25519Public_of_decompress hidentity, hu]
  · refine StellarPublicKey.fromEd25519Bytes_eq_err fun valid => valid.point_ne_zero ?_
    exact Option.some_inj.1 (valid.decompress_eq.symm.trans hidentity)

/-! ## The cofactor in the signing scalar -/

/-- The clamped integer of a seed, before it is read as a scalar. -/
def clampedInteger (D : Primitives Point) (seed : Bytes 32) : Nat :=
  leNat (ed25519SeedToScalarBytes D seed).toList

section Clamped

variable (D : Primitives Point) (seed : Bytes 32)

theorem ed25519SeedToScalar_eq_natCast :
    ed25519SeedToScalar D seed = (clampedInteger D seed : Scalar) := rfl

theorem clampedInteger_eq : clampedInteger D seed =
    clampInteger (leNat (lowerHalf (D.sha512 seed.toList)).toList) :=
  leNat_ed25519SeedToScalarBytes D seed

theorem eight_dvd_clampedInteger : 8 ∣ clampedInteger D seed := by
  rw [clampedInteger_eq, clampInteger]
  omega

/-- The quotient that reading the scalar drops is between 3 and 7. -/
theorem clampedInteger_div_bounds :
    3 ≤ clampedInteger D seed / groupOrder ∧ clampedInteger D seed / groupOrder ≤ 7 := by
  have hlt := clampInteger_lt (leNat (lowerHalf (D.sha512 seed.toList)).toList)
  have hge : 3 * groupOrder ≤ clampedInteger D seed := by
    rw [clampedInteger_eq, clampInteger]
    refine le_trans ?_ (Nat.le_add_right _ _)
    norm_num [groupOrder]
  have horder : 2 ^ 255 ≤ 8 * groupOrder := by
    norm_num [groupOrder]
  rw [← clampedInteger_eq] at hlt
  exact ⟨(Nat.le_div_iff_mul_le groupOrder_prime.pos).2 hge,
    Nat.le_of_lt_succ ((Nat.div_lt_iff_lt_mul groupOrder_prime.pos).2 (lt_of_lt_of_le hlt horder))⟩

/-- The clamped integer clears every point of small order. -/
theorem clampedInteger_nsmul {T : Point} (hT : 8 • T = 0) : clampedInteger D seed • T = 0 :=
  addOrderOf_dvd_iff_nsmul_eq_zero.1
    ((addOrderOf_dvd_iff_nsmul_eq_zero.2 hT).trans (eight_dvd_clampedInteger D seed))

/-- The signing scalar ignores a point of small order exactly when the order of the point divides
the quotient of the clamped integer by `L`. -/
theorem cofactor_cleared_iff (P : Point) {T : Point} (hT : 8 • T = 0) :
    ed25519SeedToScalar D seed • (P + T) = ed25519SeedToScalar D seed • P ↔
      addOrderOf T ∣ clampedInteger D seed / groupOrder := by
  have hadd : ed25519SeedToScalar D seed • (P + T) =
      ed25519SeedToScalar D seed • P + ed25519SeedToScalar D seed • T :=
    scalarMul_add _ P T
  -- what is left is whether the scalar kills `T`, and it is `k - L * (k / L)`
  rw [hadd, add_eq_left, ed25519SeedToScalar_eq_natCast]
  exact natCast_scalarMul_eq_zero_iff coprime_cofactor hT (eight_dvd_clampedInteger D seed)

end Clamped

/-- For the seed `3, 0, 0, …` the point of order two is ignored. -/
theorem cofactor_cleared_two_torsion :
    ed25519SeedToScalar Sample.primitives (toLeBytes 32 3) • ((0 : Ed25519.Point) +
        Ed25519.twoTorsion) =
      ed25519SeedToScalar Sample.primitives (toLeBytes 32 3) • (0 : Ed25519.Point) := by
  have hsmall : 8 • Ed25519.twoTorsion = 0 :=
    Ed25519.nsmul_twoTorsion 8
  refine (cofactor_cleared_iff Sample.primitives (toLeBytes 32 3) 0 hsmall).2 ?_
  rw [addOrderOf_dvd_iff_nsmul_eq_zero, Ed25519.nsmul_twoTorsion, if_pos]
  decide +kernel

/-- On the curve of the crate every seed has a point of small order that its scalar does not
clear. -/
theorem exists_cofactor_not_cleared (D : Primitives Ed25519.Point) (seed : Bytes 32) :
    ∃ T : Ed25519.Point, 8 • T = 0 ∧ ∀ P,
      ed25519SeedToScalar D seed • (P + T) ≠ ed25519SeedToScalar D seed • P := by
  have horder : addOrderOf Ed25519.eightTorsion = 8 := Ed25519.addOrderOf_eightTorsion
  have hsmall : 8 • Ed25519.eightTorsion = 0 := by
    rw [← horder]
    exact addOrderOf_nsmul_eq_zero _
  refine ⟨Ed25519.eightTorsion, hsmall, fun P heq => ?_⟩
  -- eight would have to divide a number between 3 and 7
  have hdvd := (cofactor_cleared_iff D seed P hsmall).1 heq
  have hbounds := clampedInteger_div_bounds D seed
  rw [horder] at hdvd
  have hpos : 0 < clampedInteger D seed / groupOrder :=
    lt_of_lt_of_le (by norm_num) hbounds.1
  exact absurd (Nat.le_of_dvd hpos hdvd) (Nat.not_le.2 (Nat.lt_succ_of_le hbounds.2))

/-- For the seed `2, 0, 0, …` and the point of order two, which decompresses like any other: the
clamped integer clears it and the scalar does not. -/
theorem cofactor_not_cleared :
    8 • Ed25519.twoTorsion = 0 ∧
      decompressPoint (compress Ed25519.twoTorsion).toList = .ok Ed25519.twoTorsion ∧
      clampedInteger Sample.primitives (toLeBytes 32 2) • Ed25519.twoTorsion = 0 ∧
      ed25519SeedToScalar Sample.primitives (toLeBytes 32 2) • ((0 : Ed25519.Point) +
          Ed25519.twoTorsion) ≠
        ed25519SeedToScalar Sample.primitives (toLeBytes 32 2) • (0 : Ed25519.Point) := by
  have hsmall : 8 • Ed25519.twoTorsion = 0 :=
    Ed25519.nsmul_twoTorsion 8
  have hne : Ed25519.twoTorsion ≠ 0 := by
    decide +kernel
  have hodd : ¬ (ed25519SeedToScalar Sample.primitives (toLeBytes 32 2)).val % 2 = 0 := by
    decide +kernel
  have hT : ed25519SeedToScalar Sample.primitives (toLeBytes 32 2) • Ed25519.twoTorsion =
      Ed25519.twoTorsion :=
    (Ed25519.nsmul_twoTorsion _).trans (if_neg hodd)
  have hzero : ed25519SeedToScalar Sample.primitives (toLeBytes 32 2) • (0 : Ed25519.Point) = 0 :=
    nsmul_zero _
  refine ⟨hsmall, decompressPoint_toList _ |>.trans ?_,
    clampedInteger_nsmul Sample.primitives (toLeBytes 32 2) hsmall, ?_⟩
  · rw [decompress_compress, okOr_some]
  · rw [zero_add, hT, hzero]
    exact hne

end StellarRecrypt
