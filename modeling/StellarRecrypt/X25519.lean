import StellarRecrypt.Delegation
import StellarRecrypt.Ed25519
import StellarRecrypt.Lib.MontgomeryLadder

/-!
# X25519 — the converted keys, used as X25519 keys

`convert.rs` turns a seed into an X25519 private key and an account key into an X25519 public key.
The two conversions are meant to meet: the crate's own test derives the public key of the private
one with an X25519 library and compares.  Here X25519 is the function of the standard, RFC 7748:
its clamping, its ladder and its inversion, written out over the field.  The curve is the one of
Ed25519; the hash stays a parameter.
-/

namespace StellarRecrypt

open ByteString
open PrimeOrder
open EdwardsCurve
open Outcome
open MontgomeryLadder

/-! ## The function of RFC 7748 -/

namespace FieldElement

/-- `z^(p - 2)`. -/
def fermatInverse (z : FieldElement) : FieldElement :=
  (Pratt.powMod z.val fieldPrime 255 (fieldPrime - 2) : Nat)

/-- The inverse, and zero at zero. -/
theorem fermatInverse_eq (z : FieldElement) : fermatInverse z = z⁻¹ := by
  have hexp : fieldPrime - 2 < 2 ^ 255 := by
    norm_num [fieldPrime]
  rw [fermatInverse, Pratt.powMod_cast _ _ hexp, ZMod.natCast_zmod_val]
  by_cases hz : z = 0
  · rw [hz, inv_zero, zero_pow (by norm_num [fieldPrime])]
  · refine eq_inv_of_mul_eq_one_left ?_
    rw [← pow_succ]
    exact ZMod.pow_card_sub_one_eq_one hz

end FieldElement

/-- `x25519(k, u)`: the scalar is clamped, the top bit of `u` is masked. -/
def x25519 (k u : Bytes 32) : Bytes 32 :=
  let x₁ : FieldElement := (leNat u.toList % 2 ^ 255 : Nat)
  let p := ladder 121665 x₁ 255 (clampInteger (leNat k.toList))
  toLeBytes 32 (p.u * FieldElement.fermatInverse p.z).val

/-- `x25519_public_from_private`, with the function of the standard: the base point has `u = 9`. -/
def x25519PublicFromPrivate (xPriv : Bytes 32) : Bytes 32 :=
  x25519 xPriv (toLeBytes 32 9)

theorem a24_curve : a24 Ed25519.curve = 121665 := by
  have hne : Ed25519.curve.a - Ed25519.curve.d ≠ 0 := a_sub_d_ne_zero
  rw [a24, div_eq_iff hne]
  decide +kernel

/-! ## The ladder and the group of the account keys -/

section Curve

variable (P Q : Ed25519.Point)

theorem leNat_toMontgomery :
    leNat (toMontgomery P).toList = ((1 + y P) * (1 - y P)⁻¹).val := by
  have h := val_lt_two_pow ((1 + y P) * (1 - y P)⁻¹)
  exact leNat_toLeBytes_of_lt (by omega)

/-- X25519 of a converted point is the conversion of its multiple, for every point of the curve. -/
theorem x25519_toMontgomery (k : Bytes 32) :
    x25519 k (toMontgomery P) = toMontgomery (clampInteger (leNat k.toList) • P) := by
  have hu : ((leNat (toMontgomery P).toList % 2 ^ 255 : Nat) : FieldElement) =
      (1 + y P) * (1 - y P)⁻¹ := by
    rw [leNat_toMontgomery, Nat.mod_eq_of_lt (val_lt_two_pow _), ZMod.natCast_zmod_val]
  have hk : clampInteger (leNat k.toList) % 2 ^ 255 = clampInteger (leNat k.toList) :=
    Nat.mod_eq_of_lt (clampInteger_lt _)
  have hvalue := ladder_value (C := Ed25519.curve) P 255 (clampInteger (leNat k.toList))
  rw [a24_curve, hk] at hvalue
  simp only [x25519, FieldElement.fermatInverse_eq, hu]
  exact congrArg (fun a : FieldElement => toLeBytes 32 a.val) hvalue

theorem toMontgomery_basepoint : toMontgomery (basepoint : Ed25519.Point) = toLeBytes 32 9 := by
  have hy : (1 - y (basepoint : Ed25519.Point)) ≠ 0 := by
    decide +kernel
  have hu : (1 + y (basepoint : Ed25519.Point)) * (1 - y (basepoint : Ed25519.Point))⁻¹ = 9 := by
    rw [mul_inv_eq_iff_eq_mul₀ hy]
    decide +kernel
  rw [toMontgomery, hu]
  rfl

variable {P Q}

/-- The points whose converted key is zero. -/
theorem y_sq_eq_one_iff : (y P) ^ 2 = 1 ↔ 2 • P = 0 := by
  constructor
  · intro hsq
    have hx : x P = 0 :=
      (x_eq_zero_iff P).2 (sq_eq_sq_iff_eq_or_eq_neg.1 (hsq.trans (one_pow 2).symm))
    -- a point with `x = 0` is its own opposite
    have hneg : -P = P := by
      refine TwistedEdwards.Point.ext ?_ rfl
      exact (congrArg Neg.neg hx).trans (neg_zero.trans hx.symm)
    rw [two_nsmul, add_eq_zero_iff_eq_neg, hneg]
  · intro htwo
    have hneg : P = -P := by
      rwa [two_nsmul, add_eq_zero_iff_eq_neg] at htwo
    have hx : x P = -x P := congrArg TwistedEdwards.Point.x hneg
    have hzero : x P = 0 := by
      have hdouble : 2 * x P = 0 := by
        linear_combination hx
      exact (mul_eq_zero.1 hdouble).resolve_left Ed25519.curve.two_ne
    rcases (x_eq_zero_iff P).1 hzero with hy | hy
    · rw [hy, one_pow]
    · rw [hy, neg_one_sq]

/-- The fraction `(1 + y) / (1 - y)`, with its two zeros. -/
theorem u_eq_iff {y y' : FieldElement} :
    (1 + y) * (1 - y)⁻¹ = (1 + y') * (1 - y')⁻¹ ↔ y = y' ∨ (y ^ 2 = 1 ∧ y' ^ 2 = 1) := by
  have hzero : ∀ {z : FieldElement}, (1 + z) * (1 - z)⁻¹ = 0 → z ^ 2 = 1 := by
    intro z hz
    rcases mul_eq_zero.1 hz with h | h
    · rw [(eq_neg_of_add_eq_zero_right h : z = -1), neg_one_sq]
    · rw [← sub_eq_zero.1 (inv_eq_zero.1 h), one_pow]
  constructor
  · intro h
    by_cases hsq : y ^ 2 = 1
    · rw [u_eq_zero_of_y_sq hsq] at h
      exact Or.inr ⟨hsq, hzero h.symm⟩
    by_cases hsq' : y' ^ 2 = 1
    · rw [u_eq_zero_of_y_sq hsq'] at h
      exact absurd (hzero h) hsq
    left
    have hne : 1 - y ≠ 0 := by
      intro h0
      exact hsq (by rw [← sub_eq_zero.1 h0, one_pow])
    have hne' : 1 - y' ≠ 0 := by
      intro h0
      exact hsq' (by rw [← sub_eq_zero.1 h0, one_pow])
    have hcross : (1 + y) * (1 - y') = (1 + y') * (1 - y) := by
      rwa [← div_eq_mul_inv, ← div_eq_mul_inv, div_eq_div_iff hne hne'] at h
    have hdouble : 2 * (y - y') = 0 := by
      linear_combination hcross
    exact sub_eq_zero.1 ((mul_eq_zero.1 hdouble).resolve_left Ed25519.curve.two_ne)
  · rintro (rfl | ⟨hsq, hsq'⟩)
    · rfl
    · rw [u_eq_zero_of_y_sq hsq, u_eq_zero_of_y_sq hsq']

theorem toMontgomery_eq_iff :
    toMontgomery P = toMontgomery Q ↔ Q = P ∨ Q = -P ∨ (2 • P = 0 ∧ 2 • Q = 0) := by
  have hbytes : toMontgomery P = toMontgomery Q ↔
      (1 + y P) * (1 - y P)⁻¹ = (1 + y Q) * (1 - y Q)⁻¹ := by
    constructor
    · intro h
      have hnat := congrArg (fun b : Bytes 32 => leNat b.toList) h
      rw [leNat_toMontgomery, leNat_toMontgomery] at hnat
      exact ZMod.val_injective fieldPrime hnat
    · intro h
      rw [toMontgomery, toMontgomery, h]
  rw [hbytes, u_eq_iff, y_sq_eq_one_iff, y_sq_eq_one_iff, ← or_assoc]
  refine or_congr_left ?_
  constructor
  · intro hy
    rcases TwistedEdwards.x_eq_or_eq_neg_of_y_eq hy.symm with hx | hx
    · exact Or.inl (TwistedEdwards.Point.ext hx hy.symm)
    · exact Or.inr (TwistedEdwards.Point.ext hx hy.symm)
  · rintro (rfl | rfl)
    · rfl
    · rfl

theorem toMontgomery_eq_zero_iff : toMontgomery P = toLeBytes 32 0 ↔ 2 • P = 0 := by
  have hzero : toMontgomery (0 : Ed25519.Point) = toLeBytes 32 0 := by
    rw [toMontgomery, y_zero, sub_self, inv_zero, mul_zero, ZMod.val_zero]
  rw [← hzero, toMontgomery_eq_iff]
  constructor
  · rintro (h | h | ⟨h, _⟩)
    · rw [← h, nsmul_zero]
    · rw [← neg_neg P, ← h, neg_zero, nsmul_zero]
    · exact h
  · intro h
    exact Or.inr (Or.inr ⟨h, nsmul_zero 2⟩)

/-- A point of the prime-order subgroup has a zero key only at the identity. -/
theorem eq_zero_of_two_nsmul (hP : TorsionFree groupOrder P) (h : 2 • P = 0) : P = 0 :=
  hP.eq_zero_of_cofactor (by decide +kernel) h

end Curve

/-! ## Account keys -/

theorem clampInteger_idem (n : Nat) : clampInteger (clampInteger n) = clampInteger n := by
  unfold clampInteger
  omega

variable {D : Primitives Ed25519.Point}

theorem StellarPublicKey.x25519_eq_toMontgomery {Point : Type} [EdwardsCurve Point]
    (k : StellarPublicKey Point) : k.x25519 = toMontgomery k.point := by
  have h := k.x25519_eq
  rw [ed25519PublicToX25519Public_of_decompress k.valid.decompress_eq] at h
  exact (Except.ok.inj h).symm

/-- X25519 of a converted seed and an account key is the conversion of the signing scalar's
multiple. -/
theorem x25519_account (sk : StellarSecretKey D) (k : StellarPublicKey Ed25519.Point) :
    x25519 sk.x25519Private k.x25519 = toMontgomery (sk.signingScalar • k.point) := by
  have hfree : TorsionFree groupOrder k.point := k.valid.torsionFree
  rw [k.x25519_eq_toMontgomery, x25519_toMontgomery, sk.x25519Private_eq,
    ed25519SeedToX25519Private, leNat_ed25519SeedToScalarBytes, clampInteger_idem,
    sk.signingScalar_eq, ed25519SeedToScalar_eq, smul_eq_scalarMul, hfree.natCast_scalarMul]

/-- The public key of the converted seed is the converted public key of the seed. -/
theorem conversion_paths_agree (seed : Bytes 32) :
    ed25519PublicToX25519Public Ed25519.Point (ed25519PublicFromSeed D seed) =
      .ok (x25519PublicFromPrivate (ed25519SeedToX25519Private D seed)) := by
  have hdecompress : decompress (ed25519PublicFromSeed D seed) =
      some (ed25519SeedToScalar D seed • (basepoint : Ed25519.Point)) := by
    rw [ed25519PublicFromSeed_eq, decompress_compress]
  rw [StellarPublicKey.ed25519PublicToX25519Public_of_decompress hdecompress,
    x25519PublicFromPrivate, ← toMontgomery_basepoint, x25519_toMontgomery,
    ed25519SeedToX25519Private, leNat_ed25519SeedToScalarBytes, clampInteger_idem,
    ed25519SeedToScalar_eq, smul_eq_scalarMul, torsionFree_basepoint.natCast_scalarMul]

/-- Two holders of seeds agree on a key from each other's account keys, and it is not zero. -/
theorem x25519_agreement (alice bob : StellarSecretKey D) :
    x25519 alice.x25519Private bob.account.x25519 =
        x25519 bob.x25519Private alice.account.x25519 ∧
      ∀ k : StellarPublicKey Ed25519.Point,
        x25519 alice.x25519Private k.x25519 ≠ toLeBytes 32 0 := by
  constructor
  · have hcomm : alice.signingScalar • bob.account.point =
        bob.signingScalar • alice.account.point := by
      rw [bob.point_account, alice.point_account, smul_eq_val_nsmul, smul_eq_val_nsmul,
        smul_eq_val_nsmul, smul_eq_val_nsmul, smul_comm]
    rw [x25519_account, x25519_account, hcomm]
  · intro k
    rw [x25519_account, Ne, toMontgomery_eq_zero_iff]
    intro h
    have hfree := k.valid.torsionFree.scalarMul alice.signingScalar
    rcases k.valid.torsionFree.scalarMul_eq_zero_iff.1 (eq_zero_of_two_nsmul hfree h) with h0 | h0
    · exact alice.signingScalar_ne_zero h0
    · exact k.valid.point_ne_zero h0

/-- The conversion of an account key forgets its sign and nothing else. -/
theorem x25519_eq_iff (k l : StellarPublicKey Ed25519.Point) :
    k.x25519 = l.x25519 ↔ l.point = k.point ∨ l.point = -k.point := by
  rw [k.x25519_eq_toMontgomery, l.x25519_eq_toMontgomery, toMontgomery_eq_iff, ← or_assoc,
    or_iff_left]
  rintro ⟨h, _⟩
  exact k.valid.point_ne_zero (eq_zero_of_two_nsmul k.valid.torsionFree h)

/-! ## Private keys -/

/-- Clamped integers are residues modulo `8·L`, so those congruent modulo `L` are equal. -/
theorem clampInteger_eq_of_modEq {m n : Nat}
    (h : clampInteger m ≡ clampInteger n [MOD groupOrder]) : clampInteger m = clampInteger n := by
  have height : clampInteger m ≡ clampInteger n [MOD 8] := by
    unfold Nat.ModEq clampInteger
    omega
  have hmul : clampInteger m ≡ clampInteger n [MOD 8 * groupOrder] :=
    (Nat.modEq_and_modEq_iff_modEq_mul coprime_cofactor).1 ⟨height, h⟩
  have hbound : 2 ^ 255 < 8 * groupOrder := by
    norm_num [groupOrder]
  exact hmul.eq_of_lt_of_lt ((clampInteger_lt m).trans hbound) ((clampInteger_lt n).trans hbound)

/-- Two secrets have the same X25519 private key exactly when they have the same account. -/
theorem x25519Private_eq_iff {Point : Type} [EdwardsCurve Point] {D : Primitives Point}
    (alice bob : StellarSecretKey D) :
    alice.x25519Private = bob.x25519Private ↔ alice.account = bob.account := by
  constructor
  · intro h
    have hscalar : alice.signingScalar = bob.signingScalar := by
      -- the signing scalar is the private key, read as a residue
      rw [alice.x25519Private_eq, bob.x25519Private_eq] at h
      rw [alice.signingScalar_eq, bob.signingScalar_eq]
      exact congrArg Scalar.fromBytesModOrder h
    refine StellarPublicKey.eq_of_ed25519 ?_
    exact congrArg (fun s : Scalar => compress (s • (basepoint : Point))) hscalar
  · intro h
    have hpoint : alice.signingScalar • (basepoint : Point) =
        bob.signingScalar • (basepoint : Point) :=
      compress_injective (congrArg StellarPublicKey.ed25519 h)
    rw [smul_basepoint_inj, alice.signingScalar_eq, bob.signingScalar_eq, ed25519SeedToScalar_eq,
      ed25519SeedToScalar_eq, ZMod.natCast_eq_natCast_iff] at hpoint
    have hclamp := clampInteger_eq_of_modEq hpoint
    rw [← leNat_ed25519SeedToScalarBytes, ← leNat_ed25519SeedToScalarBytes] at hclamp
    rw [alice.x25519Private_eq, bob.x25519Private_eq, ed25519SeedToX25519Private,
      ed25519SeedToX25519Private, ← toLeBytes_leNat (ed25519SeedToScalarBytes D alice.seed), hclamp,
      toLeBytes_leNat]

end StellarRecrypt
