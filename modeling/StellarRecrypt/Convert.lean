import StellarRecrypt.Error
import StellarRecrypt.Primitives

/-!
# Convert — from an Ed25519 seed to a signing scalar

`convert.rs`: hashing and clamping a seed, reading the clamped bytes as a scalar, and the map from
Ed25519 to X25519 public keys.  The byte masks of the source are shown to compute the clamped
integer of RFC 8032, which the public key of `ed25519-dalek` is defined by.
-/

namespace StellarRecrypt

open ByteString EdwardsCurve Outcome

variable {Point : Type} [EdwardsCurve Point] (D : Primitives Point)

/-- `sk[0] &= 248; sk[31] &= 127; sk[31] |= 64`. -/
def clampBytes (sk : List UInt8) : List UInt8 :=
  ((sk.modify 0 (· &&& 248)).modify 31 (· &&& 127)).modify 31 (· ||| 64)

theorem length_clampBytes (sk : List UInt8) : (clampBytes sk).length = sk.length := by
  simp [clampBytes]

def ed25519SeedToScalarBytes (seed : Bytes 32) : Bytes 32 :=
  let h := D.sha512 seed.toList
  let sk := lowerHalf h
  ⟨clampBytes sk.toList, by rw [length_clampBytes, sk.length_eq]⟩

def ed25519SeedToX25519Private (seed : Bytes 32) : Bytes 32 :=
  ed25519SeedToScalarBytes D seed

def ed25519SeedToScalar (seed : Bytes 32) : Scalar :=
  Scalar.fromBytesModOrder (ed25519SeedToScalarBytes D seed)

def ed25519PublicToX25519Public (Point : Type) [EdwardsCurve Point] (edPub : Bytes 32) :
    Outcome (Bytes 32) := do
  let edwards : Point ← okOr (decompress edPub) .invalidPublicKey
  return toMontgomery edwards

def ed25519PublicFromSeed (seed : Bytes 32) : Bytes 32 :=
  D.verifyingKey seed

/-! ## The masks compute the clamped integer -/

theorem toNat_and_248 (b : UInt8) : (b &&& 248).toNat = b.toNat / 8 * 8 := by
  have h : ∀ n : Fin 256, (UInt8.ofNat n &&& 248).toNat = n.val / 8 * 8 := by
    decide +kernel
  simpa using h ⟨b.toNat, b.toNat_lt⟩

theorem toNat_and_127_or_64 (b : UInt8) : ((b &&& 127) ||| 64).toNat = 64 + b.toNat % 64 := by
  have h : ∀ n : Fin 256, ((UInt8.ofNat n &&& 127) ||| 64).toNat = 64 + n.val % 64 := by
    decide +kernel
  simpa using h ⟨b.toNat, b.toNat_lt⟩

/-- A 32-byte string is its first byte, 30 bytes and its last byte. -/
private theorem exists_ends (sk : Bytes 32) :
    ∃ (first : UInt8) (mid : List UInt8) (last : UInt8),
      mid.length = 30 ∧ sk.toList = first :: (mid ++ [last]) := by
  obtain ⟨l, hl⟩ := sk
  cases l with
  | nil => simp at hl
  | cons first l =>
      have hne : l ≠ [] := by
        rintro rfl
        simp at hl
      refine ⟨first, l.dropLast, l.getLast hne, ?_, ?_⟩
      · simp only [List.length_cons] at hl
        simp only [List.length_dropLast]
        omega
      · rw [List.dropLast_concat_getLast]

private theorem modify_last (f : UInt8 → UInt8) {mid : List UInt8} {last : UInt8} {n : Nat}
    (hn : mid.length = n) : (mid ++ [last]).modify n f = mid ++ [f last] := by
  subst hn
  induction mid with
  | nil => rfl
  | cons b mid ih => simpa using ih

theorem leNat_clampBytes (sk : Bytes 32) :
    leNat (clampBytes sk.toList) = clampInteger (leNat sk.toList) := by
  obtain ⟨first, mid, last, hmid, hsk⟩ := exists_ends sk
  have hclamp : clampBytes sk.toList = (first &&& 248) :: (mid ++ [(last &&& 127) ||| 64]) := by
    rw [hsk, clampBytes, List.modify_zero_cons, List.modify_succ_cons, modify_last _ hmid,
      List.modify_succ_cons, modify_last _ hmid]
  have hmidlt := leNat_lt mid
  have hfirst := first.toNat_lt
  rw [hmid] at hmidlt
  rw [hclamp, hsk]
  simp only [leNat_cons, leNat_append, leNat_nil, toNat_and_248, toNat_and_127_or_64, hmid,
    clampInteger]
  omega

theorem leNat_ed25519SeedToScalarBytes (seed : Bytes 32) :
    leNat (ed25519SeedToScalarBytes D seed).toList =
      clampInteger (leNat (lowerHalf (D.sha512 seed.toList)).toList) :=
  leNat_clampBytes _

/-- The signing scalar is the clamped integer modulo `L`. -/
theorem ed25519SeedToScalar_eq (seed : Bytes 32) :
    ed25519SeedToScalar D seed =
      (clampInteger (leNat (lowerHalf (D.sha512 seed.toList)).toList) : Scalar) := by
  rw [ed25519SeedToScalar, Scalar.fromBytesModOrder, leNat_ed25519SeedToScalarBytes]

/-- The public key `ed25519-dalek` derives is the signing scalar's public point. -/
theorem ed25519PublicFromSeed_eq (seed : Bytes 32) :
    ed25519PublicFromSeed D seed = compress (ed25519SeedToScalar D seed • (basepoint : Point)) := by
  rw [ed25519PublicFromSeed, D.verifyingKey_eq, ed25519SeedToScalar_eq, smul_eq_scalarMul,
    torsionFree_basepoint.natCast_scalarMul]

/-! ## The signing scalar is never zero -/

theorem clampInteger_lt (n : Nat) : clampInteger n < 2 ^ 255 := by
  unfold clampInteger
  omega

/-- No multiple of `L` is a clamped integer: below `2^255` there are seven, and a multiple of eight
would have to be the eighth. -/
theorem not_dvd_clampInteger (n : Nat) : ¬ groupOrder ∣ clampInteger n := by
  rintro ⟨k, hk⟩
  have hlt := clampInteger_lt n
  have height : clampInteger n % 8 = 0 := by
    unfold clampInteger
    omega
  have hpos : 0 < clampInteger n := by
    unfold clampInteger
    omega
  rw [hk] at hlt height hpos
  have hdvd : 8 ∣ k := coprime_cofactor.dvd_of_dvd_mul_left (Nat.dvd_of_mod_eq_zero height)
  have hk8 : 8 ≤ k := Nat.le_of_dvd (Nat.pos_of_mul_pos_left hpos) hdvd
  have hbig : groupOrder * 8 ≤ groupOrder * k := Nat.mul_le_mul_left _ hk8
  have horder : 2 ^ 255 ≤ groupOrder * 8 := by
    norm_num [groupOrder]
  omega

theorem ed25519SeedToScalar_ne_zero (seed : Bytes 32) : ed25519SeedToScalar D seed ≠ 0 := by
  rw [ed25519SeedToScalar_eq, Ne, ZMod.natCast_eq_zero_iff]
  exact not_dvd_clampInteger _

end StellarRecrypt
