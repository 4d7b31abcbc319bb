import StellarRecrypt.Constants
import StellarRecrypt.Lib.ByteString
import StellarRecrypt.Lib.PrimeOrder

/-!
# Dalek — what the crate uses of `curve25519-dalek`

The curve library is a dependency, so its points are a parameter: a type with a commutative group
of order `8·L`, coordinates on the curve `-x² + y² = 1 + d·x²·y²`, a basepoint of order `L`, and a
decompression whose accepted encodings are the documented ones.  The group is the whole curve, as
in the library: points of small order and points with a small-order component are values of the
type.

Scalars are residues modulo `L`.  A scalar multiplies a point through its representative in
`[0, L)`.
-/

namespace StellarRecrypt

open ByteString PrimeOrder

/-! ## Scalars -/

/-- `Scalar`: an integer modulo `L`. -/
abbrev Scalar : Type := ZMod groupOrder

namespace Scalar

/-- `Scalar::from_bytes_mod_order`. -/
def fromBytesModOrder (bytes : Bytes 32) : Scalar :=
  (leNat bytes.toList : Scalar)

/-- `Scalar::from_bytes_mod_order_wide`. -/
def fromBytesModOrderWide (bytes : Bytes 64) : Scalar :=
  (leNat bytes.toList : Scalar)

/-- `Scalar::from_canonical_bytes`. -/
def fromCanonicalBytes (bytes : Bytes 32) : Option Scalar :=
  if leNat bytes.toList < groupOrder then some (leNat bytes.toList : Scalar) else none

/-- `Scalar::to_bytes`. -/
def toBytes (s : Scalar) : Bytes 32 :=
  toLeBytes 32 s.val

/-- `Scalar::invert`. -/
def invert (s : Scalar) : Scalar :=
  s⁻¹

theorem val_lt (s : Scalar) : s.val < groupOrder :=
  ZMod.val_lt s

/-- The canonical encodings are exactly the encodings of scalars. -/
theorem fromCanonicalBytes_eq_some_iff {bytes : Bytes 32} {s : Scalar} :
    fromCanonicalBytes bytes = some s ↔ toBytes s = bytes := by
  have hs : s.val < 256 ^ 32 := lt_trans (val_lt s) (by norm_num [groupOrder])
  rw [fromCanonicalBytes, toBytes, toLeBytes_eq_iff hs]
  split
  · rename_i h
    rw [Option.some_inj]
    constructor
    · rintro rfl
      exact ZMod.val_natCast_of_lt h
    · intro hval
      rw [← hval, ZMod.natCast_val, ZMod.cast_id]
  · rename_i h
    constructor
    · intro hnone
      cases hnone
    · intro hval
      exact absurd (hval ▸ val_lt s) h

end Scalar

/-! ## Field elements -/

/-- A coordinate. -/
abbrev FieldElement : Type := ZMod fieldPrime

/-- `d = -121665/121666`. -/
def edwardsD : FieldElement :=
  37095705934669439343138083508754565189542113879843219016388785533085940283555

/-- A field element is negative when its reduced representative is odd. -/
def FieldElement.IsNegative (a : FieldElement) : Prop :=
  a.val % 2 = 1

instance (a : FieldElement) : Decidable a.IsNegative := by
  unfold FieldElement.IsNegative
  infer_instance

theorem fieldPrime_lt : fieldPrime < 2 ^ 255 := by
  norm_num [fieldPrime]

theorem val_lt_two_pow (a : FieldElement) : a.val < 2 ^ 255 :=
  lt_trans (ZMod.val_lt a) fieldPrime_lt

theorem natCast_inj_of_lt {m n : Nat} (hm : m < fieldPrime) (hn : n < fieldPrime) :
    (m : FieldElement) = (n : FieldElement) ↔ m = n := by
  rw [ZMod.natCast_eq_natCast_iff', Nat.mod_eq_of_lt hm, Nat.mod_eq_of_lt hn]

/-! ## Compressed points -/

/-- `CompressedEdwardsY`. -/
abbrev CompressedEdwardsY : Type := Bytes 32

namespace CompressedEdwardsY

/-- The low 255 bits. -/
def yBits (b : CompressedEdwardsY) : Nat :=
  leNat b.toList % 2 ^ 255

/-- The top bit. -/
def signBit (b : CompressedEdwardsY) : Bool :=
  decide (2 ^ 255 ≤ leNat b.toList)

/-- `y` is reduced, and the sign bit is not set on a point with `x = 0`. -/
def Canonical (b : CompressedEdwardsY) : Prop :=
  b.yBits < fieldPrime ∧ ¬ (b.signBit = true ∧ (b.yBits = 1 ∨ b.yBits = fieldPrime - 1))

instance (b : CompressedEdwardsY) : Decidable b.Canonical := by
  unfold Canonical
  infer_instance

theorem yBits_lt (b : CompressedEdwardsY) : b.yBits < 2 ^ 255 :=
  Nat.mod_lt _ (by norm_num)

/-- An encoding is its low bits and its sign bit. -/
theorem leNat_eq (b : CompressedEdwardsY) :
    leNat b.toList = b.yBits + 2 ^ 255 * (if b.signBit then 1 else 0) := by
  have h := b.leNat_lt
  by_cases hsign : 2 ^ 255 ≤ leNat b.toList
  · simp only [yBits, signBit, hsign, decide_true, if_true]
    omega
  · simp only [yBits, signBit, hsign, decide_false, Bool.false_eq_true, if_false]
    omega

end CompressedEdwardsY

/-! ## The curve -/

/-- The interface of `EdwardsPoint`. -/
class EdwardsCurve (Point : Type) extends AddCommGroup Point where
  decidableEq : DecidableEq Point
  x : Point → FieldElement
  y : Point → FieldElement
  y_zero : y 0 = 1
  on_curve : ∀ P : Point, -(x P) ^ 2 + (y P) ^ 2 = 1 + edwardsD * (x P) ^ 2 * (y P) ^ 2
  /-- `CompressedEdwardsY::decompress`. -/
  decompress : CompressedEdwardsY → Option Point
  /-- `y` is read modulo `p` from the low 255 bits, and the sign bit negates the even root. -/
  decompress_eq_some_iff : ∀ {b : CompressedEdwardsY} {P : Point},
    decompress b = some P ↔ y P = (b.yBits : FieldElement) ∧
      (if b.signBit then (x P).IsNegative ∨ x P = 0 else ¬ (x P).IsNegative)
  /-- `ED25519_BASEPOINT_POINT`. -/
  basepoint : Point
  addOrderOf_basepoint : addOrderOf basepoint = groupOrder
  card_point : Nat.card Point = 8 * groupOrder

namespace EdwardsCurve

variable {Point : Type} [EdwardsCurve Point]

instance : DecidableEq Point := decidableEq

/-- `Scalar * EdwardsPoint`. -/
instance : SMul Scalar Point := ⟨scalarMul⟩

theorem smul_eq_scalarMul (s : Scalar) (P : Point) : s • P = scalarMul s P := rfl

theorem smul_eq_val_nsmul (s : Scalar) (P : Point) : s • P = s.val • P := rfl

/-- `EdwardsPoint::compress`. -/
def compress (P : Point) : CompressedEdwardsY :=
  toLeBytes 32 ((y P).val + 2 ^ 255 * ((x P).val % 2))

/-- `EdwardsPoint::to_montgomery`: `u = (1 + y) / (1 - y)`, and `0` at the identity. -/
def toMontgomery (P : Point) : Bytes 32 :=
  toLeBytes 32 ((1 + y P) * (1 - y P)⁻¹).val

/-! ### Encodings -/

theorem leNat_compress (P : Point) :
    leNat (compress P).toList = (y P).val + 2 ^ 255 * ((x P).val % 2) := by
  have hy := val_lt_two_pow (y P)
  exact leNat_toLeBytes_of_lt (by omega)

theorem yBits_compress (P : Point) : (compress P).yBits = (y P).val := by
  have hy := val_lt_two_pow (y P)
  rw [CompressedEdwardsY.yBits, leNat_compress]
  omega

theorem signBit_compress (P : Point) : (compress P).signBit = decide (x P).IsNegative := by
  have hy := val_lt_two_pow (y P)
  rw [CompressedEdwardsY.signBit, leNat_compress]
  apply decide_eq_decide.2
  unfold FieldElement.IsNegative
  omega

@[simp] theorem decompress_compress (P : Point) : decompress (compress P) = some P := by
  rw [decompress_eq_some_iff, yBits_compress, signBit_compress]
  refine ⟨by rw [ZMod.natCast_val, ZMod.cast_id], ?_⟩
  by_cases h : (x P).IsNegative <;> simp [h]

theorem compress_injective : Function.Injective (compress : Point → CompressedEdwardsY) := by
  intro P Q h
  have hP := decompress_compress P
  rw [h, decompress_compress] at hP
  exact (Option.some_inj.1 hP).symm

/-- Only the two points with `y = ±1` have `x = 0`. -/
theorem x_eq_zero_iff (P : Point) : x P = 0 ↔ y P = 1 ∨ y P = -1 := by
  have hcurve := on_curve P
  have hd : (1 + edwardsD : FieldElement) ≠ 0 := by
    decide +kernel
  constructor
  · intro hx
    rw [hx] at hcurve
    exact sq_eq_sq_iff_eq_or_eq_neg.1 (by linear_combination hcurve)
  · intro hy
    have hsq : y P ^ 2 = 1 := by
      rcases hy with hy | hy <;> rw [hy] <;> ring
    have hmul : (1 + edwardsD) * x P ^ 2 = 0 := by
      rw [hsq] at hcurve
      linear_combination -hcurve
    exact pow_eq_zero_iff (two_ne_zero) |>.1 ((mul_eq_zero.1 hmul).resolve_left hd)

/-- An accepted encoding is the one `compress` writes exactly when it is canonical. -/
theorem compress_eq_iff_canonical {b : CompressedEdwardsY} {P : Point}
    (h : decompress b = some P) : compress P = b ↔ b.Canonical := by
  obtain ⟨hy, hsign⟩ := decompress_eq_some_iff.1 h
  have hyval : (y P).val = b.yBits % fieldPrime := by
    rw [hy, ZMod.val_natCast]
  have hylt : (y P).val < fieldPrime := ZMod.val_lt _
  have hlt := val_lt_two_pow (y P)
  have hbits := b.yBits_lt
  -- the encodings agree when the reduced `y` and the parity of `x` are the ones written in `b`
  have hsplit : compress P = b ↔
      (y P).val = b.yBits ∧ (x P).val % 2 = if b.signBit then 1 else 0 := by
    have hb : leNat b.toList < 256 ^ 32 := b.leNat_lt
    rw [← toLeBytes_leNat b, compress, toLeBytes_eq_iff (by omega), toLeBytes_leNat, b.leNat_eq]
    split <;> omega
  have hreduced : (y P).val = b.yBits ↔ b.yBits < fieldPrime := by
    constructor
    · intro heq
      rwa [← heq]
    · intro hred
      rw [hyval, Nat.mod_eq_of_lt hred]
  rw [hsplit, CompressedEdwardsY.Canonical, hreduced]
  apply and_congr_right
  intro hred
  -- with a reduced `y`, the two points with `x = 0` are recognized by their low bits
  have hx : x P = 0 ↔ b.yBits = 1 ∨ b.yBits = fieldPrime - 1 := by
    have hp := fieldPrime_prime.one_lt
    have hone : (1 : FieldElement) = ((1 : Nat) : FieldElement) := Nat.cast_one.symm
    have hneg : (-1 : FieldElement) = ((fieldPrime - 1 : Nat) : FieldElement) := by
      rw [Nat.cast_sub hp.le, ZMod.natCast_self, zero_sub, Nat.cast_one]
    rw [x_eq_zero_iff, hy, hneg, hone, natCast_inj_of_lt hred hp,
      natCast_inj_of_lt hred (Nat.sub_lt (by omega) one_pos)]
  cases hb : b.signBit with
  | false =>
      simp only [hb, Bool.false_eq_true, if_false, false_and, not_false_eq_true, iff_true,
        FieldElement.IsNegative] at hsign ⊢
      omega
  | true =>
      simp only [hb, if_true, FieldElement.IsNegative, true_and, ← hx] at hsign ⊢
      constructor
      · intro hodd hzero
        rw [hzero, ZMod.val_zero] at hodd
        omega
      · intro hne
        exact hsign.resolve_right hne

/-! ### The group -/

theorem coprime_cofactor : Nat.Coprime 8 groupOrder := by
  decide +kernel

theorem nsmul_card (P : Point) : (8 * groupOrder) • P = 0 := by
  rw [← @card_point Point _]
  exact card_nsmul_eq_zero'

theorem torsionFree_basepoint : TorsionFree groupOrder (basepoint : Point) :=
  torsionFree_of_addOrderOf addOrderOf_basepoint

theorem basepoint_ne_zero : (basepoint : Point) ≠ 0 := by
  intro h
  have horder := @addOrderOf_basepoint Point _
  rw [h, addOrderOf_zero] at horder
  exact groupOrder_prime.one_lt.ne horder

theorem torsionFree_smul_basepoint (s : Scalar) :
    TorsionFree groupOrder (s • (basepoint : Point)) :=
  torsionFree_basepoint.scalarMul s

theorem smul_basepoint_eq_zero_iff {s : Scalar} : s • (basepoint : Point) = 0 ↔ s = 0 := by
  rw [smul_eq_scalarMul, torsionFree_basepoint.scalarMul_eq_zero_iff]
  simp [basepoint_ne_zero]

end EdwardsCurve

end StellarRecrypt
