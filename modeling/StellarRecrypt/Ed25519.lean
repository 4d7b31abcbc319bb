import Mathlib.GroupTheory.Coset.Card
import StellarRecrypt.Dalek
import StellarRecrypt.Lib.EdwardsProjective
import StellarRecrypt.Lib.SquareRoot

/-!
# Ed25519 — the curve itself

The interface `EdwardsCurve` is met by the curve `-x² + y² = 1 + d·x²·y²` over the field of
`2^255 - 19` elements: its group, the decompression of the library, the basepoint, and the order of
the group.  The order is not computed by counting.  The basepoint has order `L` and another point
has order eight, which the kernel checks by scalar multiplication; there are at most `2p` points,
so no larger multiple of `8·L` fits.
-/

namespace StellarRecrypt

namespace Ed25519

open ByteString
open Pratt
open TwistedEdwards

/-! ## The curve -/

/-- `SQRT_M1`. -/
def sqrtM1 : FieldElement :=
  19681161376707505956807079304988542015446066515923890162744021073123829784752

theorem sqrtM1_sq : sqrtM1 ^ 2 = -1 := by
  decide +kernel

/-- `d`, as a literal for the kernel. -/
def edwardsDNat : Nat :=
  37095705934669439343138083508754565189542113879843219016388785533085940283555

theorem natCast_edwardsDNat : (edwardsDNat : FieldElement) = edwardsD := by
  decide +kernel

theorem not_isSquare_edwardsD : ¬ IsSquare edwardsD := by
  have hne : edwardsD ≠ 0 := by
    decide +kernel
  have hpow : powMod edwardsDNat fieldPrime 256 (fieldPrime / 2) ≠ 1 := by
    decide +kernel
  have hexp : fieldPrime / 2 < 2 ^ 256 := by
    norm_num [fieldPrime]
  intro hsquare
  have hone := (ZMod.euler_criterion fieldPrime hne).1 hsquare
  have hcast := powMod_cast edwardsDNat fieldPrime hexp
  rw [natCast_edwardsDNat, hone] at hcast
  have hlt : powMod edwardsDNat fieldPrime 256 (fieldPrime / 2) < fieldPrime := by
    rw [powMod_eq _ _ hexp]
    exact Nat.mod_lt _ fieldPrime_prime.pos
  refine hpow ((natCast_inj_of_lt hlt fieldPrime_prime.one_lt).1 ?_)
  rw [hcast, Nat.cast_one]

/-- The curve of Ed25519. -/
def curve : TwistedEdwards FieldElement where
  a := -1
  d := edwardsD
  two_ne := by decide +kernel
  a_ne_zero := by decide +kernel
  isSquare_a := ⟨sqrtM1, by rw [← pow_two, sqrtM1_sq]⟩
  not_isSquare_d := not_isSquare_edwardsD

/-- A point of the curve. -/
abbrev Point : Type := curve.Point

/-! ## Decompression -/

/-- The even one of two opposite roots. -/
def evenRoot (r : FieldElement) : FieldElement :=
  if r.IsNegative then -r else r

/-- A root of the `x²` the curve equation gives for `y`. -/
def xRoot (y : FieldElement) : Option FieldElement :=
  SquareRoot.sqrt? 256 sqrtM1 ((1 - y ^ 2) / (curve.a - curve.d * y ^ 2))

/-- Every point's `y` has a root, which is its `x` up to sign. -/
theorem exists_xRoot (P : Point) : ∃ r, xRoot P.y = some r ∧ P.x ^ 2 = r ^ 2 := by
  have hsq := onCurve_iff.1 P.on_curve
  have hmod : fieldPrime % 8 = 5 := by
    decide +kernel
  have hfuel : fieldPrime < 2 ^ 256 := by
    norm_num [fieldPrime]
  have hsquare : IsSquare ((1 - P.y ^ 2) / (curve.a - curve.d * P.y ^ 2)) :=
    ⟨P.x, by rw [← hsq, pow_two]⟩
  rcases SquareRoot.exists_sqrt? hmod hfuel sqrtM1_sq hsquare with ⟨r, hr⟩
  exact ⟨r, hr, by rw [hsq, SquareRoot.sq_of_sqrt? hr]⟩

-- the root of a symbolic `y` is a power with a 252-bit exponent, never to be unfolded
attribute [irreducible] xRoot

/-- The coordinate with the sign bit asked for. -/
def signedRoot (sign : Bool) (r : FieldElement) : FieldElement :=
  if sign then -evenRoot r else evenRoot r

/-- The point of a `y`, a root and a sign bit. -/
def pointFrom (sign : Bool) (y r : FieldElement) : Option Point :=
  if h : curve.OnCurve (signedRoot sign r) y then
    some { x := signedRoot sign r, y := y, on_curve := h }
  else none

/-- `CompressedEdwardsY::decompress`. -/
def decompress (b : CompressedEdwardsY) : Option Point :=
  (xRoot b.yBits).bind (pointFrom b.signBit b.yBits)

theorem pointFrom_coordinates {sign : Bool} {y r : FieldElement} {P : Point}
    (h : pointFrom sign y r = some P) : P.x = signedRoot sign r ∧ P.y = y := by
  rw [pointFrom] at h
  split at h
  · cases h
    exact ⟨rfl, rfl⟩
  · cases h

theorem isNegative_neg_iff {a : FieldElement} (ha : a ≠ 0) :
    (-a).IsNegative ↔ ¬ a.IsNegative := by
  have hlt : a.val < fieldPrime := ZMod.val_lt a
  have hodd : fieldPrime % 2 = 1 := by
    decide +kernel
  unfold FieldElement.IsNegative
  rw [ZMod.neg_val, if_neg ha]
  omega

theorem not_isNegative_evenRoot (r : FieldElement) : ¬ (evenRoot r).IsNegative := by
  rw [evenRoot]
  split
  · rename_i hneg
    have hne : r ≠ 0 := by
      rintro rfl
      revert hneg
      decide +kernel
    rw [isNegative_neg_iff hne]
    exact not_not.2 hneg
  · assumption

theorem evenRoot_sq (r : FieldElement) : evenRoot r ^ 2 = r ^ 2 := by
  rw [evenRoot]
  split
  · exact neg_sq r
  · rfl

theorem signedRoot_spec (sign : Bool) (r : FieldElement) :
    if sign then (signedRoot sign r).IsNegative ∨ signedRoot sign r = 0
    else ¬ (signedRoot sign r).IsNegative := by
  have heven := not_isNegative_evenRoot r
  cases sign with
  | false => simpa [signedRoot] using heven
  | true =>
      by_cases hzero : evenRoot r = 0
      · right
        simp [signedRoot, hzero]
      · left
        simpa [signedRoot] using (isNegative_neg_iff hzero).2 heven

/-- A coordinate is fixed by its square and its sign bit. -/
theorem eq_signedRoot {x r : FieldElement} {sign : Bool} (hsq : x ^ 2 = r ^ 2)
    (hx : if sign then x.IsNegative ∨ x = 0 else ¬ x.IsNegative) : x = signedRoot sign r := by
  rw [← evenRoot_sq r] at hsq
  have hr := not_isNegative_evenRoot r
  rw [signedRoot]
  generalize evenRoot r = q at hsq hr
  by_cases hq : q = 0
  · have hx0 : x = 0 := by
      rwa [hq, zero_pow two_ne_zero, pow_eq_zero_iff two_ne_zero] at hsq
    cases sign <;> simp [hx0, hq]
  have hneg := (isNegative_neg_iff hq).2 hr
  cases sign with
  | false =>
      simp only [Bool.false_eq_true, if_false] at hx ⊢
      rcases sq_eq_sq_iff_eq_or_eq_neg.1 hsq with rfl | rfl
      · rfl
      · exact absurd hneg hx
  | true =>
      simp only [if_true] at hx ⊢
      rcases sq_eq_sq_iff_eq_or_eq_neg.1 hsq with rfl | rfl
      · rcases hx with hx | hx
        · exact absurd hx hr
        · exact absurd hx hq
      · rfl

theorem decompress_eq_some_iff {b : CompressedEdwardsY} {P : Point} :
    decompress b = some P ↔ P.y = (b.yBits : FieldElement) ∧
      (if b.signBit then P.x.IsNegative ∨ P.x = 0 else ¬ P.x.IsNegative) := by
  rw [decompress, Option.bind_eq_some_iff]
  constructor
  · rintro ⟨r, _, hP⟩
    rcases pointFrom_coordinates hP with ⟨hx, hy⟩
    rw [hx]
    exact ⟨hy, signedRoot_spec b.signBit r⟩
  · rintro ⟨hy, hx⟩
    rcases exists_xRoot P with ⟨r, hr, hsq⟩
    have hcoord := eq_signedRoot hsq hx
    have hcurve : curve.OnCurve (signedRoot b.signBit r) P.y := by
      rw [← hcoord]
      exact P.on_curve
    rw [← hy]
    refine ⟨r, hr, ?_⟩
    rw [pointFrom, dif_pos hcurve, Option.some_inj]
    exact Point.ext hcoord.symm rfl

/-! ## Two points of known order -/

/-- `ED25519_BASEPOINT_POINT`. -/
def basepoint : Point where
  x := 15112221349535400772501151409588531511454012693041857206046113283949847762202
  y := 46316835694926478169428394003475163141307993866256225615783033603165251855960
  on_curve := by
    unfold OnCurve curve
    decide +kernel

/-- `EIGHT_TORSION[1]`, up to sign. -/
def eightTorsion : Point where
  x := 14399317868200118260347934320527232580618823971194345261214217575416788799818
  y := 55188659117513257062467267217118295137698188065244968500265048394206261417927
  on_curve := by
    unfold OnCurve curve
    decide +kernel

/-- The point of order two. -/
def twoTorsion : Point where
  x := 0
  y := -1
  on_curve := by
    unfold OnCurve curve
    decide +kernel

/-- The coordinates of the basepoint, as literals for the kernel. -/
def basepointX : Nat :=
  15112221349535400772501151409588531511454012693041857206046113283949847762202

def basepointY : Nat :=
  46316835694926478169428394003475163141307993866256225615783033603165251855960

theorem natCast_basepointX : (basepointX : FieldElement) = basepoint.x := by
  decide +kernel

theorem natCast_basepointY : (basepointY : FieldElement) = basepoint.y := by
  decide +kernel

/-- The multiple of the point with the given coordinates, on projective coordinates. -/
def multiple (x y fuel n : Nat) : Triple :=
  Triple.smul fieldPrime (fieldPrime - 1) edwardsDNat ⟨x, y, 1⟩ fuel n

section Multiples

variable {P : Point} {x y fuel n : Nat}

theorem represents_multiple (hx : (x : FieldElement) = P.x) (hy : (y : FieldElement) = P.y)
    (hn : n < 2 ^ fuel) : Represents (multiple x y fuel n) (n • P) := by
  have ha : ((fieldPrime - 1 : Nat) : FieldElement) = curve.a := by
    rw [Nat.cast_sub fieldPrime_prime.one_lt.le, ZMod.natCast_self, zero_sub, Nat.cast_one]
    rfl
  exact (represents_affine hx hy).smul ha natCast_edwardsDNat hn

theorem nsmul_eq_zero (hx : (x : FieldElement) = P.x) (hy : (y : FieldElement) = P.y)
    (hn : n < 2 ^ fuel)
    (hzero : (multiple x y fuel n).x % fieldPrime = 0 ∧
      (multiple x y fuel n).y % fieldPrime = (multiple x y fuel n).z % fieldPrime) :
    n • P = 0 := by
  refine (represents_multiple hx hy hn).eq_zero ?_ ?_
  · rw [← ZMod.natCast_mod, hzero.1, Nat.cast_zero]
  · rw [← ZMod.natCast_mod, hzero.2, ZMod.natCast_mod]

theorem nsmul_ne_zero (hx : (x : FieldElement) = P.x) (hy : (y : FieldElement) = P.y)
    (hn : n < 2 ^ fuel)
    (hne : (multiple x y fuel n).y % fieldPrime ≠ (multiple x y fuel n).z % fieldPrime) :
    n • P ≠ 0 :=
  (represents_multiple hx hy hn).ne_zero fun h => hne ((ZMod.natCast_eq_natCast_iff' _ _ _).1 h)

end Multiples

theorem addOrderOf_basepoint : addOrderOf basepoint = groupOrder := by
  refine addOrderOf_eq_prime ?_ ?_
  · have hn : groupOrder < 2 ^ 253 := by
      norm_num [groupOrder]
    exact nsmul_eq_zero natCast_basepointX natCast_basepointY hn (by decide +kernel)
  · have hn : 1 < 2 ^ 1 := by
      norm_num
    rw [← one_nsmul basepoint]
    exact nsmul_ne_zero natCast_basepointX natCast_basepointY hn (by decide +kernel)

theorem addOrderOf_eightTorsion : addOrderOf eightTorsion = 8 := by
  have hx : ((14399317868200118260347934320527232580618823971194345261214217575416788799818 : Nat) :
      FieldElement) = eightTorsion.x := by
    decide +kernel
  have hy : ((55188659117513257062467267217118295137698188065244968500265048394206261417927 : Nat) :
      FieldElement) = eightTorsion.y := by
    decide +kernel
  refine addOrderOf_eq_prime_pow (p := 2) (n := 2) ?_ ?_
  · have hn : 2 ^ 2 < 2 ^ 4 := by
      norm_num
    exact nsmul_ne_zero hx hy hn (by decide +kernel)
  · have hn : 2 ^ (2 + 1) < 2 ^ 4 := by
      norm_num
    exact nsmul_eq_zero hx hy hn (by decide +kernel)

/-- A multiple of the point of order two is the identity or the point. -/
theorem nsmul_twoTorsion (n : Nat) : n • twoTorsion = if n % 2 = 0 then 0 else twoTorsion := by
  have hx : ((0 : Nat) : FieldElement) = twoTorsion.x := by
    decide +kernel
  have hy : ((fieldPrime - 1 : Nat) : FieldElement) = twoTorsion.y := by
    decide +kernel
  have htwo : 2 • twoTorsion = 0 := by
    have hn : 2 < 2 ^ 2 := by
      norm_num
    exact nsmul_eq_zero hx hy hn (by decide +kernel)
  have hsplit : n • twoTorsion = (n % 2) • twoTorsion := by
    calc n • twoTorsion = (n % 2 + 2 * (n / 2)) • twoTorsion := by rw [Nat.mod_add_div]
      _ = (n % 2) • twoTorsion := by rw [add_nsmul, mul_nsmul, htwo, nsmul_zero, add_zero]
  rw [hsplit]
  split
  · rename_i heven
    rw [heven, zero_nsmul]
  · rename_i hodd
    rw [Nat.mod_two_ne_zero.1 hodd, one_nsmul]

/-! ## The order of the group -/

/-- What an encoding keeps of a point. -/
def signature (P : Point) : FieldElement × Bool :=
  (P.y, decide P.x.IsNegative)

theorem signature_injective : Function.Injective signature := by
  intro P Q h
  have hy : P.y = Q.y := congrArg Prod.fst h
  have hsign : P.x.IsNegative ↔ Q.x.IsNegative := decide_eq_decide.1 (congrArg Prod.snd h)
  refine Point.ext ?_ hy
  rcases x_eq_or_eq_neg_of_y_eq hy with hx | hx
  · exact hx
  · by_cases hzero : Q.x = 0
    · rw [hx, hzero, neg_zero]
    · rw [hx, isNegative_neg_iff hzero] at hsign
      exact absurd hsign not_iff_self

instance : Finite Point :=
  Finite.of_injective signature signature_injective

theorem card_point_le : Nat.card Point ≤ 2 * fieldPrime := by
  calc Nat.card Point
      ≤ Nat.card (FieldElement × Bool) := Nat.card_le_card_of_injective _ signature_injective
    _ = 2 * fieldPrime := by
        rw [Nat.card_prod, Nat.card_zmod, Nat.card_eq_fintype_card, Fintype.card_bool, mul_comm]

theorem card_point : Nat.card Point = 8 * groupOrder := by
  have h8 : 8 ∣ Nat.card Point := addOrderOf_eightTorsion ▸ addOrderOf_dvd_natCard eightTorsion
  have hL : groupOrder ∣ Nat.card Point :=
    addOrderOf_basepoint ▸ addOrderOf_dvd_natCard basepoint
  have hcop : Nat.Coprime 8 groupOrder := by
    decide +kernel
  rcases hcop.mul_dvd_of_dvd_of_dvd h8 hL with ⟨k, hk⟩
  have hpos : 0 < Nat.card Point := Nat.card_pos
  have hle := card_point_le
  rw [hk] at hpos hle
  -- twice the order would already exceed `2p`
  have hbound : 2 * fieldPrime < 8 * groupOrder * 2 := by
    norm_num [fieldPrime, groupOrder]
  have hk1 : k = 1 := by
    have hlt : k < 2 := Nat.lt_of_mul_lt_mul_left (Nat.lt_of_le_of_lt hle hbound)
    have hk0 : 0 < k := Nat.pos_of_mul_pos_left hpos
    omega
  rw [hk, hk1, Nat.mul_one]

/-- The curve meets the interface the model is written against. -/
instance : EdwardsCurve Point where
  decidableEq := inferInstance
  x := TwistedEdwards.Point.x
  y := TwistedEdwards.Point.y
  y_zero := rfl
  on_curve := fun P => by
    have h : -1 * P.x ^ 2 + P.y ^ 2 = 1 + edwardsD * P.x ^ 2 * P.y ^ 2 := P.on_curve
    rwa [neg_one_mul] at h
  decompress := decompress
  decompress_eq_some_iff := decompress_eq_some_iff
  basepoint := basepoint
  addOrderOf_basepoint := addOrderOf_basepoint
  card_point := card_point

/-- The encoding of a multiple of the basepoint, from its coordinates. -/
theorem compress_nsmul_basepoint {n x y : Nat} (hn : n < 2 ^ 253) (hx : x < fieldPrime)
    (hy : y < fieldPrime)
    (h : (multiple basepointX basepointY 253 n).HasAffine fieldPrime x y) :
    EdwardsCurve.compress (n • (EdwardsCurve.basepoint : Point)) =
      toLeBytes 32 (y + 2 ^ 255 * (x % 2)) := by
  have hcoord := (represents_multiple natCast_basepointX natCast_basepointY hn).coordinates h
  have hxval : (EdwardsCurve.x (n • (EdwardsCurve.basepoint : Point))).val = x := by
    rw [← ZMod.val_natCast_of_lt hx]
    exact congrArg ZMod.val hcoord.1
  have hyval : (EdwardsCurve.y (n • (EdwardsCurve.basepoint : Point))).val = y := by
    rw [← ZMod.val_natCast_of_lt hy]
    exact congrArg ZMod.val hcoord.2
  rw [EdwardsCurve.compress, hxval, hyval]

end Ed25519

end StellarRecrypt
