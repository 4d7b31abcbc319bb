import Mathlib.Algebra.Field.ZMod
import StellarRecrypt.Lib.ByteString
import StellarRecrypt.Lib.TwistedEdwards

/-!
# EdwardsProjective — division-free multiples of a point, evaluated on natural numbers

A multiple of a point is computed on projective coordinates: no inversion, and only products and
sums of natural numbers modulo `p`, which the kernel evaluates directly.  `Represents` relates a
triple of numbers to the point it stands for; addition and scalar multiplication preserve it.
-/

namespace TwistedEdwards

open ByteString

/-- Projective coordinates `(x : y : z)`, as natural numbers. -/
structure Triple where
  x : Nat
  y : Nat
  z : Nat
  deriving DecidableEq

namespace Triple

/-- Complete projective addition for coefficients `a` and `d` modulo `p`. -/
def add (p a d : Nat) (t u : Triple) : Triple :=
  force (t.z * u.z % p) fun zz =>
  force (t.x * u.x % p) fun xx =>
  force (t.y * u.y % p) fun yy =>
  force (zz * zz % p) fun b =>
  force (d * (xx * yy) % p) fun e =>
  force ((b + (p - e)) % p) fun f =>
  force ((b + e) % p) fun g =>
    { x := zz * f * (t.x * u.y + t.y * u.x) % p
      y := zz * g * (yy + (p - a * xx % p)) % p
      z := f * g % p }

/-- The neutral element. -/
def zero : Triple :=
  { x := 0, y := 1, z := 1 }

/-- Twice a point. -/
def double (p a d : Nat) (t : Triple) : Triple :=
  match t with
  | ⟨x, y, z⟩ => force x fun x => force y fun y => force z fun z => add p a d ⟨x, y, z⟩ ⟨x, y, z⟩

/-- The multiple by `n`, for `n` of at most `fuel` bits. -/
def smul (p a d : Nat) (t : Triple) : Nat → Nat → Triple
  | 0, _ => zero
  | fuel + 1, n =>
      if n % 2 = 1 then
        add p a d t (double p a d (smul p a d t fuel (n / 2)))
      else
        double p a d (smul p a d t fuel (n / 2))

end Triple

variable {p : Nat} [Fact p.Prime] {C : TwistedEdwards (ZMod p)}

/-- The triple stands for the point. -/
def Represents (t : Triple) (P : C.Point) : Prop :=
  (t.z : ZMod p) ≠ 0 ∧ (t.x : ZMod p) = P.x * t.z ∧ (t.y : ZMod p) = P.y * t.z

theorem represents_zero : Represents Triple.zero (0 : C.Point) := by
  simp [Represents, Triple.zero]

/-- Affine coordinates stand for their point. -/
theorem represents_affine {P : C.Point} {x y : Nat} (hx : (x : ZMod p) = P.x)
    (hy : (y : ZMod p) = P.y) : Represents ⟨x, y, 1⟩ P := by
  simp [Represents, hx, hy]

private theorem cast_sub_mod {n : Nat} :
    ((p - n % p : Nat) : ZMod p) = -(n : ZMod p) := by
  have hle : n % p ≤ p := (Nat.mod_lt n (Fact.out : p.Prime).pos).le
  rw [Nat.cast_sub hle, ZMod.natCast_self, ZMod.natCast_mod, zero_sub]

theorem Represents.add {a d : Nat} (ha : (a : ZMod p) = C.a) (hd : (d : ZMod p) = C.d)
    {t u : Triple} {P Q : C.Point} (ht : Represents t P) (hu : Represents u Q) :
    Represents (Triple.add p a d t u) (P + Q) := by
  obtain ⟨htz, htx, hty⟩ := ht
  obtain ⟨huz, hux, huy⟩ := hu
  have hplus := one_add_ne_zero P.on_curve Q.on_curve
  have hminus := one_sub_ne_zero P.on_curve Q.on_curve
  -- the two factors of the new denominator, in affine terms
  have hf : ((t.z * u.z % p * (t.z * u.z % p) % p +
        (p - d * (t.x * u.x % p * (t.y * u.y % p)) % p) : Nat) : ZMod p) =
      (t.z * u.z) ^ 2 * (1 - C.d * P.x * Q.x * P.y * Q.y) := by
    rw [Nat.cast_add, cast_sub_mod]
    simp only [Nat.cast_mul, ZMod.natCast_mod, htx, hty, hux, huy, hd]
    ring
  have hg : ((t.z * u.z % p * (t.z * u.z % p) % p +
        d * (t.x * u.x % p * (t.y * u.y % p)) % p : Nat) : ZMod p) =
      (t.z * u.z) ^ 2 * (1 + C.d * P.x * Q.x * P.y * Q.y) := by
    simp only [Nat.cast_add, Nat.cast_mul, ZMod.natCast_mod, htx, hty, hux, huy, hd]
    ring
  have hy : ((t.y * u.y % p + (p - a * (t.x * u.x % p) % p) : Nat) : ZMod p) =
      t.z * u.z * (P.y * Q.y - C.a * P.x * Q.x) := by
    rw [Nat.cast_add, cast_sub_mod]
    simp only [Nat.cast_mul, ZMod.natCast_mod, htx, hty, hux, huy, ha]
    ring
  simp only [Represents, Triple.add, force_eq, ZMod.natCast_mod, Nat.cast_mul, add_x, add_y]
  rw [hf, hg, hy]
  refine ⟨?_, ?_, ?_⟩
  · exact mul_ne_zero (mul_ne_zero (pow_ne_zero 2 (mul_ne_zero htz huz)) hminus)
      (mul_ne_zero (pow_ne_zero 2 (mul_ne_zero htz huz)) hplus)
  · rw [div_mul_eq_mul_div, eq_div_iff hplus]
    simp only [Nat.cast_add, Nat.cast_mul, htx, hty, hux, huy]
    ring
  · rw [div_mul_eq_mul_div, eq_div_iff hminus]
    ring

theorem Represents.double {a d : Nat} (ha : (a : ZMod p) = C.a) (hd : (d : ZMod p) = C.d)
    {t : Triple} {P : C.Point} (ht : Represents t P) :
    Represents (Triple.double p a d t) (P + P) := by
  simpa only [Triple.double, force_eq] using ht.add ha hd ht

/-- The computed triple stands for the multiple. -/
theorem Represents.smul {a d : Nat} (ha : (a : ZMod p) = C.a) (hd : (d : ZMod p) = C.d)
    {t : Triple} {P : C.Point} (ht : Represents t P) {fuel n : Nat} (hn : n < 2 ^ fuel) :
    Represents (Triple.smul p a d t fuel n) (n • P) := by
  induction fuel generalizing n with
  | zero =>
      have h0 : n = 0 := by omega
      simpa [Triple.smul, h0] using represents_zero
  | succ fuel ih =>
      have hhalf : n / 2 < 2 ^ fuel := by
        rw [pow_succ] at hn
        omega
      have hdouble := (ih hhalf).double ha hd
      rw [← two_nsmul, ← mul_nsmul'] at hdouble
      rw [Triple.smul]
      split
      · rename_i hodd
        have hsplit : n • P = P + (2 * (n / 2)) • P := by
          rw [← succ_nsmul']
          congr 1
          omega
        rw [hsplit]
        exact ht.add ha hd hdouble
      · rename_i heven
        have hsplit : 2 * (n / 2) = n := by omega
        rwa [hsplit] at hdouble

/-- A triple on the `y` axis with `y = z` stands for the neutral element only. -/
theorem Represents.eq_zero {t : Triple} {P : C.Point} (ht : Represents t P)
    (hx : (t.x : ZMod p) = 0) (hy : (t.y : ZMod p) = t.z) : P = 0 := by
  obtain ⟨htz, htx, hty⟩ := ht
  ext
  · exact (mul_eq_zero.1 (htx.symm.trans hx)).resolve_right htz
  · exact mul_right_cancel₀ htz (by rw [← hty, hy, zero_y, one_mul])

theorem Represents.ne_zero {t : Triple} {P : C.Point} (ht : Represents t P)
    (hy : (t.y : ZMod p) ≠ t.z) : P ≠ 0 := by
  rintro rfl
  exact hy (by rw [ht.2.2, zero_y, one_mul])

/-- The triple has these affine coordinates, modulo `p`. -/
def Triple.HasAffine (p : Nat) (t : Triple) (x y : Nat) : Prop :=
  t.x % p = x * t.z % p ∧ t.y % p = y * t.z % p

instance (t : Triple) (x y : Nat) : Decidable (t.HasAffine p x y) := by
  unfold Triple.HasAffine
  infer_instance

theorem Represents.coordinates {t : Triple} {P : C.Point} (ht : Represents t P) {x y : Nat}
    (h : t.HasAffine p x y) : P.x = x ∧ P.y = y := by
  obtain ⟨htz, htx, hty⟩ := ht
  have hx : (t.x : ZMod p) = x * t.z := by
    exact_mod_cast (ZMod.natCast_eq_natCast_iff' t.x (x * t.z) p).2 h.1
  have hy : (t.y : ZMod p) = y * t.z := by
    exact_mod_cast (ZMod.natCast_eq_natCast_iff' t.y (y * t.z) p).2 h.2
  exact ⟨mul_right_cancel₀ htz (htx.symm.trans hx), mul_right_cancel₀ htz (hty.symm.trans hy)⟩

end TwistedEdwards
