import Mathlib.Algebra.Field.Basic
import Mathlib.Algebra.Group.Even
import Mathlib.Algebra.Group.Basic
import Mathlib.Tactic.FieldSimp
import Mathlib.Tactic.LinearCombination
import Mathlib.Tactic.Ring

/-!
# TwistedEdwards — the group of a complete twisted Edwards curve

Points of `a·x² + y² = 1 + d·x²·y²` over a field, for a nonzero square `a` and a nonsquare `d`.
Under these two conditions the addition law has no exceptional case: its denominators never
vanish.  The module proves that the points form a commutative group and that `y` determines a
point up to sign, which is what a compressed encoding rests on.
-/

/-- The coefficients of a twisted Edwards curve whose addition law is complete. -/
structure TwistedEdwards (F : Type) [Field F] where
  a : F
  d : F
  two_ne : (2 : F) ≠ 0
  a_ne_zero : a ≠ 0
  isSquare_a : IsSquare a
  not_isSquare_d : ¬ IsSquare d

namespace TwistedEdwards

variable {F : Type} [Field F] (C : TwistedEdwards F)

/-- The curve equation. -/
def OnCurve (x y : F) : Prop :=
  C.a * x ^ 2 + y ^ 2 = 1 + C.d * x ^ 2 * y ^ 2

instance [DecidableEq F] (x y : F) : Decidable (C.OnCurve x y) := by
  unfold OnCurve
  infer_instance

/-- An affine point of the curve. -/
@[ext] structure Point where
  x : F
  y : F
  on_curve : C.OnCurve x y

instance [DecidableEq F] : DecidableEq C.Point := fun P Q =>
  decidable_of_iff (P.x = Q.x ∧ P.y = Q.y) (by rw [Point.ext_iff])

variable {C}

/-! ## The denominators never vanish -/

section Denominators

variable {x₁ y₁ x₂ y₂ : F}

/-- If `d·x₁x₂y₁y₂` were a square root of one, the two linear forms below would make `d` a
square. -/
private theorem linear_form_sq {w i : F} (hi : C.a = i * i) (hw : w = C.d * x₁ * x₂ * y₁ * y₂)
    (hone : w ^ 2 = 1) (h₁ : C.OnCurve x₁ y₁) (h₂ : C.OnCurve x₂ y₂) :
    (y₁ + w * i * x₁) ^ 2 = C.d * (x₁ * y₁ * (y₂ + i * x₂)) ^ 2 := by
  unfold OnCurve at h₁ h₂
  grind

theorem product_sq_ne_one (h₁ : C.OnCurve x₁ y₁) (h₂ : C.OnCurve x₂ y₂) :
    (C.d * x₁ * x₂ * y₁ * y₂) ^ 2 ≠ 1 := by
  intro hone
  obtain ⟨i, hi⟩ := C.isSquare_a
  have hne : C.d * x₁ * x₂ * y₁ * y₂ ≠ 0 := by
    intro h0
    rw [h0, zero_pow two_ne_zero] at hone
    exact zero_ne_one hone
  simp only [mul_ne_zero_iff] at hne
  obtain ⟨⟨⟨⟨_, hx₁⟩, hx₂⟩, hy₁⟩, hy₂⟩ := hne
  -- a nonvanishing right factor exhibits `d` as a square
  have hsquare : ∀ j : F, C.a = j * j → y₂ + j * x₂ ≠ 0 → False := by
    intro j hj hform
    have h := linear_form_sq hj rfl hone h₁ h₂
    have hfactor : x₁ * y₁ * (y₂ + j * x₂) ≠ 0 := mul_ne_zero (mul_ne_zero hx₁ hy₁) hform
    apply C.not_isSquare_d
    refine ⟨(y₁ + C.d * x₁ * x₂ * y₁ * y₂ * j * x₁) / (x₁ * y₁ * (y₂ + j * x₂)), ?_⟩
    rw [div_mul_div_comm, ← pow_two, h, ← pow_two, mul_div_assoc, div_self (pow_ne_zero 2 hfactor),
      mul_one]
  by_cases hplus : y₂ + i * x₂ = 0
  · apply hsquare (-i) (by rw [hi, neg_mul_neg])
    intro hminus
    have htwo : 2 * y₂ = 0 := by
      calc
        2 * y₂ = (y₂ + i * x₂) + (y₂ + -i * x₂) := by ring
        _ = 0 := by rw [hplus, hminus, add_zero]
    exact (mul_ne_zero C.two_ne hy₂) htwo
  · exact hsquare i hi hplus

theorem one_add_ne_zero (h₁ : C.OnCurve x₁ y₁) (h₂ : C.OnCurve x₂ y₂) :
    1 + C.d * x₁ * x₂ * y₁ * y₂ ≠ 0 := by
  intro h
  apply product_sq_ne_one h₁ h₂
  have hw : C.d * x₁ * x₂ * y₁ * y₂ = -1 := by
    rw [← sub_eq_zero, ← h]
    ring
  rw [hw, neg_one_sq]

theorem one_sub_ne_zero (h₁ : C.OnCurve x₁ y₁) (h₂ : C.OnCurve x₂ y₂) :
    1 - C.d * x₁ * x₂ * y₁ * y₂ ≠ 0 := by
  intro h
  apply product_sq_ne_one h₁ h₂
  rw [← sub_eq_zero.1 h, one_pow]

end Denominators

/-! ## The addition law -/

/-- The sum of two points of the curve is on the curve, with denominators cleared. -/
private theorem closure {a d x₁ y₁ x₂ y₂ : F} (h₁ : a * x₁ ^ 2 + y₁ ^ 2 = 1 + d * x₁ ^ 2 * y₁ ^ 2)
    (h₂ : a * x₂ ^ 2 + y₂ ^ 2 = 1 + d * x₂ ^ 2 * y₂ ^ 2) :
    a * ((x₁ * y₂ + y₁ * x₂) * (1 - d * x₁ * x₂ * y₁ * y₂)) ^ 2 +
        ((y₁ * y₂ - a * x₁ * x₂) * (1 + d * x₁ * x₂ * y₁ * y₂)) ^ 2 =
      ((1 + d * x₁ * x₂ * y₁ * y₂) * (1 - d * x₁ * x₂ * y₁ * y₂)) ^ 2 +
        d * ((x₁ * y₂ + y₁ * x₂) * (y₁ * y₂ - a * x₁ * x₂)) ^ 2 := by
  grind

theorem onCurve_add {x₁ y₁ x₂ y₂ : F} (h₁ : C.OnCurve x₁ y₁) (h₂ : C.OnCurve x₂ y₂) :
    C.OnCurve ((x₁ * y₂ + y₁ * x₂) / (1 + C.d * x₁ * x₂ * y₁ * y₂))
      ((y₁ * y₂ - C.a * x₁ * x₂) / (1 - C.d * x₁ * x₂ * y₁ * y₂)) := by
  have hplus := one_add_ne_zero h₁ h₂
  have hminus := one_sub_ne_zero h₁ h₂
  have h := closure h₁ h₂
  unfold OnCurve
  generalize 1 + C.d * x₁ * x₂ * y₁ * y₂ = D at *
  generalize 1 - C.d * x₁ * x₂ * y₁ * y₂ = E at *
  field_simp
  linear_combination h

instance : Zero C.Point :=
  ⟨⟨0, 1, by simp [OnCurve]⟩⟩

instance : Neg C.Point :=
  ⟨fun P => ⟨-P.x, P.y, by simpa [OnCurve] using P.on_curve⟩⟩

instance : Add C.Point :=
  ⟨fun P Q =>
    { x := (P.x * Q.y + P.y * Q.x) / (1 + C.d * P.x * Q.x * P.y * Q.y)
      y := (P.y * Q.y - C.a * P.x * Q.x) / (1 - C.d * P.x * Q.x * P.y * Q.y)
      on_curve := onCurve_add P.on_curve Q.on_curve }⟩

@[simp] theorem zero_x : (0 : C.Point).x = 0 := rfl
@[simp] theorem zero_y : (0 : C.Point).y = 1 := rfl
@[simp] theorem neg_x (P : C.Point) : (-P).x = -P.x := rfl
@[simp] theorem neg_y (P : C.Point) : (-P).y = P.y := rfl

theorem add_x (P Q : C.Point) :
    (P + Q).x = (P.x * Q.y + P.y * Q.x) / (1 + C.d * P.x * Q.x * P.y * Q.y) := rfl

theorem add_y (P Q : C.Point) :
    (P + Q).y = (P.y * Q.y - C.a * P.x * Q.x) / (1 - C.d * P.x * Q.x * P.y * Q.y) := rfl

/-! ## Associativity -/

section Assoc

variable {a d x₁ y₁ x₂ y₂ x₃ y₃ : F}

/-- Associativity of the first coordinate, with denominators cleared. -/
private theorem assoc_x (h₁ : a * x₁ ^ 2 + y₁ ^ 2 = 1 + d * x₁ ^ 2 * y₁ ^ 2)
    (h₂ : a * x₂ ^ 2 + y₂ ^ 2 = 1 + d * x₂ ^ 2 * y₂ ^ 2)
    (h₃ : a * x₃ ^ 2 + y₃ ^ 2 = 1 + d * x₃ ^ 2 * y₃ ^ 2) :
    ((x₁ * y₂ + y₁ * x₂) * (1 - d * x₁ * x₂ * y₁ * y₂) * y₃ +
          (y₁ * y₂ - a * x₁ * x₂) * (1 + d * x₁ * x₂ * y₁ * y₂) * x₃) *
        ((1 + d * x₂ * x₃ * y₂ * y₃) * (1 - d * x₂ * x₃ * y₂ * y₃) +
          d * x₁ * (x₂ * y₃ + y₂ * x₃) * y₁ * (y₂ * y₃ - a * x₂ * x₃)) =
      (x₁ * (y₂ * y₃ - a * x₂ * x₃) * (1 + d * x₂ * x₃ * y₂ * y₃) +
          y₁ * (x₂ * y₃ + y₂ * x₃) * (1 - d * x₂ * x₃ * y₂ * y₃)) *
        ((1 + d * x₁ * x₂ * y₁ * y₂) * (1 - d * x₁ * x₂ * y₁ * y₂) +
          d * (x₁ * y₂ + y₁ * x₂) * x₃ * (y₁ * y₂ - a * x₁ * x₂) * y₃) := by
  grind

/-- Associativity of the second coordinate, with denominators cleared. -/
private theorem assoc_y (h₁ : a * x₁ ^ 2 + y₁ ^ 2 = 1 + d * x₁ ^ 2 * y₁ ^ 2)
    (h₂ : a * x₂ ^ 2 + y₂ ^ 2 = 1 + d * x₂ ^ 2 * y₂ ^ 2)
    (h₃ : a * x₃ ^ 2 + y₃ ^ 2 = 1 + d * x₃ ^ 2 * y₃ ^ 2) :
    ((y₁ * y₂ - a * x₁ * x₂) * (1 + d * x₁ * x₂ * y₁ * y₂) * y₃ -
          a * (x₁ * y₂ + y₁ * x₂) * (1 - d * x₁ * x₂ * y₁ * y₂) * x₃) *
        ((1 + d * x₂ * x₃ * y₂ * y₃) * (1 - d * x₂ * x₃ * y₂ * y₃) -
          d * x₁ * (x₂ * y₃ + y₂ * x₃) * y₁ * (y₂ * y₃ - a * x₂ * x₃)) =
      (y₁ * (y₂ * y₃ - a * x₂ * x₃) * (1 + d * x₂ * x₃ * y₂ * y₃) -
          a * x₁ * (x₂ * y₃ + y₂ * x₃) * (1 - d * x₂ * x₃ * y₂ * y₃)) *
        ((1 + d * x₁ * x₂ * y₁ * y₂) * (1 - d * x₁ * x₂ * y₁ * y₂) -
          d * (x₁ * y₂ + y₁ * x₂) * x₃ * (y₁ * y₂ - a * x₁ * x₂) * y₃) := by
  grind

end Assoc

/-- The denominators of a sum of fractions, cleared: `x` coordinate. -/
private theorem add_x_clear {n m D E x y d : F} (hD : D ≠ 0) (hE : E ≠ 0) :
    (n / D * y + m / E * x) / (1 + d * (n / D) * x * (m / E) * y) =
      (n * E * y + m * D * x) / (D * E + d * n * x * m * y) := by
  have hnum : n / D * y + m / E * x = (n * E * y + m * D * x) / (D * E) := by
    field_simp
  have hden : 1 + d * (n / D) * x * (m / E) * y = (D * E + d * n * x * m * y) / (D * E) := by
    field_simp
  rw [hnum, hden, div_div_div_cancel_right₀ (mul_ne_zero hD hE)]

/-- The denominators of a sum of fractions, cleared: `y` coordinate. -/
private theorem add_y_clear {n m D E x y a d : F} (hD : D ≠ 0) (hE : E ≠ 0) :
    (m / E * y - a * (n / D) * x) / (1 - d * (n / D) * x * (m / E) * y) =
      (m * D * y - a * n * E * x) / (D * E - d * n * x * m * y) := by
  have hnum : m / E * y - a * (n / D) * x = (m * D * y - a * n * E * x) / (D * E) := by
    field_simp
  have hden : 1 - d * (n / D) * x * (m / E) * y = (D * E - d * n * x * m * y) / (D * E) := by
    field_simp
  rw [hnum, hden, div_div_div_cancel_right₀ (mul_ne_zero hD hE)]

/-- A sum on the left, as one fraction with a nonvanishing denominator. -/
private theorem add_add_coords (P Q R : C.Point) :
    let N := P.x * Q.y + P.y * Q.x
    let M := P.y * Q.y - C.a * P.x * Q.x
    let D := 1 + C.d * P.x * Q.x * P.y * Q.y
    let E := 1 - C.d * P.x * Q.x * P.y * Q.y
    (D * E + C.d * N * R.x * M * R.y ≠ 0 ∧ D * E - C.d * N * R.x * M * R.y ≠ 0) ∧
      (P + Q + R).x = (N * E * R.y + M * D * R.x) / (D * E + C.d * N * R.x * M * R.y) ∧
        (P + Q + R).y =
          (M * D * R.y - C.a * N * E * R.x) / (D * E - C.d * N * R.x * M * R.y) := by
  intro N M D E
  have hD : D ≠ 0 := one_add_ne_zero P.on_curve Q.on_curve
  have hE : E ≠ 0 := one_sub_ne_zero P.on_curve Q.on_curve
  have hx : (P + Q).x = N / D := add_x P Q
  have hy : (P + Q).y = M / E := add_y P Q
  have hplus := one_add_ne_zero (P + Q).on_curve R.on_curve
  have hminus := one_sub_ne_zero (P + Q).on_curve R.on_curve
  rw [hx, hy] at hplus hminus
  refine ⟨⟨?_, ?_⟩, ?_, ?_⟩
  · have hclear : D * E + C.d * N * R.x * M * R.y =
        D * E * (1 + C.d * (N / D) * R.x * (M / E) * R.y) := by
      field_simp
    rw [hclear]
    exact mul_ne_zero (mul_ne_zero hD hE) hplus
  · have hclear : D * E - C.d * N * R.x * M * R.y =
        D * E * (1 - C.d * (N / D) * R.x * (M / E) * R.y) := by
      field_simp
    rw [hclear]
    exact mul_ne_zero (mul_ne_zero hD hE) hminus
  · rw [add_x (P + Q) R, hx, hy, add_x_clear hD hE]
  · rw [add_y (P + Q) R, hx, hy, add_y_clear hD hE]

private theorem add_comm' (P Q : C.Point) : P + Q = Q + P := by
  ext
  · rw [add_x, add_x]
    congr 1 <;> ring
  · rw [add_y, add_y]
    congr 1 <;> ring

private theorem add_assoc' (P Q R : C.Point) : P + Q + R = P + (Q + R) := by
  rw [add_comm' P (Q + R), add_comm' Q R]
  obtain ⟨⟨hl, hl'⟩, hlx, hly⟩ := add_add_coords P Q R
  obtain ⟨⟨hr, hr'⟩, hrx, hry⟩ := add_add_coords R Q P
  ext
  · rw [hlx, hrx, div_eq_div_iff hl hr]
    linear_combination assoc_x P.on_curve Q.on_curve R.on_curve
  · rw [hly, hry, div_eq_div_iff hl' hr']
    linear_combination assoc_y P.on_curve Q.on_curve R.on_curve

private theorem zero_add' (P : C.Point) : 0 + P = P := by
  ext <;> simp [add_x, add_y]

private theorem neg_add_cancel' (P : C.Point) : -P + P = 0 := by
  have hden := one_sub_ne_zero (-P).on_curve P.on_curve
  ext
  · rw [add_x, neg_x, neg_y, zero_x, show -P.x * P.y + P.y * P.x = 0 by ring, zero_div]
  · rw [add_y, zero_y, div_eq_one_iff_eq hden]
    have h := P.on_curve
    unfold OnCurve at h
    rw [neg_x, neg_y]
    linear_combination h

instance : AddCommGroup C.Point where
  add_assoc := add_assoc'
  zero_add := zero_add'
  add_zero P := by rw [add_comm', zero_add']
  neg_add_cancel := neg_add_cancel'
  add_comm := add_comm'
  nsmul := nsmulRec
  zsmul := zsmulRec

/-! ## The second coordinate determines a point up to sign -/

theorem x_sq_denominator_ne_zero (y : F) : C.a - C.d * y ^ 2 ≠ 0 := by
  intro h
  obtain ⟨i, hi⟩ := C.isSquare_a
  have hy : y ≠ 0 := by
    rintro rfl
    exact C.a_ne_zero (by simpa using h)
  apply C.not_isSquare_d
  refine ⟨i / y, ?_⟩
  have hd : C.d * y ^ 2 = i ^ 2 := by
    linear_combination hi - h
  rw [div_mul_div_comm, eq_div_iff (mul_ne_zero hy hy)]
  linear_combination hd

/-- The curve equation solved for `x²`. -/
theorem onCurve_iff {x y : F} :
    C.OnCurve x y ↔ x ^ 2 = (1 - y ^ 2) / (C.a - C.d * y ^ 2) := by
  rw [eq_div_iff (x_sq_denominator_ne_zero y), OnCurve]
  constructor
  · intro h
    linear_combination h
  · intro h
    linear_combination h

theorem x_eq_or_eq_neg_of_y_eq {P Q : C.Point} (h : P.y = Q.y) : P.x = Q.x ∨ P.x = -Q.x := by
  have hP := onCurve_iff.1 P.on_curve
  have hQ := onCurve_iff.1 Q.on_curve
  exact sq_eq_sq_iff_eq_or_eq_neg.1 (by rw [hP, hQ, h])

end TwistedEdwards
