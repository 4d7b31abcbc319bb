import Mathlib.Data.Nat.Bitwise
import StellarRecrypt.Lib.TwistedEdwards

/-!
# MontgomeryLadder — multiples of a point from one coordinate

A twisted Edwards curve is birational to a Montgomery curve through `u = (1 + y) / (1 - y)`.  The
ladder computes the `u` of a multiple from the `u` of the point alone, on fractions `u : z`: two
running multiples differ by the base point, one step doubles one of them and adds the two, and a
swap delayed by one bit chooses which.

`Projects` relates a fraction to the point it stands for.  Doubling preserves it for every point;
addition does so when the difference of the two points is neither the identity nor the point of
order two, which is what a base point with a finite nonzero `u` guarantees along the whole loop.
-/

namespace MontgomeryLadder

variable {F : Type} [Field F]

/-! ## The algorithm -/

/-- A fraction `u / z`. -/
structure Coord (F : Type) where
  u : F
  z : F

/-- The two running multiples, and the swap that the next step still has to make. -/
structure State (F : Type) where
  fst : Coord F
  snd : Coord F
  swap : Bool

/-- The constant of the doubling formula. -/
def a24 (C : TwistedEdwards F) : F :=
  C.d / (C.a - C.d)

/-- Twice a point. -/
def double (c24 : F) (p : Coord F) : Coord F :=
  let aa := (p.u + p.z) ^ 2
  let bb := (p.u - p.z) ^ 2
  let e := aa - bb
  { u := aa * bb
    z := e * (aa + c24 * e) }

/-- The sum of two points whose difference has coordinate `x₁`. -/
def diffAdd (x₁ : F) (p q : Coord F) : Coord F :=
  let da := (q.u - q.z) * (p.u + p.z)
  let cb := (q.u + q.z) * (p.u - p.z)
  { u := (da + cb) ^ 2
    z := x₁ * (da - cb) ^ 2 }

/-- The conditional swap. -/
def cswap {α : Type} (swap : Bool) (pair : α × α) : α × α :=
  if swap then (pair.2, pair.1) else pair

/-- One bit of the multiplier. -/
def step (c24 x₁ : F) (s : State F) (bit : Bool) : State F :=
  let pair := cswap (s.swap ^^ bit) (s.fst, s.snd)
  { fst := double c24 pair.1
    snd := diffAdd x₁ pair.1 pair.2
    swap := bit }

/-- The state before the first bit. -/
def start (x₁ : F) : State F :=
  { fst := ⟨1, 0⟩, snd := ⟨x₁, 1⟩, swap := false }

/-- The bits `t - 1, …, 0` of the multiplier. -/
def loop (c24 x₁ : F) (k : Nat) : Nat → State F → State F
  | 0, s => s
  | t + 1, s => loop c24 x₁ k t (step c24 x₁ s (k.testBit t))

/-- The multiple by the low `bits` bits of `k`. -/
def ladder (c24 x₁ : F) (bits k : Nat) : Coord F :=
  let s := loop c24 x₁ k bits (start x₁)
  (cswap s.swap (s.fst, s.snd)).1

/-! ## Fractions and points -/

variable {C : TwistedEdwards F}

/-- The fraction stands for the `u` of the point; it is `1 : 0` up to a factor at the identity. -/
def Projects (p : Coord F) (P : C.Point) : Prop :=
  ∃ k : F, k ≠ 0 ∧ p.u = k * (1 + P.y) ∧ p.z = k * (1 - P.y)

theorem projects_zero {k : F} (hk : k ≠ 0) : Projects ⟨k, 0⟩ (0 : C.Point) := by
  refine ⟨k / 2, div_ne_zero hk C.two_ne, ?_, ?_⟩
  · rw [TwistedEdwards.zero_y, one_add_one_eq_two, div_mul_cancel₀ k C.two_ne]
  · rw [TwistedEdwards.zero_y, sub_self, mul_zero]

/-- A fraction that is not `0 : 0` projects as soon as it is proportional. -/
theorem projects_of_mul_eq {p : Coord F} {P : C.Point} (hne : p.u ≠ 0 ∨ p.z ≠ 0)
    (h : p.u * (1 - P.y) = p.z * (1 + P.y)) : Projects p P := by
  have htwo := C.two_ne
  refine ⟨(p.u + p.z) / 2, ?_, ?_, ?_⟩
  · intro hsum
    have hneg : p.z = -p.u := by
      have hzero : p.u + p.z = 0 := by
        rwa [div_eq_zero_iff, or_iff_left htwo] at hsum
      linear_combination hzero
    -- with `z = -u` the proportion reads `2·u = 0`
    have hu : p.u = 0 := by
      have hdouble : 2 * p.u = 0 := by
        rw [hneg] at h
        linear_combination h
      exact (mul_eq_zero.1 hdouble).resolve_left htwo
    rw [hneg, hu, neg_zero] at hne
    exact hne.elim (fun h0 => h0 rfl) (fun h0 => h0 rfl)
  · field_simp
    linear_combination h
  · field_simp
    linear_combination -h

/-- The value of the fraction; inverses of zero are zero. -/
theorem Projects.value_eq {p : Coord F} {P : C.Point} (h : Projects p P) :
    p.u * p.z⁻¹ = (1 + P.y) * (1 - P.y)⁻¹ := by
  rcases h with ⟨k, hk, hu, hz⟩
  rw [hu, hz, mul_inv]
  field_simp

/-! ## Doubling -/

theorem a_sub_d_ne_zero : C.a - C.d ≠ 0 := by
  have h := TwistedEdwards.x_sq_denominator_ne_zero (C := C) 1
  rwa [one_pow, mul_one] at h

/-- The `y` of a double, in terms of `y` alone. -/
theorem double_y (P : C.Point) :
    (1 + (P + P).y) * (C.a - 2 * C.d * P.y ^ 2 + C.d * P.y ^ 4) =
        2 * P.y ^ 2 * (C.a - C.d) ∧
      (1 - (P + P).y) * (C.a - 2 * C.d * P.y ^ 2 + C.d * P.y ^ 4) =
        2 * (1 - P.y ^ 2) * (C.a - C.d * P.y ^ 2) ∧
      C.a - 2 * C.d * P.y ^ 2 + C.d * P.y ^ 4 ≠ 0 := by
  have hden := TwistedEdwards.one_sub_ne_zero P.on_curve P.on_curve
  have hsq := TwistedEdwards.x_sq_denominator_ne_zero (C := C) P.y
  have hcurve := P.on_curve
  unfold TwistedEdwards.OnCurve at hcurve
  have hy := TwistedEdwards.add_y P P
  have hfactor : C.a - 2 * C.d * P.y ^ 2 + C.d * P.y ^ 4 =
      (1 - C.d * P.x * P.x * P.y * P.y) * (C.a - C.d * P.y ^ 2) := by
    linear_combination C.d * P.y ^ 2 * hcurve
  have hmul : (P + P).y * (1 - C.d * P.x * P.x * P.y * P.y) =
      P.y * P.y - C.a * P.x * P.x := by
    rw [hy, div_mul_cancel₀ _ hden]
  have hne : C.a - 2 * C.d * P.y ^ 2 + C.d * P.y ^ 4 ≠ 0 := by
    rw [hfactor]
    exact mul_ne_zero hden hsq
  refine ⟨?_, ?_, hne⟩
  · rw [hfactor]
    linear_combination (C.a - C.d * P.y ^ 2) * hmul - (C.a + C.d * P.y ^ 2) * hcurve
  · rw [hfactor]
    linear_combination -(C.a - C.d * P.y ^ 2) * hmul + (C.a - C.d * P.y ^ 2) * hcurve

theorem Projects.double {p : Coord F} {P : C.Point} (h : Projects p P) :
    Projects (double (a24 C) p) (P + P) := by
  rcases h with ⟨k, hk, hu, hz⟩
  have htwo := C.two_ne
  have had := a_sub_d_ne_zero (C := C)
  rcases double_y P with ⟨hplus, hminus, hne⟩
  refine ⟨8 * k ^ 4 * (C.a - 2 * C.d * P.y ^ 2 + C.d * P.y ^ 4) / (C.a - C.d), ?_, ?_, ?_⟩
  · have height : (8 : F) ≠ 0 := by
      have h8 : (8 : F) = 2 ^ 3 := by norm_num
      rw [h8]
      exact pow_ne_zero 3 htwo
    exact div_ne_zero (mul_ne_zero (mul_ne_zero height (pow_ne_zero 4 hk)) hne) had
  · simp only [MontgomeryLadder.double, hu, hz]
    field_simp
    linear_combination -8 * hplus
  · simp only [MontgomeryLadder.double, a24, hu, hz]
    field_simp
    linear_combination -8 * hminus

/-! ## Adding two points of known difference -/

/-- The `y` of a sum and of a difference determine each other. -/
theorem diff_y (P Q : C.Point) :
    (1 + (P + Q).y) * (1 + (P - Q).y) * (P.y - Q.y) ^ 2 =
      (1 - (P + Q).y) * (1 - (P - Q).y) * (P.y + Q.y) ^ 2 := by
  have hminus := TwistedEdwards.one_sub_ne_zero P.on_curve Q.on_curve
  have hplus := TwistedEdwards.one_add_ne_zero P.on_curve Q.on_curve
  have hadd : (P + Q).y * (1 - C.d * P.x * Q.x * P.y * Q.y) = P.y * Q.y - C.a * P.x * Q.x := by
    rw [TwistedEdwards.add_y, div_mul_cancel₀ _ hminus]
  have hsub : (P - Q).y * (1 + C.d * P.x * Q.x * P.y * Q.y) = P.y * Q.y + C.a * P.x * Q.x := by
    have hden : 1 - C.d * P.x * (-Q).x * P.y * (-Q).y = 1 + C.d * P.x * Q.x * P.y * Q.y := by
      rw [TwistedEdwards.neg_x, TwistedEdwards.neg_y]
      ring
    rw [sub_eq_add_neg, TwistedEdwards.add_y, hden, div_mul_cancel₀ _ hplus, TwistedEdwards.neg_x,
      TwistedEdwards.neg_y]
    ring
  have hP := P.on_curve
  have hQ := Q.on_curve
  unfold TwistedEdwards.OnCurve at hP hQ
  -- the identity with both denominators cleared follows from the two curve equations
  have hcleared : ((1 + P.y * Q.y) ^ 2 - (C.d * P.x * Q.x * P.y * Q.y + C.a * P.x * Q.x) ^ 2) *
        (P.y - Q.y) ^ 2 =
      ((1 - P.y * Q.y) ^ 2 - (C.d * P.x * Q.x * P.y * Q.y - C.a * P.x * Q.x) ^ 2) *
        (P.y + Q.y) ^ 2 := by
    linear_combination 4 * P.y * Q.y * (1 - P.y ^ 2) * hQ +
      4 * P.y * Q.y * Q.x ^ 2 * (C.a - C.d * Q.y ^ 2) * hP
  have hdens : (1 - C.d * P.x * Q.x * P.y * Q.y) * (1 + C.d * P.x * Q.x * P.y * Q.y) ≠ 0 :=
    mul_ne_zero hminus hplus
  refine mul_left_cancel₀ hdens ?_
  generalize (P + Q).y = s at hadd
  generalize (P - Q).y = t at hsub
  have hone : (1 + s) * (1 - C.d * P.x * Q.x * P.y * Q.y) =
      1 - C.d * P.x * Q.x * P.y * Q.y + (P.y * Q.y - C.a * P.x * Q.x) := by
    linear_combination hadd
  have htwo : (1 + t) * (1 + C.d * P.x * Q.x * P.y * Q.y) =
      1 + C.d * P.x * Q.x * P.y * Q.y + (P.y * Q.y + C.a * P.x * Q.x) := by
    linear_combination hsub
  have hthree : (1 - s) * (1 - C.d * P.x * Q.x * P.y * Q.y) =
      1 - C.d * P.x * Q.x * P.y * Q.y - (P.y * Q.y - C.a * P.x * Q.x) := by
    linear_combination -hadd
  have hfour : (1 - t) * (1 + C.d * P.x * Q.x * P.y * Q.y) =
      1 + C.d * P.x * Q.x * P.y * Q.y - (P.y * Q.y + C.a * P.x * Q.x) := by
    linear_combination -hsub
  calc (1 - C.d * P.x * Q.x * P.y * Q.y) * (1 + C.d * P.x * Q.x * P.y * Q.y) *
        ((1 + s) * (1 + t) * (P.y - Q.y) ^ 2)
      = ((1 + s) * (1 - C.d * P.x * Q.x * P.y * Q.y)) *
          ((1 + t) * (1 + C.d * P.x * Q.x * P.y * Q.y)) * (P.y - Q.y) ^ 2 := by
        ring
    _ = ((1 + P.y * Q.y) ^ 2 - (C.d * P.x * Q.x * P.y * Q.y + C.a * P.x * Q.x) ^ 2) *
          (P.y - Q.y) ^ 2 := by
        rw [hone, htwo]
        ring
    _ = ((1 - P.y * Q.y) ^ 2 - (C.d * P.x * Q.x * P.y * Q.y - C.a * P.x * Q.x) ^ 2) *
          (P.y + Q.y) ^ 2 := hcleared
    _ = ((1 - s) * (1 - C.d * P.x * Q.x * P.y * Q.y)) *
          ((1 - t) * (1 + C.d * P.x * Q.x * P.y * Q.y)) * (P.y + Q.y) ^ 2 := by
        rw [hthree, hfour]
        ring
    _ = (1 - C.d * P.x * Q.x * P.y * Q.y) * (1 + C.d * P.x * Q.x * P.y * Q.y) *
          ((1 - s) * (1 - t) * (P.y + Q.y) ^ 2) := by
        ring

/-- Two points with `y = 0` differ by the identity or by the point of order two. -/
theorem sub_y_of_y_eq_zero {P Q : C.Point} (hP : P.y = 0) (hQ : Q.y = 0) :
    (P - Q).y = 1 ∨ (P - Q).y = -1 := by
  have hcurve := Q.on_curve
  unfold TwistedEdwards.OnCurve at hcurve
  have hy : (P - Q).y = C.a * P.x * Q.x := by
    rw [sub_eq_add_neg, TwistedEdwards.add_y, TwistedEdwards.neg_x, TwistedEdwards.neg_y, hP, hQ]
    ring
  have hone : C.a * Q.x ^ 2 = 1 := by
    rw [hQ] at hcurve
    linear_combination hcurve
  rcases TwistedEdwards.x_eq_or_eq_neg_of_y_eq (hP.trans hQ.symm) with hx | hx
  · left
    rw [hy, hx]
    linear_combination hone
  · right
    rw [hy, hx]
    linear_combination -hone

theorem Projects.diffAdd {p q : Coord F} {P Q : C.Point} {x₁ : F} (hp : Projects p P)
    (hq : Projects q Q) (hx₁ : x₁ * (1 - (P - Q).y) = 1 + (P - Q).y)
    (hone : (P - Q).y ≠ 1) (hneg : (P - Q).y ≠ -1) : Projects (diffAdd x₁ p q) (P + Q) := by
  rcases hp with ⟨k, hk, hpu, hpz⟩
  rcases hq with ⟨l, hl, hqu, hqz⟩
  have htwo := C.two_ne
  have hu : (MontgomeryLadder.diffAdd x₁ p q).u = 16 * (k * l) ^ 2 * (P.y + Q.y) ^ 2 := by
    simp only [MontgomeryLadder.diffAdd, hpu, hpz, hqu, hqz]
    ring
  have hz : (MontgomeryLadder.diffAdd x₁ p q).z =
      x₁ * (16 * (k * l) ^ 2 * (P.y - Q.y) ^ 2) := by
    simp only [MontgomeryLadder.diffAdd, hpu, hpz, hqu, hqz]
    ring
  have hscale : 16 * (k * l) ^ 2 ≠ 0 := by
    have h16 : (16 : F) = 2 ^ 4 := by norm_num
    rw [h16]
    exact mul_ne_zero (pow_ne_zero 4 htwo) (pow_ne_zero 2 (mul_ne_zero hk hl))
  have hminus : 1 - (P - Q).y ≠ 0 := sub_ne_zero.2 hone.symm
  have hx₁ne : x₁ ≠ 0 := by
    rintro rfl
    apply hneg
    linear_combination -hx₁
  refine projects_of_mul_eq ?_ ?_
  · rw [hu, hz]
    by_contra hzero
    rw [not_or, not_not, not_not] at hzero
    have hsum : P.y + Q.y = 0 :=
      pow_eq_zero_iff two_ne_zero |>.1 ((mul_eq_zero.1 hzero.1).resolve_left hscale)
    have hdiff : P.y - Q.y = 0 :=
      pow_eq_zero_iff two_ne_zero |>.1
        ((mul_eq_zero.1 ((mul_eq_zero.1 hzero.2).resolve_left hx₁ne)).resolve_left hscale)
    -- then both `y` vanish, and the difference is one of the two excluded points
    have hP : P.y = 0 := by
      have hdouble : 2 * P.y = 0 := by
        linear_combination hsum + hdiff
      exact (mul_eq_zero.1 hdouble).resolve_left htwo
    have hQ : Q.y = 0 := by
      rwa [hP, zero_add] at hsum
    exact (sub_y_of_y_eq_zero hP hQ).elim hone hneg
  · rw [hu, hz]
    refine mul_left_cancel₀ hminus ?_
    have hy := diff_y P Q
    linear_combination 16 * (k * l) ^ 2 * (-hy) -
      16 * (k * l) ^ 2 * (P.y - Q.y) ^ 2 * (1 + (P + Q).y) * hx₁

/-! ## The loop -/

/-- A base point with a finite nonzero coordinate. -/
structure Finite (x₁ : F) (B : C.Point) : Prop where
  mul_eq : x₁ * (1 - B.y) = 1 + B.y
  y_ne_one : B.y ≠ 1
  y_ne_neg_one : B.y ≠ -1

/-- Once the delayed swap is made, the state holds two consecutive multiples. -/
def Tracks (s : State F) (B : C.Point) (m : Nat) : Prop :=
  Projects (cswap s.swap (s.fst, s.snd)).1 (m • B) ∧
    Projects (cswap s.swap (s.fst, s.snd)).2 ((m + 1) • B)

theorem cswap_xor {α : Type} (s t : Bool) (pair : α × α) :
    cswap (s ^^ t) pair = cswap t (cswap s pair) := by
  cases s <;> cases t <;> rfl

variable {x₁ : F} {B : C.Point}

theorem tracks_start (hB : Finite x₁ B) : Tracks (start x₁) B 0 := by
  constructor
  · rw [zero_nsmul]
    exact projects_zero one_ne_zero
  · rw [zero_add, one_nsmul]
    refine projects_of_mul_eq (Or.inr one_ne_zero) ?_
    have h : x₁ * (1 - B.y) = 1 * (1 + B.y) := by
      rw [one_mul, hB.mul_eq]
    exact h

theorem tracks_step (hB : Finite x₁ B) {s : State F} {m : Nat} (hs : Tracks s B m) (bit : Bool) :
    Tracks (step (a24 C) x₁ s bit) B (2 * m + bit.toNat) := by
  rw [Tracks] at hs
  simp only [Tracks, step, cswap_xor]
  generalize cswap s.swap (s.fst, s.snd) = pair at hs
  rcases pair with ⟨p, q⟩
  rcases hs with ⟨hp, hq⟩
  have hsum : ∀ i j n : Nat, i + j = n → i • B + j • B = n • B := by
    rintro i j n rfl
    exact (add_nsmul B i j).symm
  have hpred : m • B - (m + 1) • B = -B := by
    rw [add_nsmul, one_nsmul, sub_add_cancel_left]
  have hsucc : (m + 1) • B - m • B = B := by
    rw [add_nsmul, one_nsmul, add_sub_cancel_left]
  cases bit with
  | false =>
      -- the multiples `2m` and `2m + 1`
      have hdouble := hp.double
      rw [hsum m m (2 * m + false.toNat) (by simp; omega)] at hdouble
      have hadd : Projects (diffAdd x₁ p q) (m • B + (m + 1) • B) :=
        hp.diffAdd hq (by rw [hpred]; exact hB.mul_eq) (by rw [hpred]; exact hB.y_ne_one)
          (by rw [hpred]; exact hB.y_ne_neg_one)
      rw [hsum m (m + 1) (2 * m + false.toNat + 1) (by simp; omega)] at hadd
      exact ⟨hdouble, hadd⟩
  | true =>
      -- the multiples `2m + 2` and `2m + 1`, in this order until the next swap
      have hdouble := hq.double
      rw [hsum (m + 1) (m + 1) (2 * m + true.toNat + 1) (by simp; omega)] at hdouble
      have hadd : Projects (diffAdd x₁ q p) ((m + 1) • B + m • B) :=
        hq.diffAdd hp (by rw [hsucc]; exact hB.mul_eq) (by rw [hsucc]; exact hB.y_ne_one)
          (by rw [hsucc]; exact hB.y_ne_neg_one)
      rw [hsum (m + 1) m (2 * m + true.toNat) (by simp; omega)] at hadd
      exact ⟨hadd, hdouble⟩

theorem tracks_loop (hB : Finite x₁ B) (k : Nat) {t : Nat} {s : State F} {m : Nat}
    (hs : Tracks s B m) : Tracks (loop (a24 C) x₁ k t s) B (m * 2 ^ t + k % 2 ^ t) := by
  induction t generalizing s m with
  | zero =>
      have hm : m * 2 ^ 0 + k % 2 ^ 0 = m := by
        rw [pow_zero, mul_one, Nat.mod_one, add_zero]
      rw [hm]
      exact hs
  | succ t ih =>
      have hstep := ih (tracks_step hB hs (k.testBit t))
      have hm : (2 * m + (k.testBit t).toNat) * 2 ^ t + k % 2 ^ t =
          m * 2 ^ (t + 1) + k % 2 ^ (t + 1) := by
        rw [Nat.mod_pow_succ, Nat.toNat_testBit]
        ring
      rw [hm] at hstep
      exact hstep

/-- The ladder computes the multiple by the bits it reads. -/
theorem projects_ladder (hB : Finite x₁ B) (bits k : Nat) :
    Projects (ladder (a24 C) x₁ bits k) ((k % 2 ^ bits) • B) := by
  have h := (tracks_loop hB k (t := bits) (tracks_start hB)).1
  rwa [zero_mul, zero_add] at h

/-! ## The base coordinate zero -/

/-- Both fractions are infinite. -/
def Infinite (s : State F) : Prop :=
  s.fst.z = 0 ∧ s.snd.z = 0

/-- A step from fractions that are zero or infinite. -/
theorem infinite_step {c24 : F} {s : State F} (hfst : s.fst.u * s.fst.z = 0)
    (hsnd : s.snd.u * s.snd.z = 0) (bit : Bool) : Infinite (step c24 0 s bit) := by
  have hdouble : ∀ p : Coord F, p.u * p.z = 0 → (double c24 p).z = 0 := by
    intro p hp
    have he : (p.u + p.z) ^ 2 - (p.u - p.z) ^ 2 = 0 := by
      linear_combination 4 * hp
    simp only [double, he, zero_mul]
  have hadd : ∀ p q : Coord F, (diffAdd 0 p q).z = 0 := fun p q => zero_mul _
  refine ⟨?_, hadd _ _⟩
  simp only [step, cswap]
  split
  · exact hdouble _ hsnd
  · exact hdouble _ hfst

theorem infinite_loop {c24 : F} (k : Nat) {t : Nat} {s : State F} (hs : Infinite s) :
    Infinite (loop c24 0 k t s) := by
  induction t generalizing s with
  | zero => exact hs
  | succ t ih =>
      exact ih (infinite_step (by rw [hs.1, mul_zero]) (by rw [hs.2, mul_zero]) _)

theorem ladder_zero_z (c24 : F) (bits k : Nat) : (ladder c24 0 bits k).z = 0 := by
  cases bits with
  | zero => rfl
  | succ t =>
      have hfirst : Infinite (step c24 0 (start 0) (k.testBit t)) :=
        infinite_step (mul_zero _) (zero_mul _) _
      have h : Infinite (loop c24 0 k t (step c24 0 (start 0) (k.testBit t))) :=
        infinite_loop k hfirst
      rw [ladder, loop]
      generalize loop c24 0 k t (step c24 0 (start 0) (k.testBit t)) = s at h
      rcases s with ⟨fst, snd, swap⟩
      cases swap with
      | false => exact h.1
      | true => exact h.2

/-! ## Every point -/

/-- The multiples of a point with `y² = 1` have `y² = 1`. -/
theorem nsmul_y_sq {P : C.Point} (hP : P.y ^ 2 = 1) (n : Nat) : (n • P).y ^ 2 = 1 := by
  have hx : P.x = 0 := by
    have hcurve := P.on_curve
    unfold TwistedEdwards.OnCurve at hcurve
    have hmul : (C.a - C.d) * P.x ^ 2 = 0 := by
      linear_combination hcurve + (C.d * P.x ^ 2 - 1) * hP
    exact pow_eq_zero_iff two_ne_zero |>.1 ((mul_eq_zero.1 hmul).resolve_left a_sub_d_ne_zero)
  induction n with
  | zero => rw [zero_nsmul, TwistedEdwards.zero_y, one_pow]
  | succ n ih =>
      have hy : ((n + 1) • P).y = (n • P).y * P.y := by
        rw [add_nsmul, one_nsmul, TwistedEdwards.add_y, hx]
        simp
      rw [hy, mul_pow, ih, hP, one_mul]

/-- The `u` of a point with `y² = 1`, as the inverse of zero is zero. -/
theorem u_eq_zero_of_y_sq {y : F} (hy : y ^ 2 = 1) : (1 + y) * (1 - y)⁻¹ = 0 := by
  rcases sq_eq_sq_iff_eq_or_eq_neg.1 (hy.trans (one_pow 2).symm) with rfl | rfl
  · rw [sub_self, inv_zero, mul_zero]
  · rw [add_neg_cancel, zero_mul]

/-- The value of the ladder, for every point of the curve. -/
theorem ladder_value (B : C.Point) (bits k : Nat) :
    (ladder (a24 C) ((1 + B.y) * (1 - B.y)⁻¹) bits k).u *
        (ladder (a24 C) ((1 + B.y) * (1 - B.y)⁻¹) bits k).z⁻¹ =
      (1 + ((k % 2 ^ bits) • B).y) * (1 - ((k % 2 ^ bits) • B).y)⁻¹ := by
  by_cases hy : B.y ^ 2 = 1
  · rw [u_eq_zero_of_y_sq hy, u_eq_zero_of_y_sq (nsmul_y_sq hy _), ladder_zero_z, inv_zero,
      mul_zero]
  · have hone : B.y ≠ 1 := by
      intro h
      exact hy (by rw [h, one_pow])
    have hneg : B.y ≠ -1 := by
      intro h
      exact hy (by rw [h, neg_one_sq])
    refine (projects_ladder ⟨?_, hone, hneg⟩ bits k).value_eq
    rw [mul_assoc, inv_mul_cancel₀ (sub_ne_zero.2 hone.symm), mul_one]

end MontgomeryLadder
