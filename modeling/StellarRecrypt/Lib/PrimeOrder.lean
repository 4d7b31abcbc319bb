import Mathlib.Algebra.Field.ZMod
import Mathlib.GroupTheory.OrderOfElement
import Mathlib.Tactic.LinearCombination

/-!
# PrimeOrder — residues modulo a prime acting on a larger commutative group

A library for a prime-order group usually works inside a group of order `c·q`: scalars are residues
modulo `q`, and a scalar multiplies a point through its representative in `[0, q)`.  That action is
a module action on the points killed by `q` only.  On the other points it is additive in the point
but neither additive nor multiplicative in the scalar.

Points killed by `q` are called torsion free here, as the libraries call them.
-/

namespace PrimeOrder

variable {G : Type} [AddCommGroup G] {q : Nat}

/-- The multiple of a point by the representative of a residue. -/
def scalarMul (s : ZMod q) (P : G) : G :=
  s.val • P

/-- The point lies in the subgroup killed by `q`. -/
def TorsionFree (q : Nat) (P : G) : Prop :=
  q • P = 0

instance [DecidableEq G] (P : G) : Decidable (TorsionFree q P) := by
  unfold TorsionFree
  infer_instance

/-! ## Additivity in the point, for every point -/

@[simp] theorem scalarMul_zero_point (s : ZMod q) : scalarMul s (0 : G) = 0 :=
  nsmul_zero _

@[simp] theorem zero_scalarMul (P : G) : scalarMul (0 : ZMod q) P = 0 := by
  simp [scalarMul]

theorem one_scalarMul [Fact (1 < q)] (P : G) : scalarMul (1 : ZMod q) P = P := by
  simp [scalarMul, ZMod.val_one]

theorem scalarMul_add (s : ZMod q) (P Q : G) :
    scalarMul s (P + Q) = scalarMul s P + scalarMul s Q :=
  nsmul_add _ _ _

/-! ## Torsion-free points -/

theorem TorsionFree.add {P Q : G} (hP : TorsionFree q P) (hQ : TorsionFree q Q) :
    TorsionFree q (P + Q) := by
  unfold TorsionFree at *
  rw [nsmul_add, hP, hQ, add_zero]

theorem TorsionFree.nsmul {P : G} (hP : TorsionFree q P) (n : Nat) : TorsionFree q (n • P) := by
  unfold TorsionFree at *
  rw [smul_comm, hP, nsmul_zero]

theorem TorsionFree.scalarMul {P : G} (hP : TorsionFree q P) (s : ZMod q) :
    TorsionFree q (scalarMul s P) :=
  hP.nsmul s.val

theorem torsionFree_of_addOrderOf {P : G} (hP : addOrderOf P = q) : TorsionFree q P := by
  unfold TorsionFree
  rw [← hP]
  exact addOrderOf_nsmul_eq_zero P

/-- On a torsion-free point a multiple only depends on the factor modulo `q`. -/
theorem TorsionFree.nsmul_eq_of_modEq {P : G} (hP : TorsionFree q P) {m n : Nat}
    (h : m ≡ n [MOD q]) : m • P = n • P := by
  rw [nsmul_eq_nsmul_iff_modEq]
  exact h.of_dvd (addOrderOf_dvd_iff_nsmul_eq_zero.2 hP)

theorem TorsionFree.natCast_scalarMul {P : G} (hP : TorsionFree q P) (n : Nat) :
    PrimeOrder.scalarMul (n : ZMod q) P = n • P := by
  rw [PrimeOrder.scalarMul, ZMod.val_natCast]
  exact hP.nsmul_eq_of_modEq (Nat.mod_modEq n q)

theorem TorsionFree.add_scalarMul [NeZero q] {P : G} (hP : TorsionFree q P) (s t : ZMod q) :
    PrimeOrder.scalarMul (s + t) P = PrimeOrder.scalarMul s P + PrimeOrder.scalarMul t P := by
  rw [PrimeOrder.scalarMul, ZMod.val_add, hP.nsmul_eq_of_modEq (Nat.mod_modEq _ q), add_nsmul]
  rfl

theorem TorsionFree.mul_scalarMul {P : G} (hP : TorsionFree q P) (s t : ZMod q) :
    PrimeOrder.scalarMul (s * t) P = PrimeOrder.scalarMul s (PrimeOrder.scalarMul t P) := by
  rw [PrimeOrder.scalarMul, ZMod.val_mul, hP.nsmul_eq_of_modEq (Nat.mod_modEq _ q), mul_nsmul']
  rfl

section Prime

variable [Fact q.Prime]

theorem TorsionFree.addOrderOf {P : G} (hP : TorsionFree q P) (h0 : P ≠ 0) :
    addOrderOf P = q :=
  addOrderOf_eq_prime hP h0

theorem TorsionFree.scalarMul_eq_zero_iff {P : G} (hP : TorsionFree q P) {s : ZMod q} :
    PrimeOrder.scalarMul s P = 0 ↔ s = 0 ∨ P = 0 := by
  constructor
  · intro h
    by_cases h0 : P = 0
    · exact Or.inr h0
    · left
      have hdvd := addOrderOf_dvd_iff_nsmul_eq_zero.2 h
      rw [hP.addOrderOf h0] at hdvd
      exact (ZMod.val_eq_zero s).1 (Nat.eq_zero_of_dvd_of_lt hdvd (ZMod.val_lt s))
  · rintro (rfl | rfl)
    · exact zero_scalarMul P
    · exact scalarMul_zero_point s

/-- A nonzero scalar acts injectively on torsion-free points. -/
theorem TorsionFree.scalarMul_right_inj {P Q : G} (hP : TorsionFree q P) (hQ : TorsionFree q Q)
    {s : ZMod q} (hs : s ≠ 0) :
    PrimeOrder.scalarMul s P = PrimeOrder.scalarMul s Q ↔ P = Q := by
  constructor
  · intro h
    have hinv : ∀ {R : G}, TorsionFree q R →
        PrimeOrder.scalarMul s⁻¹ (PrimeOrder.scalarMul s R) = R := by
      intro R hR
      have : Fact (1 < q) := ⟨(Fact.out : q.Prime).one_lt⟩
      rw [← hR.mul_scalarMul, inv_mul_cancel₀ hs, one_scalarMul]
    rw [← hinv hP, h, hinv hQ]
  · rintro rfl
    rfl

end Prime

/-! ## The whole group -/

section Cofactor

variable {c : Nat}

/-- A point killed by the cofactor and by `q` is the identity. -/
theorem TorsionFree.eq_zero_of_cofactor {P : G} (hP : TorsionFree q P) (hcop : c.Coprime q)
    (hc : c • P = 0) : P = 0 := by
  have h₁ := addOrderOf_dvd_iff_nsmul_eq_zero.2 hc
  have h₂ := addOrderOf_dvd_iff_nsmul_eq_zero.2 hP
  exact AddMonoid.addOrderOf_eq_one_iff.1 (Nat.eq_one_of_dvd_coprimes hcop h₁ h₂)

/-- In a group of order `c·q`, a point that the cofactor does not kill has an order divisible by
`q`. -/
theorem dvd_addOrderOf [Fact q.Prime] {P : G} (hcard : (c * q) • P = 0) (hP : c • P ≠ 0) :
    q ∣ addOrderOf P := by
  by_contra hq
  apply hP
  have hdvd := addOrderOf_dvd_iff_nsmul_eq_zero.2 hcard
  have hcop : (addOrderOf P).Coprime q :=
    ((Nat.Prime.coprime_iff_not_dvd Fact.out).2 hq).symm
  exact addOrderOf_dvd_iff_nsmul_eq_zero.1 (hcop.dvd_of_dvd_mul_right hdvd)

/-- Two residues have the same multiple of a point exactly when they are equal, or the point has
small order and their representatives agree modulo that order. -/
theorem scalarMul_eq_scalarMul_iff [Fact q.Prime] {P : G} (hcard : (c * q) • P = 0)
    (s t : ZMod q) :
    scalarMul s P = scalarMul t P ↔
      s = t ∨ (c • P = 0 ∧ s.val ≡ t.val [MOD addOrderOf P]) := by
  rw [scalarMul, scalarMul, nsmul_eq_nsmul_iff_modEq]
  constructor
  · intro h
    by_cases hP : c • P = 0
    · exact Or.inr ⟨hP, h⟩
    · left
      have hmod : s.val ≡ t.val [MOD q] := h.of_dvd (dvd_addOrderOf hcard hP)
      exact ZMod.val_injective q (Nat.ModEq.eq_of_lt_of_lt hmod (ZMod.val_lt s) (ZMod.val_lt t))
  · rintro (rfl | ⟨_, h⟩)
    · exact Nat.ModEq.refl _
    · exact h

/-- A multiple of the cofactor kills a point of small order; its residue modulo `q` does so exactly
when the order divides the quotient that the reduction drops. -/
theorem natCast_scalarMul_eq_zero_iff {P : G} (hcop : c.Coprime q) (hP : c • P = 0) {n : Nat}
    (hn : c ∣ n) : scalarMul (n : ZMod q) P = 0 ↔ addOrderOf P ∣ n / q := by
  have hkill : n • P = 0 :=
    addOrderOf_dvd_iff_nsmul_eq_zero.1 ((addOrderOf_dvd_iff_nsmul_eq_zero.2 hP).trans hn)
  have hsplit : (n % q) • P + q • (n / q) • P = 0 := by
    calc (n % q) • P + q • (n / q) • P = (n % q + q * (n / q)) • P := by
          rw [add_nsmul, mul_nsmul']
      _ = 0 := by
          rw [Nat.mod_add_div, hkill]
  have hsmall : c • (n / q) • P = 0 := by
    rw [smul_comm, hP, nsmul_zero]
  rw [scalarMul, ZMod.val_natCast, addOrderOf_dvd_iff_nsmul_eq_zero]
  constructor
  · intro h
    rw [h, zero_add] at hsplit
    exact TorsionFree.eq_zero_of_cofactor hsplit hcop hsmall
  · intro h
    rwa [h, nsmul_zero, add_zero] at hsplit

end Cofactor

/-! ## Torsion-free points as multiples of one -/

section Generator

variable [Fact q.Prime]

theorem TorsionFree.sub_scalarMul {P : G} (hP : TorsionFree q P) (s t : ZMod q) :
    PrimeOrder.scalarMul (s - t) P = PrimeOrder.scalarMul s P - PrimeOrder.scalarMul t P := by
  rw [eq_sub_iff_add_eq, ← hP.add_scalarMul, sub_add_cancel]

/-- Two torsion-free points of which the second is no multiple of the first span `q²` points. -/
theorem TorsionFree.injective_span {B P : G} (hB : TorsionFree q B) (h0 : B ≠ 0)
    (hP : TorsionFree q P) (hnone : ∀ s : ZMod q, PrimeOrder.scalarMul s B ≠ P) :
    Function.Injective fun c : ZMod q × ZMod q =>
      PrimeOrder.scalarMul c.1 B + PrimeOrder.scalarMul c.2 P := by
  rintro ⟨s, t⟩ ⟨s', t'⟩ h
  have hdiff : PrimeOrder.scalarMul (t - t') P = PrimeOrder.scalarMul (s' - s) B := by
    rw [hP.sub_scalarMul, hB.sub_scalarMul, sub_eq_sub_iff_add_eq_add, add_comm]
    exact h
  have ht : t = t' := by
    by_contra hne
    have hunit : t - t' ≠ 0 := sub_ne_zero.2 hne
    have : Fact (1 < q) := ⟨(Fact.out : q.Prime).one_lt⟩
    -- dividing by `t - t'` exhibits `P` as a multiple of `B`
    apply hnone ((t - t')⁻¹ * (s' - s))
    rw [hB.mul_scalarMul, ← hdiff, ← hP.mul_scalarMul, inv_mul_cancel₀ hunit, one_scalarMul]
  subst ht
  rw [sub_self, zero_scalarMul] at hdiff
  have hs := (hB.scalarMul_eq_zero_iff.1 hdiff.symm).resolve_right h0
  rw [sub_eq_zero.1 hs]

/-- In a group of less than `q²` points, the torsion-free points are the multiples of any one of
them. -/
theorem TorsionFree.exists_scalarMul [Finite G] (hcard : Nat.card G < q * q) {B P : G}
    (hB : TorsionFree q B) (h0 : B ≠ 0) (hP : TorsionFree q P) :
    ∃ s : ZMod q, PrimeOrder.scalarMul s B = P := by
  by_contra hnone
  rw [not_exists] at hnone
  have hle := Nat.card_le_card_of_injective _ (hB.injective_span h0 hP hnone)
  rw [Nat.card_prod, Nat.card_zmod] at hle
  exact absurd hle (Nat.not_le.2 hcard)

end Generator

end PrimeOrder
