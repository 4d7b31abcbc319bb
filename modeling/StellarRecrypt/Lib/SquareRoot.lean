import Mathlib.NumberTheory.LegendreSymbol.Basic
import StellarRecrypt.Lib.Pratt

/-!
# SquareRoot — square roots modulo a prime that is 5 modulo 8

For `p = 8k + 5` the power `w^(k+1)` squares to `w` or to `-w` when `w` is a square, and a square
root of `-1` turns one case into the other.
-/

namespace SquareRoot

open Pratt

variable {p : Nat} [Fact p.Prime]

/-- A square root of `w`, if it has one; `i` is a square root of `-1`. -/
def sqrt? (fuel : Nat) (i w : ZMod p) : Option (ZMod p) :=
  let r := ((powMod w.val p fuel ((p + 3) / 8) : Nat) : ZMod p)
  if r ^ 2 = w then some r
  else if (r * i) ^ 2 = w then some (r * i)
  else none

variable {fuel : Nat} {i w r : ZMod p}

theorem sq_of_sqrt? (h : sqrt? fuel i w = some r) : r ^ 2 = w := by
  rw [sqrt?] at h
  split at h
  · rename_i hr
    cases h
    exact hr
  · split at h
    · rename_i hr
      cases h
      exact hr
    · cases h

/-- The candidate squares to the square or to its opposite. -/
theorem candidate_sq (hp : p % 8 = 5) {z : ZMod p} (hz : z ≠ 0) :
    ((z ^ 2) ^ ((p + 3) / 8)) ^ 2 = z ^ 2 ∨ ((z ^ 2) ^ ((p + 3) / 8)) ^ 2 = -z ^ 2 := by
  have hexp : 2 * ((p + 3) / 8) * 2 = 2 + p / 2 := by omega
  have hpow : ((z ^ 2) ^ ((p + 3) / 8)) ^ 2 = z ^ 2 * z ^ (p / 2) := by
    rw [← pow_mul, ← pow_mul, ← mul_assoc, hexp, pow_add]
  rcases ZMod.pow_div_two_eq_neg_one_or_one p hz with hone | hneg
  · left
    rw [hpow, hone, mul_one]
  · right
    rw [hpow, hneg, mul_neg_one]

/-- Every square has a root. -/
theorem exists_sqrt? (hp : p % 8 = 5) (hfuel : p < 2 ^ fuel) (hi : i ^ 2 = -1)
    (hw : IsSquare w) : ∃ r, sqrt? fuel i w = some r := by
  have hexp : (p + 3) / 8 < 2 ^ fuel := by omega
  have hcandidate : ((powMod w.val p fuel ((p + 3) / 8) : Nat) : ZMod p) =
      w ^ ((p + 3) / 8) := by
    rw [powMod_cast _ _ hexp, ZMod.natCast_zmod_val]
  have hsq : (w ^ ((p + 3) / 8)) ^ 2 = w ∨ (w ^ ((p + 3) / 8)) ^ 2 = -w := by
    rcases hw with ⟨z, rfl⟩
    by_cases hz : z = 0
    · have hk : (p + 3) / 8 ≠ 0 := by omega
      left
      rw [hz, mul_zero, zero_pow hk, zero_pow two_ne_zero]
    · rw [← pow_two]
      exact candidate_sq hp hz
  rw [sqrt?, hcandidate]
  split
  · exact ⟨_, rfl⟩
  · rename_i hne
    have hneg := hsq.resolve_left hne
    have hother : (w ^ ((p + 3) / 8) * i) ^ 2 = w := by
      rw [mul_pow, hneg, hi, mul_neg_one, neg_neg]
    rw [if_pos hother]
    exact ⟨_, rfl⟩

end SquareRoot
