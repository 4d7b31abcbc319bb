import Mathlib.Data.Nat.Prime.Basic
import Mathlib.NumberTheory.LucasPrimality

/-!
# Pratt — primality certificates the kernel can replay

A number `p` is prime when some `a` has order `p - 1` modulo `p`.  The certificate is `a` together
with a factorization of `p - 1` into smaller primes, which are certified the same way; checking it
takes a few modular powers, which `powMod` computes by repeated squaring.
-/

namespace Pratt

/-- `a ^ e % m` for exponents of at most `fuel` bits. -/
def powMod (a m : Nat) : Nat → Nat → Nat
  | 0, _ => 1 % m
  | fuel + 1, e =>
      if e % 2 = 1 then
        powMod a m fuel (e / 2) ^ 2 % m * a % m
      else
        powMod a m fuel (e / 2) ^ 2 % m

theorem powMod_eq (a m : Nat) {fuel e : Nat} (h : e < 2 ^ fuel) :
    powMod a m fuel e = a ^ e % m := by
  induction fuel generalizing e with
  | zero =>
      have he : e = 0 := by omega
      simp [powMod, he]
  | succ fuel ih =>
      have hhalf : e / 2 < 2 ^ fuel := by
        rw [pow_succ] at h
        omega
      have hsquare : powMod a m fuel (e / 2) ^ 2 % m = a ^ (2 * (e / 2)) % m := by
        rw [ih hhalf, ← Nat.pow_mod, ← pow_mul, Nat.mul_comm]
      rw [powMod, hsquare]
      split
      · rename_i hodd
        have he : e = 2 * (e / 2) + 1 := by omega
        rw [Nat.mod_mul_mod, ← pow_succ, ← he]
      · rename_i heven
        have he : 2 * (e / 2) = e := by omega
        rw [he]

/-- The reduced power, read in `ZMod m`. -/
theorem powMod_cast (a m : Nat) {fuel e : Nat} (h : e < 2 ^ fuel) :
    ((powMod a m fuel e : Nat) : ZMod m) = (a : ZMod m) ^ e := by
  rw [powMod_eq a m h, ZMod.natCast_mod, Nat.cast_pow]

/-- A certificate for `value`: a primitive root and the prime factors of `value - 1`, repeated
factors repeated. -/
structure Certificate where
  value : Nat
  root : Nat
  factors : List Nat

/-- The conditions on one certificate, given the numbers already known to be prime. -/
def Certificate.Check (fuel : Nat) (known : List Nat) (c : Certificate) : Prop :=
  1 < c.value ∧ c.value < 2 ^ fuel ∧ (∀ q ∈ c.factors, q ∈ known) ∧
    c.factors.prod = c.value - 1 ∧ powMod c.root c.value fuel (c.value - 1) = 1 ∧
      ∀ q ∈ c.factors, powMod c.root c.value fuel ((c.value - 1) / q) ≠ 1

instance (fuel : Nat) (known : List Nat) (c : Certificate) : Decidable (c.Check fuel known) := by
  unfold Certificate.Check
  infer_instance

/-- A checked certificate whose factors are prime proves that its value is prime. -/
theorem Certificate.prime {fuel : Nat} {known : List Nat} (c : Certificate)
    (hc : c.Check fuel known) (hknown : ∀ q ∈ known, q.Prime) : c.value.Prime := by
  obtain ⟨hp, hfuel, hmem, hprod, hone, hne⟩ := hc
  have : Fact (1 < c.value) := ⟨hp⟩
  refine lucas_primality c.value (c.root : ZMod c.value) ?_ ?_
  · rw [← powMod_cast c.root c.value (by omega : c.value - 1 < 2 ^ fuel), hone, Nat.cast_one]
  · intro q hq hdvd hpow
    rw [← hprod] at hdvd
    obtain ⟨r, hr, hqr⟩ := hq.prime.dvd_prod_iff.1 hdvd
    have hqr' : q = r := (Nat.prime_dvd_prime_iff_eq hq (hknown r (hmem r hr))).1 hqr
    have hlt : (c.value - 1) / q < 2 ^ fuel := lt_of_le_of_lt (Nat.div_le_self _ _) (by omega)
    apply hne r hr
    rw [← hqr', powMod_eq c.root c.value hlt]
    -- the power is `1` in `ZMod c.value`, and its representative is reduced
    have hval := congrArg ZMod.val hpow
    rwa [← Nat.cast_pow, ZMod.val_natCast, ZMod.val_one] at hval

/-- Certificates in order, each resting on the known primes and on those before it. -/
def ChainCheck (fuel : Nat) : List Nat → List Certificate → Prop
  | _, [] => True
  | known, c :: cs => c.Check fuel known ∧ ChainCheck fuel (c.value :: known) cs

instance decidableChainCheck (fuel : Nat) :
    ∀ (known : List Nat) (cs : List Certificate), Decidable (ChainCheck fuel known cs)
  | _, [] => inferInstanceAs (Decidable True)
  | known, c :: cs =>
      have := decidableChainCheck fuel (c.value :: known) cs
      inferInstanceAs (Decidable (c.Check fuel known ∧ ChainCheck fuel (c.value :: known) cs))

/-- Every value of a checked chain is prime. -/
theorem prime_of_chainCheck {fuel : Nat} {known : List Nat} {cs : List Certificate}
    (hcs : ChainCheck fuel known cs) (hknown : ∀ q ∈ known, q.Prime) {n : Nat}
    (hn : n ∈ cs.map Certificate.value) : n.Prime := by
  induction cs generalizing known with
  | nil => simp at hn
  | cons c cs ih =>
      obtain ⟨hc, hrest⟩ := hcs
      have hprime : c.value.Prime := c.prime hc hknown
      have hknown' : ∀ q ∈ c.value :: known, q.Prime := by
        intro q hq
        rcases List.mem_cons.1 hq with rfl | hq
        · exact hprime
        · exact hknown q hq
      rcases List.mem_cons.1 hn with rfl | hn
      · exact hprime
      · exact ih hrest hknown' hn

end Pratt
