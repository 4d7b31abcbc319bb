import Mathlib.Algebra.Module.Basic
import Mathlib.Tactic.Module

/-!
# Reencryption — delegating a shared point, over any module

The algebra of a hashed-ElGamal key encapsulation that a third party can redirect.  Points form a
module over a commutative ring of scalars, with a base point `B`; a key `a` has public point
`a • B`.

* A capsule is a pair of points `E`, `V` with a scalar `s`; it is valid for a challenge `h` when
  `s • B = V + h • E`.  The owner of `a` derives the shared point `a • (E + V)`.
* A proxy that holds `rk` sends `rk • E`, `rk • V`; the delegatee derives the shared point with its
  own scalar `d`, after testing the two points against the owner's public point.

Scalars of a real group are only known modulo the order of `B`, so nothing here divides: where a
scheme writes `a / d`, the lemmas take a scalar whose product with `d` agrees with `a` on the
points at hand.
-/

namespace Reencryption

variable {K M : Type} [CommRing K] [AddCommGroup M] [Module K M]

/-- The public part of an encapsulation. -/
structure Capsule (K M : Type) where
  e : M
  v : M
  s : K

/-- The two points a proxy produces. -/
structure Reencrypted (M : Type) where
  e : M
  v : M

/-- The encapsulator knew both discrete logarithms. -/
def Capsule.Valid (B : M) (h : K) (c : Capsule K M) : Prop :=
  c.s • B = c.v + h • c.e

/-- The point the owner of `a` derives. -/
def Capsule.shared (a : K) (c : Capsule K M) : M :=
  a • (c.e + c.v)

/-- The proxy's step. -/
def Capsule.reencrypt (rk : K) (c : Capsule K M) : Reencrypted M :=
  { e := rk • c.e, v := rk • c.v }

/-- The point the delegatee derives. -/
def Reencrypted.shared (d : K) (r : Reencrypted M) : M :=
  d • (r.e + r.v)

/-- The delegatee's test against the owner's public point, where `t` stands for `s / d`. -/
def Reencrypted.Consistent (h t : K) (pk : M) (r : Reencrypted M) : Prop :=
  t • pk = h • r.e + r.v

variable {B : M} {h : K} {c : Capsule K M}

/-- How far the delegatee's point is from the owner's, for an honest proxy. -/
theorem shared_reencrypt_sub_shared (a d rk : K) :
    (c.reencrypt rk).shared d - c.shared a = (d * rk - a) • (c.e + c.v) := by
  simp only [Capsule.reencrypt, Reencrypted.shared, Capsule.shared]
  module

/-- The honest proxy's points satisfy the delegatee's test as soon as the owner's public point
does so at the base point. -/
theorem consistent_reencrypt (hv : c.Valid B h) {rk t : K} {pk : M} (hpk : t • pk = rk • c.s • B) :
    (c.reencrypt rk).Consistent h t pk := by
  unfold Capsule.Valid at hv
  simp only [Capsule.reencrypt, Reencrypted.Consistent, hpk, hv]
  module

/-- How far the delegatee's point is from the owner's, for any points that pass the test: the test
fixes only one combination of the two points, and the rest is scaled by `1 - h`. -/
theorem shared_sub_shared_of_consistent (hv : c.Valid B h) {a d t : K} {pk : M}
    (hpk : d • t • pk = a • c.s • B) {r : Reencrypted M} (hr : r.Consistent h t pk) :
    r.shared d - c.shared a = (1 - h) • (d • r.e - a • c.e) := by
  unfold Capsule.Valid at hv
  unfold Reencrypted.Consistent at hr
  have hcomb : d • (h • r.e + r.v) = a • (c.v + h • c.e) := by
    rw [← hr, hpk, hv]
  have hsolve : d • r.v = a • (c.v + h • c.e) - d • h • r.e := by
    rw [← hcomb, smul_add, add_sub_cancel_left]
  simp only [Reencrypted.shared, Capsule.shared, smul_add, hsolve]
  module

end Reencryption
