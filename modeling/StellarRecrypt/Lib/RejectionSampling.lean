import Mathlib.Algebra.BigOperators.Fin
import Mathlib.Data.Fintype.BigOperators
import Mathlib.Tactic.Ring

/-!
# RejectionSampling — the first accepted value of a stream

A sampler reads blocks, maps each to a value and returns the first value that is not the rejected
one.  Over all streams of a given number of blocks, every value is returned as often as its number
of blocks says, up to a factor that is the same for all values; so values whose numbers of blocks
are nearly equal are returned nearly equally often.
-/

namespace RejectionSampling

variable {A B : Type} [DecidableEq B] (f : A → B) (reject : B)

/-- The first value that is not rejected. -/
def first : List A → Option B
  | [] => none
  | a :: l => if f a ≠ reject then some (f a) else first l

@[simp] theorem first_nil : first f reject [] = none := rfl

theorem first_cons_of_ne {a : A} (h : f a ≠ reject) (l : List A) :
    first f reject (a :: l) = some (f a) :=
  if_pos h

theorem first_cons_of_eq {a : A} (h : f a = reject) (l : List A) :
    first f reject (a :: l) = first f reject l :=
  if_neg (not_not.2 h)

theorem first_eq_none_iff {l : List A} : first f reject l = none ↔ ∀ a ∈ l, f a = reject := by
  induction l with
  | nil => simp
  | cons a l ih =>
      by_cases ha : f a = reject
      · rw [first_cons_of_eq f reject ha, ih, List.forall_mem_cons, and_iff_right ha]
      · rw [first_cons_of_ne f reject ha, List.forall_mem_cons]
        simp [ha]

variable [Fintype A]

/-- The number of blocks with a value. -/
def weight (b : B) : ℕ :=
  (Finset.univ.filter fun a => f a = b).card

/-- The number of streams of `n` blocks that return a value. -/
def runs (n : ℕ) (b : B) : ℕ :=
  (Finset.univ.filter fun run : Fin n → A => first f reject (List.ofFn run) = some b).card

/-- The number of streams of `n` blocks that return nothing. -/
def failures (n : ℕ) : ℕ :=
  (Finset.univ.filter fun run : Fin n → A => first f reject (List.ofFn run) = none).card

@[simp] theorem runs_zero (b : B) : runs f reject 0 b = 0 := by
  simp [runs]

/-- A stream returns a value when its first block does, or when that is rejected and the rest
does. -/
theorem runs_succ (n : ℕ) {b : B} (hb : b ≠ reject) :
    runs f reject (n + 1) b =
      weight f b * Fintype.card A ^ n + weight f reject * runs f reject n b := by
  have hhead : ∀ a : A,
      (∑ run : Fin n → A, if first f reject (a :: List.ofFn run) = some b then 1 else 0) =
        (if f a = b then Fintype.card A ^ n else 0) +
          if f a = reject then runs f reject n b else 0 := by
    intro a
    by_cases hreject : f a = reject
    · have hne : f a ≠ b := fun h => hb (h.symm.trans hreject)
      simp only [first_cons_of_eq f reject hreject, if_neg hne, if_pos hreject, zero_add]
      rw [runs, Finset.card_filter]
    · simp only [first_cons_of_ne f reject hreject, if_neg hreject, add_zero, Option.some.injEq]
      by_cases hvalue : f a = b
      · simp [hvalue]
      · simp [hvalue]
  calc runs f reject (n + 1) b
      = ∑ run : Fin (n + 1) → A, if first f reject (List.ofFn run) = some b then 1 else 0 := by
        rw [runs, Finset.card_filter]
    _ = ∑ p : A × (Fin n → A),
          if first f reject (p.1 :: List.ofFn p.2) = some b then 1 else 0 := by
        refine (Fintype.sum_equiv (Fin.consEquiv fun _ => A) _ _ fun p => ?_).symm
        have hstream : List.ofFn (Fin.consEquiv (fun _ => A) p) = p.1 :: List.ofFn p.2 :=
          List.ofFn_cons p.1 p.2
        rw [hstream]
    _ = ∑ a : A, ((if f a = b then Fintype.card A ^ n else 0) +
          if f a = reject then runs f reject n b else 0) := by
        rw [Fintype.sum_prod_type]
        exact Finset.sum_congr rfl fun a _ => hhead a
    _ = weight f b * Fintype.card A ^ n + weight f reject * runs f reject n b := by
        rw [Finset.sum_add_distrib, ← Finset.sum_filter, ← Finset.sum_filter, Finset.sum_const,
          Finset.sum_const, smul_eq_mul, smul_eq_mul, weight, weight]

/-- The factor that all values have in common. -/
def factor : ℕ → ℕ
  | 0 => 0
  | n + 1 => Fintype.card A ^ n + weight f reject * factor n

/-- Rejection keeps the proportions of the blocks. -/
theorem runs_eq (n : ℕ) {b : B} (hb : b ≠ reject) :
    runs f reject n b = weight f b * factor f reject n := by
  induction n with
  | zero => rw [runs_zero, factor, mul_zero]
  | succ n ih =>
      rw [runs_succ f reject n hb, ih, factor]
      ring

/-- Values with at least `q` and at most `q + 1` blocks are returned nearly equally often. -/
theorem runs_mul_le {q : ℕ} (n : ℕ) {b c : B} (hb : b ≠ reject) (hc : c ≠ reject)
    (hupper : weight f b ≤ q + 1) (hlower : q ≤ weight f c) :
    runs f reject n b * q ≤ runs f reject n c * (q + 1) := by
  rw [runs_eq f reject n hb, runs_eq f reject n hc]
  calc weight f b * factor f reject n * q
      ≤ (q + 1) * factor f reject n * weight f c := by gcongr
    _ = weight f c * factor f reject n * (q + 1) := by ring

/-- Nothing is returned only if every block is rejected. -/
theorem failures_eq (n : ℕ) : failures f reject n = weight f reject ^ n := by
  have hset : (Finset.univ.filter fun run : Fin n → A =>
      first f reject (List.ofFn run) = none) =
        Fintype.piFinset fun _ => Finset.univ.filter fun a => f a = reject := by
    ext run
    rw [Finset.mem_filter, first_eq_none_iff, List.forall_mem_ofFn_iff, Fintype.mem_piFinset]
    simp
  rw [failures, hset, Fintype.card_piFinset, Finset.prod_const, Finset.card_univ,
    Fintype.card_fin, weight]

end RejectionSampling
