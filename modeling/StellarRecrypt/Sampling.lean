import Mathlib.Data.Int.CardIntervalMod
import StellarRecrypt.Honest
import StellarRecrypt.Lib.RejectionSampling

/-!
# Sampling — how evenly `random_nonzero_scalar` draws

The loop reduces 64 bytes modulo `L` and goes round again at zero.  `2 ^ 512` is no multiple of `L`,
so some scalars have one block of bytes more than others; the excess is one in more than `2 ^ 259`,
and throwing zeros away keeps it so, for any number of rounds.
-/

namespace StellarRecrypt

open ByteString
open RngCore

/-! ## The loop on a tape -/

namespace TapeRng

/-- A tape of 64-byte blocks. -/
def ofBlocks (blocks : List (Bytes 64)) : TapeRng :=
  ⟨blocks.flatMap Bytes.toList⟩

theorem ofBlocks_cons (b : Bytes 64) (blocks : List (Bytes 64)) :
    ofBlocks (b :: blocks) = ⟨b.toList ++ (ofBlocks blocks).tape⟩ :=
  rfl

/-- The empty tape goes on with zeros. -/
theorem drawnScalar_nil (n : Nat) : drawnScalar n (TapeRng.mk []) = 0 := by
  have hafter : afterDraws n (TapeRng.mk []) = TapeRng.mk [] := by
    induction n with
    | zero => rfl
    | succ n ih =>
        rw [afterDraws] at ih ⊢
        rw [Function.iterate_succ_apply', ih]
        rfl
  rw [drawnScalar, hafter]
  decide +kernel

/-- The loop returns the first scalar of the blocks that is not zero. -/
theorem randomNonzeroScalar_ofBlocks (blocks : List (Bytes 64)) :
    (randomNonzeroScalar (ofBlocks blocks)).map Prod.fst =
      RejectionSampling.first Scalar.fromBytesModOrderWide 0 blocks := by
  induction blocks with
  | nil =>
      have hnone : randomNonzeroScalar (ofBlocks []) = none :=
        randomNonzeroScalar_eq_none_iff.2 drawnScalar_nil
      rw [hnone]
      rfl
  | cons b blocks ih =>
      rw [ofBlocks_cons, randomNonzeroScalar, fillBytes_append]
      dsimp only
      by_cases hzero : Scalar.fromBytesModOrderWide b = 0
      · rw [if_neg (not_not.2 hzero), RejectionSampling.first_cons_of_eq _ _ hzero, ← ih]
      · rw [if_pos hzero, RejectionSampling.first_cons_of_ne _ _ hzero]
        rfl

end TapeRng

/-! ## Blocks of a scalar -/

/-- `⌊2 ^ 512 / L⌋`, the blocks every scalar has. -/
def blocksPerScalar : Nat :=
  256 ^ 64 / groupOrder

/-- The scalars below the remainder have one block more. -/
theorem weight_fromBytesModOrderWide (s : Scalar) :
    RejectionSampling.weight Scalar.fromBytesModOrderWide s =
      blocksPerScalar + if s.val < 256 ^ 64 % groupOrder then 1 else 0 := by
  have hcongr : ∀ b : Bytes 64,
      Scalar.fromBytesModOrderWide b = s ↔ leNat b.toList ≡ s.val [MOD groupOrder] := by
    intro b
    rw [← ZMod.natCast_eq_natCast_iff, ZMod.natCast_zmod_val]
    rfl
  rw [RejectionSampling.weight, Finset.filter_congr fun b _ => hcongr b,
    Bytes.card_filter_leNat 64 fun k => k ≡ s.val [MOD groupOrder],
    Nat.count_modEq_card _ (Nat.pos_of_neZero groupOrder), Nat.mod_eq_of_lt (Scalar.val_lt s),
    blocksPerScalar]

theorem blocksPerScalar_le_weight (s : Scalar) :
    blocksPerScalar ≤ RejectionSampling.weight Scalar.fromBytesModOrderWide s := by
  rw [weight_fromBytesModOrderWide]
  exact Nat.le_add_right _ _

theorem weight_le_blocksPerScalar_add_one (s : Scalar) :
    RejectionSampling.weight Scalar.fromBytesModOrderWide s ≤ blocksPerScalar + 1 := by
  rw [weight_fromBytesModOrderWide]
  split <;> omega

/-! ## Draws -/

/-- The number of tapes of `n` blocks on which the loop returns a scalar. -/
def drawsOf (n : Nat) (s : Scalar) : Nat :=
  (Finset.univ.filter fun blocks : Fin n → Bytes 64 =>
    (randomNonzeroScalar (TapeRng.ofBlocks (List.ofFn blocks))).map Prod.fst = some s).card

/-- The number of tapes of `n` blocks on which it returns nothing. -/
def emptyDraws (n : Nat) : Nat :=
  (Finset.univ.filter fun blocks : Fin n → Bytes 64 =>
    (randomNonzeroScalar (TapeRng.ofBlocks (List.ofFn blocks))).map Prod.fst = none).card

theorem drawsOf_eq_runs (n : Nat) (s : Scalar) :
    drawsOf n s = RejectionSampling.runs Scalar.fromBytesModOrderWide 0 n s := by
  simp only [drawsOf, RejectionSampling.runs, TapeRng.randomNonzeroScalar_ofBlocks]

theorem emptyDraws_eq_failures (n : Nat) :
    emptyDraws n = RejectionSampling.failures Scalar.fromBytesModOrderWide 0 n := by
  simp only [emptyDraws, RejectionSampling.failures, TapeRng.randomNonzeroScalar_ofBlocks]

/-- However many blocks the source gives, no nonzero scalar is returned more often than another by
more than one in `2 ^ 259`, and the tapes without a scalar are a power of those of one block. -/
theorem random_scalars_nearly_uniform (n : Nat) :
    (∀ s t : Scalar, s ≠ 0 → t ≠ 0 →
        drawsOf n s * blocksPerScalar ≤ drawsOf n t * (blocksPerScalar + 1)) ∧
      emptyDraws n ≤ (blocksPerScalar + 1) ^ n ∧ 2 ^ 259 ≤ blocksPerScalar := by
  refine ⟨fun s t hs ht => ?_, ?_, by decide +kernel⟩
  · rw [drawsOf_eq_runs, drawsOf_eq_runs]
    exact RejectionSampling.runs_mul_le _ _ n hs ht (weight_le_blocksPerScalar_add_one s)
      (blocksPerScalar_le_weight t)
  · rw [emptyDraws_eq_failures, RejectionSampling.failures_eq]
    exact Nat.pow_le_pow_left (weight_le_blocksPerScalar_add_one 0) n

/-- One and two, on tapes of three blocks. -/
theorem random_scalars_nearly_uniform_three :
    drawsOf 3 1 * blocksPerScalar ≤ drawsOf 3 2 * (blocksPerScalar + 1) :=
  (random_scalars_nearly_uniform 3).1 1 2 (by decide +kernel) (by decide +kernel)

end StellarRecrypt
