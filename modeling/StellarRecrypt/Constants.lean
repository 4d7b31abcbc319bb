import Mathlib.Algebra.Field.ZMod
import Mathlib.Tactic.NormNum.Prime
import StellarRecrypt.Lib.Pratt

/-!
# Constants — the field and the group order of Curve25519

`fieldPrime` is the modulus of the coordinates, `groupOrder` the order `L` of the basepoint.  Both
are prime; the certificates below are replayed by the kernel.
-/

namespace StellarRecrypt

/-- `p = 2^255 - 19`. -/
def fieldPrime : Nat := 2 ^ 255 - 19

/-- `L = 2^252 + 27742317777372353535851937790883648493`. -/
def groupOrder : Nat := 2 ^ 252 + 27742317777372353535851937790883648493

/-! ## Primality -/

section Primality

open Pratt

private def smallPrimes : List Nat :=
  [2, 3, 5, 7, 11, 13, 19, 23, 31, 41, 43, 47, 73, 107, 127, 223, 269, 307, 353, 1361, 2437, 2851,
    4153, 5879, 30703, 57467, 65147, 75707, 82163, 132049, 132667, 137849, 409477, 430751, 531581,
    569003, 1224481, 1923133, 8574133]

private theorem smallPrimes_prime : ∀ q ∈ smallPrimes, q.Prime := by
  simp only [smallPrimes, List.forall_mem_cons]
  norm_num

private def fieldChain : List Certificate :=
  [{ value := 31757755568855353, root := 10
     factors := [2, 2, 2, 3, 31, 107, 223, 4153, 430751] },
   { value := 1919519569386763, root := 2
     factors := [2, 3, 7, 19, 47, 47, 127, 8574133] },
   { value := 2773320623, root := 5
     factors := [2, 2437, 569003] },
   { value := 72106336199, root := 7
     factors := [2, 13, 2773320623] },
   { value := 75445702479781427272750846543864801, root := 7
     factors := [2, 2, 2, 2, 2, 3, 3, 5, 5, 75707, 72106336199, 1919519569386763] },
   { value := 74058212732561358302231226437062788676166966415465897661863160754340907, root := 2
     factors := [2, 3, 353, 57467, 132049, 1923133, 31757755568855353,
       75445702479781427272750846543864801] },
   { value := fieldPrime, root := 2
     factors := [2, 2, 3, 65147,
       74058212732561358302231226437062788676166966415465897661863160754340907] }]

private def orderChain : List Certificate :=
  [{ value := 3044861653679985063343, root := 5
     factors := [2, 3, 11, 30703, 82163, 132667, 137849] },
   { value := 14741173, root := 2
     factors := [2, 2, 3, 3, 409477] },
   { value := 58964693, root := 2
     factors := [2, 2, 14741173] },
   { value := 198211423230930754013084525763697, root := 5
     factors := [2, 2, 2, 2, 3, 23, 58964693, 3044861653679985063343] },
   { value := 1257559732178653, root := 2
     factors := [2, 2, 3, 7, 23, 531581, 1224481] },
   { value := 4434155615661930479, root := 17
     factors := [2, 41, 43, 1257559732178653] },
   { value := 172054593956031949258510691, root := 2
     factors := [2, 5, 1361, 2851, 4434155615661930479] },
   { value := 292386187, root := 2
     factors := [2, 3, 3, 3, 3, 307, 5879] },
   { value := 213441916511, root := 13
     factors := [2, 5, 73, 292386187] },
   { value := 19757330305831588566944191468367130476339, root := 2
     factors := [2, 269, 213441916511, 172054593956031949258510691] },
   { value := 276602624281642239937218680557139826668747, root := 2
     factors := [2, 7, 19757330305831588566944191468367130476339] },
   { value := groupOrder, root := 2
     factors := [2, 2, 3, 11, 198211423230930754013084525763697,
       276602624281642239937218680557139826668747] }]

theorem fieldPrime_prime : fieldPrime.Prime := by
  have hcheck : ChainCheck 256 smallPrimes fieldChain := by
    decide +kernel
  exact prime_of_chainCheck hcheck smallPrimes_prime (by simp [fieldChain])

theorem groupOrder_prime : groupOrder.Prime := by
  have hcheck : ChainCheck 256 smallPrimes orderChain := by
    decide +kernel
  exact prime_of_chainCheck hcheck smallPrimes_prime (by simp [orderChain])

end Primality

instance : Fact fieldPrime.Prime := ⟨fieldPrime_prime⟩

instance : Fact groupOrder.Prime := ⟨groupOrder_prime⟩

end StellarRecrypt
