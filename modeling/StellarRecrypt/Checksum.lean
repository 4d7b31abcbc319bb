import Mathlib.Algebra.CharP.Two
import Mathlib.Algebra.Field.ZMod
import Mathlib.RingTheory.AdjoinRoot
import Mathlib.Tactic.ComputeDegree
import StellarRecrypt.StrkeyTheorems
import StellarRecrypt.Lib.CyclicCode

/-!
# Checksum — the register of `crc16_xmodem` as a remainder

The loop of `crc16_xmodem` keeps sixteen bits.  Read as coefficients they are a polynomial over the
field of two elements, and one round of the inner loop is a multiplication by `X` in the quotient by
the generator `X^16 + X^12 + X^5 + 1`.  The checksum is then the check of a cyclic code, whose
bursts are detected.  A strkey stores the checksum low byte first; the last section follows the bits
into the two bytes.
-/

namespace StellarRecrypt

open ByteString
open BitStream
open CyclicCode
open Polynomial

/-! ## Bits as coefficients -/

/-- A bit as an element of the field of two elements. -/
def ofBit (b : Bool) : ZMod 2 :=
  if b then 1 else 0

@[simp] theorem ofBit_true : ofBit true = 1 := rfl

@[simp] theorem ofBit_false : ofBit false = 0 := rfl

theorem ofBit_injective : Function.Injective ofBit := by
  decide

theorem ofBit_xor (a b : Bool) : ofBit (a ^^ b) = ofBit a + ofBit b := by
  revert a b
  decide

/-- The polynomial of a string of bits, most significant first. -/
noncomputable def bitPoly (l : List Bool) : (ZMod 2)[X] :=
  ofCoeffs (l.map ofBit)

@[simp] theorem bitPoly_nil : bitPoly [] = 0 := rfl

theorem bitPoly_cons (b : Bool) (l : List Bool) :
    bitPoly (b :: l) = C (ofBit b) * X ^ l.length + bitPoly l := by
  rw [bitPoly, List.map_cons, ofCoeffs_cons, List.length_map, bitPoly]

theorem bitPoly_append (l m : List Bool) :
    bitPoly (l ++ m) = bitPoly l * X ^ m.length + bitPoly m := by
  rw [bitPoly, List.map_append, ofCoeffs_append, List.length_map, bitPoly, bitPoly]

theorem bitPoly_replicate_false (n : Nat) : bitPoly (List.replicate n false) = 0 := by
  induction n with
  | zero => rfl
  | succ n ih =>
      rw [List.replicate_succ, bitPoly_cons, ih, ofBit_false, C_0, zero_mul, add_zero]

theorem bitPoly_inj {l m : List Bool} (hlen : l.length = m.length) :
    bitPoly l = bitPoly m ↔ l = m := by
  rw [bitPoly, bitPoly, ofCoeffs_inj (by simpa using hlen)]
  exact (List.map_injective_iff.2 ofBit_injective).eq_iff

/-- Exclusive or adds the polynomials. -/
theorem bitPoly_bits_xor (w m n : Nat) :
    bitPoly (bits w (m ^^^ n)) = bitPoly (bits w m) + bitPoly (bits w n) := by
  induction w with
  | zero => simp
  | succ w ih =>
      simp only [bits, bitPoly_cons, length_bits, Nat.testBit_xor, ofBit_xor, ih, C_add]
      ring

/-! ## The register -/

/-- The polynomial of the register. -/
noncomputable def registerPoly (crc : UInt16) : (ZMod 2)[X] :=
  bitPoly (bits 16 crc.toNat)

theorem registerPoly_injective : Function.Injective registerPoly := by
  intro a b h
  rw [registerPoly, registerPoly, bitPoly_inj (by simp)] at h
  exact UInt16.toNat_inj.1 ((bits_inj a.toNat_lt b.toNat_lt).1 h)

theorem registerPoly_xor (a b : UInt16) :
    registerPoly (a ^^^ b) = registerPoly a + registerPoly b := by
  rw [registerPoly, UInt16.toNat_xor, bitPoly_bits_xor, registerPoly, registerPoly]

/-- The generator whose low coefficients are the constant `0x1021` of the loop. -/
noncomputable def generator : (ZMod 2)[X] :=
  X ^ 16 + X ^ 12 + X ^ 5 + 1

theorem natDegree_generator : generator.natDegree = 16 := by
  rw [generator]
  compute_degree!

theorem monic_generator : generator.Monic := by
  rw [generator]
  monicity!

theorem generator_coeff_zero : generator.coeff 0 ≠ 0 := by
  simp [generator]

theorem degree_registerPoly_lt (crc : UInt16) : (registerPoly crc).degree < generator.degree := by
  have hlt := degree_ofCoeffs_lt ((bits 16 crc.toNat).map ofBit)
  rw [List.length_map, length_bits] at hlt
  rw [degree_eq_natDegree monic_generator.ne_zero, natDegree_generator]
  exact hlt

/-- Registers are told apart by their residues. -/
theorem mk_registerPoly_injective {a b : UInt16}
    (h : AdjoinRoot.mk generator (registerPoly a) = AdjoinRoot.mk generator (registerPoly b)) :
    a = b :=
  registerPoly_injective (eq_of_dvd_sub_of_degree_lt (degree_registerPoly_lt a)
    (degree_registerPoly_lt b) (AdjoinRoot.mk_eq_mk.1 h))

theorem generator_eq : generator = X ^ 16 + registerPoly 0x1021 := by
  have hbits : bits 16 (0x1021 : UInt16).toNat = [false, false, false, true, false, false, false,
      false, false, false, true, false, false, false, false, true] := by
    decide
  rw [registerPoly, hbits, generator]
  simp [bitPoly_cons, add_assoc]

/-! ## Rounds of the loop -/

/-- The tested bit is the highest one. -/
theorem and_0x8000_ne_zero_iff (crc : UInt16) :
    crc &&& 0x8000 ≠ 0 ↔ crc.toNat.testBit 15 = true := by
  have hand : (crc &&& 0x8000).toNat = (crc.toNat.testBit 15).toNat * 2 ^ 15 := by
    rw [UInt16.toNat_and, ← Nat.and_two_pow]
    rfl
  rw [ne_eq, ← UInt16.toNat_inj, hand]
  cases crc.toNat.testBit 15 <;> decide

/-- Shifting the register drops its highest coefficient. -/
theorem registerPoly_shiftLeft (crc : UInt16) :
    C (ofBit (crc.toNat.testBit 15)) * X ^ 16 + registerPoly (crc <<< 1) =
      registerPoly crc * X := by
  have hshift : registerPoly (crc <<< 1) = bitPoly (bits 16 (crc.toNat <<< 1)) := by
    rw [registerPoly, UInt16.toNat_shiftLeft]
    exact congrArg bitPoly (bits_mod_two_pow le_rfl _)
  have htop : (crc.toNat <<< 1).testBit 16 = crc.toNat.testBit 15 := by
    rw [Nat.testBit_shiftLeft]
    rfl
  calc C (ofBit (crc.toNat.testBit 15)) * X ^ 16 + registerPoly (crc <<< 1)
      = bitPoly (bits (16 + 1) (crc.toNat <<< 1)) := by
        rw [bits, bitPoly_cons, length_bits, htop, hshift]
    _ = registerPoly crc * X := by
        rw [bits_shiftLeft, bitPoly_append, bitPoly_replicate_false, List.length_replicate,
          pow_one, add_zero, registerPoly]

/-- One round multiplies by `X` modulo the generator. -/
theorem mk_crcShift (crc : UInt16) :
    AdjoinRoot.mk generator (registerPoly (crcShift crc)) =
      AdjoinRoot.mk generator (registerPoly crc * X) := by
  rw [← registerPoly_shiftLeft, crcShift]
  by_cases htop : crc &&& 0x8000 ≠ 0
  · have hbit := (and_0x8000_ne_zero_iff crc).1 htop
    -- the coefficient that leaves the register is cancelled by one generator
    rw [if_pos htop, hbit, ofBit_true, C_1, one_mul, registerPoly_xor, AdjoinRoot.mk_eq_mk]
    refine ⟨-1, ?_⟩
    rw [generator_eq]
    linear_combination (registerPoly 0x1021) * (CharTwo.two_eq_zero : (2 : (ZMod 2)[X]) = 0)
  · have hbit := Bool.eq_false_iff.2 ((not_congr (and_0x8000_ne_zero_iff crc)).1 htop)
    rw [if_neg htop, hbit, ofBit_false, C_0, zero_mul, zero_add]

theorem mk_iterate_crcShift (n : Nat) (crc : UInt16) :
    AdjoinRoot.mk generator (registerPoly (crcShift^[n] crc)) =
      AdjoinRoot.mk generator (registerPoly crc * X ^ n) := by
  induction n with
  | zero => rw [Function.iterate_zero_apply, pow_zero, mul_one]
  | succ n ih =>
      rw [Function.iterate_succ_apply', mk_crcShift, map_mul, ih, ← map_mul, mul_assoc, ← pow_succ]

/-- One byte multiplies by `X^8` and adds the byte at the upper end. -/
theorem mk_crcStep (crc : UInt16) (b : UInt8) :
    AdjoinRoot.mk generator (registerPoly (crcStep crc b)) =
      AdjoinRoot.mk generator
        (registerPoly crc * X ^ 8 + bitPoly (bits 8 b.toNat) * X ^ 16) := by
  -- the byte enters at the upper end of the register, eight places up
  have hbyte : registerPoly (b.toUInt16 <<< 8) = bitPoly (bits 8 b.toNat) * X ^ 8 := by
    have hnat : (b.toUInt16 <<< 8).toNat = (b.toNat <<< 8) % 2 ^ 16 := by
      rw [UInt16.toNat_shiftLeft, UInt8.toNat_toUInt16]
      rfl
    rw [registerPoly, hnat, bits_mod_two_pow le_rfl, bits_shiftLeft 8 8, bitPoly_append,
      bitPoly_replicate_false, List.length_replicate, add_zero]
  have hsplit : (registerPoly crc + bitPoly (bits 8 b.toNat) * X ^ 8) * X ^ 8 =
      registerPoly crc * X ^ 8 + bitPoly (bits 8 b.toNat) * X ^ 16 := by
    ring
  rw [crcStep, mk_iterate_crcShift, registerPoly_xor, hbyte, hsplit]

/-- The register after the whole input. -/
theorem mk_crc16Xmodem (data : List UInt8) :
    AdjoinRoot.mk generator (registerPoly (crc16Xmodem data)) =
      AdjoinRoot.mk generator (bitPoly (byteBits data) * X ^ 16) := by
  -- the loop reads from the front, so the last byte is the last step
  induction data using List.reverseRecOn with
  | nil =>
      have hzero : registerPoly (crc16Xmodem []) = 0 := by
        rw [registerPoly]
        exact (congrArg bitPoly (bits_zero_right 16)).trans (bitPoly_replicate_false 16)
      rw [hzero, byteBits_nil, bitPoly_nil, zero_mul]
  | append_singleton data b ih =>
      have hstep : crc16Xmodem (data ++ [b]) = crcStep (crc16Xmodem data) b := by
        rw [crc16Xmodem, List.foldl_append]
        rfl
      have hbits : byteBits (data ++ [b]) = byteBits data ++ bits 8 b.toNat := by
        simp
      calc AdjoinRoot.mk generator (registerPoly (crc16Xmodem (data ++ [b])))
          = AdjoinRoot.mk generator (registerPoly (crc16Xmodem data)) *
                AdjoinRoot.mk generator (X ^ 8) +
              AdjoinRoot.mk generator (bitPoly (bits 8 b.toNat) * X ^ 16) := by
            rw [hstep, mk_crcStep, map_add, map_mul]
        _ = AdjoinRoot.mk generator ((bitPoly (byteBits data) * X ^ 8 +
              bitPoly (bits 8 b.toNat)) * X ^ 16) := by
            rw [ih, ← map_mul, ← map_add]
            congr 1
            ring
        _ = AdjoinRoot.mk generator (bitPoly (byteBits (data ++ [b])) * X ^ 16) := by
            rw [hbits, bitPoly_append, length_bits]

/-- The checksum is the check of the bits of the input. -/
theorem registerPoly_crc16Xmodem (data : List UInt8) :
    registerPoly (crc16Xmodem data) = check generator ((byteBits data).map ofBit) := by
  refine eq_check_of_dvd_sub monic_generator (degree_registerPoly_lt _) ?_
  rw [natDegree_generator]
  exact AdjoinRoot.mk_eq_mk.1 (mk_crc16Xmodem data)

/-- Inputs with one checksum do not differ in a window of at most sixteen bits only. -/
theorem eq_of_crc16Xmodem_eq {data data' : List UInt8} {pre w w' post : List Bool}
    (hlen : w.length = w'.length) (hw : w.length ≤ 16)
    (hbits : byteBits data = pre ++ w ++ post) (hbits' : byteBits data' = pre ++ w' ++ post)
    (h : crc16Xmodem data = crc16Xmodem data') : w = w' := by
  have hcheck := congrArg registerPoly h
  simp only [registerPoly_crc16Xmodem, hbits, hbits', List.map_append] at hcheck
  have hwindow : w.map ofBit = w'.map ofBit := by
    refine eq_of_check_eq_of_window monic_generator generator_coeff_zero ?_ ?_ hcheck
    · rw [List.length_map, List.length_map, hlen]
    · rw [List.length_map, natDegree_generator]
      exact hw
  exact List.map_injective_iff.2 ofBit_injective hwindow

/-- Inputs of one length and one checksum that differ only within sixteen consecutive bits are one
input. -/
theorem eq_of_crc16Xmodem_eq_of_differWithin {data data' : List UInt8}
    (hlen : data.length = data'.length)
    (hdiffer : DifferWithin 16 (byteBits data) (byteBits data'))
    (h : crc16Xmodem data = crc16Xmodem data') : data = data' := by
  have hlength : (byteBits data).length = (byteBits data').length := by
    rw [length_byteBits, length_byteBits, hlen]
  rcases (differWithin_iff hlength).1 hdiffer with ⟨pre, w, w', post, hbits, hbits', hwindow, hw⟩
  have hsame : w = w' := eq_of_crc16Xmodem_eq hwindow hw hbits hbits' h
  apply byteBits_inj.1
  rw [hbits, hbits', hsame]

/-- The checksum is the polynomial CRC: the remainder of the input, most significant bit first,
shifted by sixteen places.  So it tells inputs apart that differ in a burst of sixteen bits. -/
theorem crc16Xmodem_polynomial_crc (data : List UInt8) :
    registerPoly (crc16Xmodem data) = bitPoly (byteBits data) * X ^ 16 % generator ∧
      ∀ data' : List UInt8, data.length = data'.length → data ≠ data' →
        DifferWithin 16 (byteBits data) (byteBits data') →
          crc16Xmodem data ≠ crc16Xmodem data' := by
  constructor
  · rw [registerPoly_crc16Xmodem, check, natDegree_generator, bitPoly]
    exact modByMonic_eq_mod _ monic_generator
  · intro data' hlen hne hdiffer hcrc
    exact hne (eq_of_crc16Xmodem_eq_of_differWithin hlen hdiffer hcrc)

/-- A burst of sixteen bits across three bytes. -/
theorem crc16Xmodem_polynomial_crc_three_bytes :
    crc16Xmodem [0x00, 0x00, 0x00] ≠ crc16Xmodem [0x0f, 0xff, 0xf0] := by
  have hdiffer : DifferWithin 16 (byteBits [0x00, 0x00, 0x00]) (byteBits [0x0f, 0xff, 0xf0]) := by
    rw [differWithin_iff (by decide)]
    exact ⟨List.replicate 4 false, List.replicate 16 false, List.replicate 16 true,
      List.replicate 4 false, by decide, by decide, by decide, by decide⟩
  exact (crc16Xmodem_polynomial_crc [0x00, 0x00, 0x00]).2 _ rfl (by decide) hdiffer

/-! ## The checksum as it is stored -/

/-- The bits of the two bytes of a checksum, the low byte first. -/
def checksumBits (crc : UInt16) : List Bool :=
  byteBits [crcLow crc, crcHigh crc]

theorem checksumBits_eq (crc : UInt16) :
    checksumBits crc = bits 8 crc.toNat ++ bits 8 (crc.toNat >>> 8) := by
  rw [checksumBits, byteBits_cons, byteBits_cons, byteBits_nil, List.append_nil, toNat_crcLow,
    toNat_crcHigh, bits_mod_two_pow le_rfl]

@[simp] theorem length_checksumBits (crc : UInt16) : (checksumBits crc).length = 16 := by
  simp [checksumBits]

theorem checksumBits_inj {a b : UInt16} : checksumBits a = checksumBits b ↔ a = b := by
  constructor
  · intro h
    have hbytes := byteBits_inj.1 h
    rw [List.cons.injEq, List.cons.injEq] at hbytes
    calc a
        = u16FromLeBytes (crcLow a) (crcHigh a) := (u16FromLeBytes_eq_iff.2 ⟨rfl, rfl⟩).symm
      _ = b := u16FromLeBytes_eq_iff.2 ⟨hbytes.1, hbytes.2.1⟩
  · rintro rfl
    rfl

theorem checksumBits_xor (a b : UInt16) :
    checksumBits (a ^^^ b) = List.zipWith xor (checksumBits a) (checksumBits b) := by
  -- each stored byte is linear in the register
  rw [checksumBits_eq, checksumBits_eq, checksumBits_eq, UInt16.toNat_xor,
    Nat.shiftRight_xor_distrib, bits_xor, bits_xor, List.zipWith_append (by simp)]

/-- Where two stored checksums agree at the end, their difference vanishes. -/
theorem checksumBits_xor_suffix {a b : UInt16} {k : Nat}
    (h : (checksumBits a).drop k = (checksumBits b).drop k) :
    (checksumBits (a ^^^ b)).drop k = List.replicate (16 - k) false := by
  rw [checksumBits_xor, List.drop_zipWith, h, List.zipWith_self, List.eq_replicate_iff]
  constructor
  · rw [List.length_map, List.length_drop, length_checksumBits]
  · intro c hc
    rcases List.mem_map.1 hc with ⟨b, _, rfl⟩
    exact Bool.xor_self b

end StellarRecrypt
