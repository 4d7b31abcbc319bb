import StellarRecrypt.StrkeyRejections
import StellarRecrypt.TypoDetection

/-!
# BitErrors — scattered wrong bits in a strkey

A typo is a short burst; this module is about wrong bits anywhere in the 280 of a strkey.  With the
checksum's high byte first the bits are a multiple of the generator, which vanishes at one and
divides no `X ^ k + 1` of that length, so two strkeys differ in four places at least.  Storing the
low byte first moves bits and keeps their number.  Four places are reached: adding the generator
itself to the last bytes of a payload keeps the checksum.
-/

namespace StellarRecrypt

open ByteString
open BitStream
open CyclicCode
open Outcome
open Polynomial

/-! ## The generator -/

theorem generator_eval_one : generator.eval 1 = 0 := by
  rw [generator]
  simp only [eval_add, eval_pow, eval_X, eval_one, one_pow]
  decide

theorem registerPoly_one : registerPoly 1 = 1 := by
  have hbits : bits 16 (1 : UInt16).toNat = List.replicate 15 false ++ [true] := by
    decide
  rw [registerPoly, hbits, bitPoly_append, bitPoly_replicate_false]
  simp [bitPoly_cons]

/-- The register started at one does not come back within the length of a strkey. -/
theorem one_notMem_iterate_crcShift : 1 ∉ List.iterate crcShift (crcShift 1) 279 := by
  decide +kernel

theorem not_generator_dvd_X_pow_add_one {k : Nat} (hpos : 0 < k) (hk : k < 280) :
    ¬ generator ∣ X ^ k + 1 := by
  intro h
  apply one_notMem_iterate_crcShift
  rw [List.mem_iterate]
  refine ⟨k - 1, by omega, ?_⟩
  rw [← Function.iterate_succ_apply, Nat.succ_eq_add_one, Nat.sub_add_cancel hpos]
  apply mk_registerPoly_injective
  rw [mk_iterate_crcShift, registerPoly_one, one_mul]
  refine (AdjoinRoot.mk_eq_mk.2 ?_).symm
  rwa [CharTwo.sub_eq_add]

/-! ## Words -/

/-- The data and its checksum as the register holds it. -/
def registerWord (data : List UInt8) : List Bool :=
  byteBits data ++ bits 16 (crc16Xmodem data).toNat

theorem length_registerWord (data : List UInt8) :
    (registerWord data).length = 8 * data.length + 16 := by
  rw [registerWord, List.length_append, length_byteBits, length_bits]

theorem generator_dvd_registerWord (data : List UInt8) :
    generator ∣ bitPoly (registerWord data) := by
  rw [registerWord, bitPoly_append, length_bits, ← CharTwo.sub_eq_add, ← AdjoinRoot.mk_eq_mk]
  exact (mk_crc16Xmodem data).symm

/-- Storing the low byte first keeps the distance. -/
theorem distance_checksumBits (a b : UInt16) :
    distance (checksumBits a) (checksumBits b) = distance (bits 16 a.toNat) (bits 16 b.toNat) := by
  rw [checksumBits_eq, checksumBits_eq, bits_add 8 8, bits_add 8 8, distance_append (by simp),
    distance_append (by simp), Nat.add_comm]

theorem distance_codeword {data data' : List UInt8} (hlen : data.length = data'.length) :
    distance (codeword data) (codeword data') =
      distance (registerWord data) (registerWord data') := by
  have hbits : (byteBits data).length = (byteBits data').length := by
    rw [length_byteBits, length_byteBits, hlen]
  rw [codeword, codeword, registerWord, registerWord, distance_append hbits,
    distance_append hbits, distance_checksumBits]

theorem weight_map_ofBit (l : List Bool) : weight (l.map ofBit) = l.count true := by
  rw [weight, ← ofBit_true, List.count_map_of_injective _ _ ofBit_injective]

theorem bitPoly_zipWith_xor {l m : List Bool} (hlen : l.length = m.length) :
    bitPoly (List.zipWith xor l m) = bitPoly l + bitPoly m := by
  induction l generalizing m with
  | nil => simp [List.length_eq_zero_iff.1 hlen.symm]
  | cons b l ih =>
      cases m with
      | nil => simp at hlen
      | cons c m =>
          have hrest : l.length = m.length := Nat.succ.inj hlen
          rw [List.zipWith_cons_cons, bitPoly_cons, bitPoly_cons, bitPoly_cons, ih hrest,
            List.length_zipWith, hrest, Nat.min_self, ofBit_xor, C_add]
          ring

/-! ## The distance of two strkeys -/

/-- Unequal data of at most 33 bytes: the words differ in four places at least. -/
theorem four_le_distance_codeword {data data' : List UInt8} (hlen : data.length = data'.length)
    (hshort : data.length ≤ 33) (hne : data ≠ data') :
    4 ≤ distance (codeword data) (codeword data') := by
  have hwords : (registerWord data).length = (registerWord data').length := by
    rw [length_registerWord, length_registerWord, hlen]
  have hdvd : generator ∣
      ofCoeffs ((List.zipWith xor (registerWord data) (registerWord data')).map ofBit) := by
    have hsum := bitPoly_zipWith_xor hwords
    rw [bitPoly] at hsum
    rw [hsum]
    exact dvd_add (generator_dvd_registerWord data) (generator_dvd_registerWord data')
  rw [distance_codeword hlen, distance, ← weight_map_ofBit]
  refine four_le_weight generator_coeff_zero generator_eval_one ?_ ?_ hdvd
  · intro k hpos hk
    rw [List.length_map, List.length_zipWith, ← hwords, Nat.min_self, length_registerWord] at hk
    exact not_generator_dvd_X_pow_add_one hpos (by omega)
  · -- words at distance zero are equal, and a word begins with its data
    intro hzero
    rw [weight_map_ofBit] at hzero
    have hsame := eq_of_distance_eq_zero hwords hzero
    rw [registerWord, registerWord] at hsame
    exact hne ((byteBits_append_inj hlen).1 hsame).1

theorem four_le_distance_strkeyBody {version version' : UInt8} {p p' : Bytes 32}
    (hne : strkeyBody version p ≠ strkeyBody version' p') :
    4 ≤ distance (byteBits (strkeyBody version p)) (byteBits (strkeyBody version' p')) := by
  rw [byteBits_strkeyBody, byteBits_strkeyBody]
  refine four_le_distance_codeword ?_ ?_ ?_
  · simp
  · simp
  · intro hdata
    apply hne
    rw [strkeyBody, strkeyBody, hdata]

/-! ## Four wrong bits -/

/-- Changing the bits of a mask. -/
theorem distance_bits_xor (w n e : Nat) :
    distance (bits w n) (bits w (n ^^^ e)) = (bits w e).count true := by
  rw [distance, ← bits_xor, ← Nat.xor_assoc, Nat.xor_self, Nat.zero_xor]

/-- Three bytes that spell the generator have no influence on the checksum. -/
theorem crc16Xmodem_xor_generator (data : List UInt8) (a b c : UInt8) :
    crc16Xmodem (data ++ [a ^^^ 0x01, b ^^^ 0x10, c ^^^ 0x21]) =
      crc16Xmodem (data ++ [a, b, c]) := by
  have hbyte : ∀ x y : UInt8,
      bitPoly (bits 8 (x ^^^ y).toNat) = bitPoly (bits 8 x.toNat) + bitPoly (bits 8 y.toNat) := by
    intro x y
    rw [UInt8.toNat_xor, bitPoly_bits_xor]
  have hgenerator : bitPoly (bits 8 (0x01 : UInt8).toNat) * X ^ 16 +
      bitPoly (bits 8 (0x10 : UInt8).toNat) * X ^ 8 + bitPoly (bits 8 (0x21 : UInt8).toNat) =
        generator := by
    have h1 : bits 8 (0x01 : UInt8).toNat = List.replicate 7 false ++ [true] := by
      decide
    have h10 : bits 8 (0x10 : UInt8).toNat =
        List.replicate 3 false ++ true :: List.replicate 4 false := by
      decide
    have h21 : bits 8 (0x21 : UInt8).toNat =
        List.replicate 2 false ++ true :: (List.replicate 4 false ++ [true]) := by
      decide
    rw [h1, h10, h21, generator]
    simp only [bitPoly_append, bitPoly_replicate_false, bitPoly_cons, bitPoly_nil, ofBit_true, C_1,
      List.length_cons, List.length_append, List.length_replicate, List.length_nil]
    ring
  apply mk_registerPoly_injective
  rw [mk_crc16Xmodem, mk_crc16Xmodem, AdjoinRoot.mk_eq_mk]
  refine ⟨X ^ 16, ?_⟩
  simp only [byteBits_append, byteBits_cons, byteBits_nil, List.append_nil, bitPoly_append, hbyte,
    List.length_append, length_bits]
  rw [← hgenerator]
  ring

/-- Another payload at distance four. -/
theorem exists_distance_four (version : UInt8) (p : Bytes 32) :
    ∃ q, distance (byteBits (strkeyBody version p)) (byteBits (strkeyBody version q)) = 4 := by
  rcases exists_block_append (n := 29) (l := p.toList) (by simp) with ⟨front, rest, hp⟩
  have hrest : rest.length = 3 := by
    have hlength := congrArg List.length hp
    rw [List.length_append, p.length_eq, front.length_eq] at hlength
    omega
  rcases List.length_eq_three.1 hrest with ⟨a, b, c, rfl⟩
  refine ⟨⟨front.toList ++ [a ^^^ 0x01, b ^^^ 0x10, c ^^^ 0x21], by simp⟩, ?_⟩
  have hcrc := crc16Xmodem_xor_generator (version :: front.toList) a b c
  rw [List.cons_append, List.cons_append, ← hp] at hcrc
  rw [byteBits_strkeyBody, byteBits_strkeyBody, codeword, codeword, hcrc, hp]
  simp only [byteBits_cons, byteBits_append, byteBits_nil, List.append_nil, UInt8.toNat_xor]
  rw [distance_append (by simp), distance_self, distance_append (by simp), distance_self,
    distance_append (by simp), distance_self, distance_append (by simp), distance_bits_xor,
    distance_append (by simp), distance_bits_xor, distance_bits_xor]
  decide

/-- The bits of two strkeys, of whatever kind, differ in four places at least, and every strkey has
another of its kind that differs in four. -/
theorem strkey_min_distance (version : UInt8) (p : Bytes 32) :
    (∀ version' p', distance (byteBits (strkeyBody version p)) (byteBits (strkeyBody version' p')) <
        4 ↔ version = version' ∧ p = p') ∧
      ∃ q, distance (byteBits (strkeyBody version p)) (byteBits (strkeyBody version q)) = 4 := by
  refine ⟨fun version' p' => ⟨fun hlt => ?_, ?_⟩, exists_distance_four version p⟩
  · have hsame : strkeyBody version p = strkeyBody version' p' := by
      by_contra hne
      exact absurd (four_le_distance_strkeyBody hne) (Nat.not_le.2 hlt)
    rw [strkeyBody, strkeyBody, List.cons_append, List.cons_append, List.cons.injEq,
      block_append_inj] at hsame
    exact ⟨hsame.1, hsame.2.1⟩
  · rintro ⟨rfl, rfl⟩
    rw [distance_self]
    decide

/-! ## The decoders -/

/-- What a decoder accepts starts with the encoding of a body. -/
theorem decodeKind_ne_ok_of_distance {initial : Char} {message : String} {version kind : UInt8}
    {p q : Bytes 32} {raw : List UInt8} {s : List Char} {extra : List (Fin 32)}
    (hlen : raw.length = 35) (hne : raw ≠ strkeyBody version p)
    (hfew : distance (byteBits raw) (byteBits (strkeyBody version p)) ≤ 3)
    (hs : normalise s = b32Encode raw ++ extra.map b32Char) :
    decodeKind initial message kind s ≠ .ok q := by
  intro hok
  rcases decodeKind_eq_ok_iff.1 hok with ⟨_, extra', haccepted⟩
  -- the bytes in front are one and the same, and on one side a body
  rcases b32Decode_of_encode hlen hs with ⟨rest, hraw⟩
  rcases b32Decode_of_encode (length_strkeyBody kind q) haccepted with ⟨rest', hbody⟩
  rw [hraw] at hbody
  have hlengths : raw.length = (strkeyBody kind q).length := by
    rw [hlen, length_strkeyBody]
  obtain rfl : raw = strkeyBody kind q := (List.append_inj (Except.ok.inj hbody) hlengths).1
  exact absurd (four_le_distance_strkeyBody hne) (by omega)

/-- A strkey of either kind with one, two or three wrong bits is rejected by both decoders, however
it is spelled and whatever follows it. -/
theorem strkey_detects_wrong_bits {version : UInt8} {p : Bytes 32} {raw : List UInt8}
    {s : List Char} {extra : List (Fin 32)} (hlen : raw.length = 35)
    (hne : raw ≠ strkeyBody version p)
    (hfew : distance (byteBits raw) (byteBits (strkeyBody version p)) ≤ 3)
    (hs : normalise s = b32Encode raw ++ extra.map b32Char) :
    (∃ e, decodePublic s = err e) ∧ ∃ e, decodeSeed s = err e := by
  constructor
  · exact exists_err_of_ne_panic (decodeKind_ne_panic _ _ _ _) fun _ =>
      decodeKind_ne_ok_of_distance hlen hne hfew hs
  · exact exists_err_of_ne_panic (decodeKind_ne_panic _ _ _ _) fun _ =>
      decodeKind_ne_ok_of_distance hlen hne hfew hs

/-- Three wrong bits, far apart, in the encoding of an account. -/
theorem strkey_detects_wrong_bits_three :
    ∃ e, decodePublic (b32Encode ((((strkeyBody versionPubkey (Bytes.replicate 32 0)).set 5
      0x01).set 20 0x80).set 31 0x10)) = err e := by
  have hne : (((strkeyBody versionPubkey (Bytes.replicate 32 0)).set 5 0x01).set 20 0x80).set 31
      0x10 ≠ strkeyBody versionPubkey (Bytes.replicate 32 0) := by
    decide +kernel
  have hs : normalise (b32Encode ((((strkeyBody versionPubkey (Bytes.replicate 32 0)).set 5
      0x01).set 20 0x80).set 31 0x10)) = b32Encode ((((strkeyBody versionPubkey
        (Bytes.replicate 32 0)).set 5 0x01).set 20 0x80).set 31 0x10) ++ [].map b32Char := by
    decide +kernel
  exact (strkey_detects_wrong_bits (by decide +kernel) hne (by decide +kernel) hs).1

end StellarRecrypt
