import StellarRecrypt.Checksum

/-!
# TypoDetection — single wrong symbols and swapped neighbours

A symbol carries five bits, so a replaced symbol is an error in five consecutive bits of an encoding
and a swap of neighbours one in ten.  No two bodies of strkeys differ in a window that short: inside
the payload the checksum finds the burst, inside the checksum the payload is intact, and across the
border, where the low byte of the checksum comes first, the register is run on the few bits that
precede it.
-/

namespace StellarRecrypt

open ByteString
open BitStream
open CyclicCode
open Outcome
open Polynomial

/-! ## Code words -/

/-- The bits of the data and of its checksum as it is stored. -/
def codeword (data : List UInt8) : List Bool :=
  byteBits data ++ checksumBits (crc16Xmodem data)

theorem byteBits_strkeyBody (version : UInt8) (payload : Bytes 32) :
    byteBits (strkeyBody version payload) = codeword (version :: payload.toList) := by
  rw [strkeyBody, byteBits_append, codeword, checksumBits]

theorem registerPoly_eq_of_lt {j e : Nat} (hj : j ≤ 16) (he : e < 2 ^ j) :
    registerPoly (UInt16.ofNat e) = bitPoly (bits j e) := by
  have hwide : e < 2 ^ 16 := lt_of_lt_of_le he (Nat.pow_le_pow_right Nat.two_pos hj)
  have hsplit : bits 16 e = List.replicate (16 - j) false ++ bits j e := by
    rw [← bits_of_lt he, Nat.sub_add_cancel hj]
  rw [registerPoly, UInt16.toNat_ofNat_of_lt' hwide, hsplit, bitPoly_append,
    bitPoly_replicate_false, zero_mul, zero_add]

/-- Inputs that differ in their last bits: the checksums differ by the register run on the
difference. -/
theorem crc16Xmodem_xor_of_suffix {data data' : List UInt8} {pre a a' : List Bool}
    (hlen : a.length = a'.length) (ha : a.length ≤ 16) (h : byteBits data = pre ++ a)
    (h' : byteBits data' = pre ++ a') :
    ∃ e < 2 ^ a.length, (e = 0 → a = a') ∧
      crc16Xmodem data ^^^ crc16Xmodem data' = crcShift^[16] (UInt16.ofNat e) := by
  rcases exists_bits_eq a with ⟨m, hm, hbits⟩
  rcases exists_bits_eq a' with ⟨n, hn, hbits'⟩
  rw [← hlen] at hn hbits'
  have hlt : m ^^^ n < 2 ^ a.length := Nat.xor_lt_two_pow hm hn
  refine ⟨m ^^^ n, hlt, ?_, ?_⟩
  · intro hzero
    rw [← hbits, ← hbits', Nat.xor_eq_zero_iff.1 hzero]
  · have hdiff : bitPoly (bits a.length (m ^^^ n)) = bitPoly a + bitPoly a' := by
      rw [bitPoly_bits_xor, hbits, hbits']
    -- the common prefix occurs twice and vanishes
    have hsum : bitPoly (byteBits data) + bitPoly (byteBits data') = bitPoly a + bitPoly a' := by
      rw [h, h', bitPoly_append, bitPoly_append, ← hlen]
      linear_combination
        (bitPoly pre * X ^ a.length) * (CharTwo.two_eq_zero : (2 : (ZMod 2)[X]) = 0)
    apply mk_registerPoly_injective
    calc AdjoinRoot.mk generator (registerPoly (crc16Xmodem data ^^^ crc16Xmodem data'))
        = AdjoinRoot.mk generator
            ((bitPoly (byteBits data) + bitPoly (byteBits data')) * X ^ 16) := by
          rw [registerPoly_xor, map_add, mk_crc16Xmodem, mk_crc16Xmodem, add_mul, map_add]
      _ = AdjoinRoot.mk generator (registerPoly (crcShift^[16] (UInt16.ofNat (m ^^^ n)))) := by
          rw [hsum, ← hdiff, ← registerPoly_eq_of_lt ha hlt, ← mk_iterate_crcShift]

/-- The register run on a difference of the last payload bits is seen in the part of the stored
checksum that a window of ten bits leaves out. -/
theorem crcShift_iterate_stored (e : Fin (2 ^ 9)) :
    e ≠ 0 → (checksumBits (crcShift^[16] (UInt16.ofNat e.val))).drop (9 - e.val.log2) ≠
      List.replicate (7 + e.val.log2) false := by
  revert e
  decide +kernel

theorem eq_zero_of_stored_suffix {j k e : Nat} (hk : 0 < k) (hwindow : j + k ≤ 10)
    (he : e < 2 ^ j) (hsuffix : (checksumBits (crcShift^[16] (UInt16.ofNat e))).drop k =
      List.replicate (16 - k) false) :
    e = 0 := by
  by_contra hne
  have hlog : e.log2 < j := (Nat.log2_lt hne).2 he
  have hlt : e < 2 ^ 9 := lt_of_lt_of_le he (Nat.pow_le_pow_right Nat.two_pos (by omega))
  refine crcShift_iterate_stored ⟨e, hlt⟩ (fun h => hne (congrArg Fin.val h)) ?_
  -- the suffix that starts above the highest bit of `e` is a suffix of the given one
  have hdrop := congrArg (List.drop (9 - e.log2 - k)) hsuffix
  have hlength : 16 - k - (9 - e.log2 - k) = 7 + e.log2 := by
    omega
  rw [List.drop_drop, List.drop_replicate, hlength] at hdrop
  rwa [← Nat.add_sub_cancel' (show k ≤ 9 - e.log2 by omega)]

/-! ## Windows in a code word -/

theorem crc16Xmodem_eq_of_bits_eq {data data' : List UInt8} (h : byteBits data = byteBits data') :
    crc16Xmodem data = crc16Xmodem data' := by
  apply mk_registerPoly_injective
  rw [mk_crc16Xmodem, mk_crc16Xmodem, h]

/-- Across the border: the two parts of the window agree. -/
theorem eq_of_border_window {data data' : List UInt8} {pre a a' b b' post : List Bool}
    (ha : a.length = a'.length) (hb : b.length = b'.length) (hwindow : a.length + b.length ≤ 10)
    (hbits : byteBits data = pre ++ a) (hbits' : byteBits data' = pre ++ a')
    (hstored : checksumBits (crc16Xmodem data) = b ++ post)
    (hstored' : checksumBits (crc16Xmodem data') = b' ++ post) : a = a' ∧ b = b' := by
  rcases Nat.eq_zero_or_pos b.length with hnone | hpos
  · -- the window ends at the border
    have hb' : b' = [] := List.length_eq_zero_iff.1 (hb.symm.trans hnone)
    have hb0 : b = [] := List.length_eq_zero_iff.1 hnone
    rw [hb0] at hstored
    rw [hb'] at hstored'
    have hcrc := checksumBits_inj.1 (hstored.trans hstored'.symm)
    refine ⟨?_, hb0.trans hb'.symm⟩
    exact eq_of_crc16Xmodem_eq ha (by omega) (hbits.trans (List.append_nil _).symm)
      (hbits'.trans (List.append_nil _).symm) hcrc
  rcases crc16Xmodem_xor_of_suffix ha (by omega) hbits hbits' with ⟨e, he, hzero, hxor⟩
  have hsuffix : (checksumBits (crc16Xmodem data)).drop b.length =
      (checksumBits (crc16Xmodem data')).drop b.length := by
    rw [hstored, hstored', List.drop_left, hb, List.drop_left]
  have hvanish := checksumBits_xor_suffix hsuffix
  rw [hxor] at hvanish
  have hdata : a = a' := hzero (eq_zero_of_stored_suffix hpos hwindow he hvanish)
  -- equal data have equal checksums, so the rest of the window is equal as well
  have hsame : byteBits data = byteBits data' := by
    rw [hbits, hbits', hdata]
  rw [crc16Xmodem_eq_of_bits_eq hsame, hstored'] at hstored
  exact ⟨hdata, (List.append_inj_left hstored hb.symm).symm⟩

/-- Code words that agree outside a window of at most ten bits agree. -/
theorem eq_of_codeword_window {data data' : List UInt8} {pre w w' post : List Bool}
    (hlen : w.length = w'.length) (hw : w.length ≤ 10) (h : codeword data = pre ++ w ++ post)
    (h' : codeword data' = pre ++ w' ++ post) : w = w' := by
  have hdata : (byteBits data).length = (byteBits data').length := by
    have htotal := congrArg List.length h
    have htotal' := congrArg List.length h'
    simp only [codeword, List.length_append, length_checksumBits] at htotal htotal'
    omega
  -- a burst in the data, an error in the stored checksum, or one across the border
  rcases window_cases hdata hlen h h' with ⟨rest, hbits, hbits', hstored⟩ |
    ⟨rest, hbits, hstored, hstored'⟩ | ⟨a, a', b, b', hsplit, hsplit', ha, hb, hparts⟩
  · exact eq_of_crc16Xmodem_eq hlen (le_trans hw (by decide)) hbits hbits'
      (checksumBits_inj.1 hstored)
  · rw [crc16Xmodem_eq_of_bits_eq hbits, hstored'] at hstored
    exact (List.append_cancel_left (List.append_cancel_right hstored)).symm
  · rcases hparts with ⟨hbits, hbits', hstored, hstored'⟩
    rw [hsplit, List.length_append] at hw
    rcases eq_of_border_window ha hb hw hbits hbits' hstored hstored' with ⟨hfirst, hsecond⟩
    rw [hsplit, hsplit', hfirst, hsecond]

/-! ## Typos -/

/-- One character replaced by another one of the alphabet, or two unequal neighbours swapped. -/
inductive Typo : List Char → List Char → Prop
  | replace (l r : List Char) (c c' : Char) :
      c' ∈ b32Alphabet → c' ≠ c → Typo (l ++ c :: r) (l ++ c' :: r)
  | swap (l r : List Char) (c c' : Char) :
      c ≠ c' → Typo (l ++ c :: c' :: r) (l ++ c' :: c :: r)

theorem exists_b32Char_eq {c : Char} (h : c ∈ b32Alphabet) : ∃ i, b32Char i = c :=
  List.mem_iff_get.1 h

/-- In symbols, a typo changes a window of at most two. -/
theorem Typo.exists_symbols {idx : List (Fin 32)} {s : List Char}
    (h : Typo (idx.map b32Char) s) :
    ∃ l w w' r : List (Fin 32), idx = l ++ w ++ r ∧ s = (l ++ w' ++ r).map b32Char ∧
      w.length = w'.length ∧ w.length ≤ 2 ∧ w ≠ w' := by
  generalize hidx : idx.map b32Char = text at h
  cases h with
  | replace l r c c' hmem hne =>
      rcases List.map_eq_append_iff.1 hidx with ⟨left, rest, rfl, rfl, hrest⟩
      rcases List.map_eq_cons_iff.1 hrest with ⟨i, right, rfl, rfl, rfl⟩
      rcases exists_b32Char_eq hmem with ⟨i', rfl⟩
      refine ⟨left, [i], [i'], right, by simp, by simp, rfl, one_le_two, ?_⟩
      intro heq
      exact hne (congrArg b32Char (List.cons.inj heq).1.symm)
  | swap l r c c' hne =>
      rcases List.map_eq_append_iff.1 hidx with ⟨left, rest, rfl, rfl, hrest⟩
      rcases List.map_eq_cons_iff.1 hrest with ⟨i, rest, rfl, rfl, hnext⟩
      rcases List.map_eq_cons_iff.1 hnext with ⟨i', right, rfl, rfl, rfl⟩
      refine ⟨left, [i, i'], [i', i], right, by simp, by simp, rfl, le_rfl, ?_⟩
      intro heq
      exact hne (congrArg b32Char (List.cons.inj heq).1)

/-- A decoder rejects an encoding of its kind with a typo in it. -/
theorem decodeKind_typo (initial : Char) (message : String) (version : UInt8) (p : Bytes 32)
    {s : List Char} (h : Typo (encodeWithVersion version p) s) :
    ∃ e, decodeKind initial message version s = err e := by
  refine exists_err_of_ne_panic (decodeKind_ne_panic _ _ _ _) fun q hq => ?_
  rcases exists_encodeWithVersion_eq version p with ⟨idx, hlen, hidx, hbits⟩
  rcases exists_encodeWithVersion_eq version q with ⟨code, hcode, hencode, hbits'⟩
  rw [hidx] at h
  rcases h.exists_symbols with ⟨l, w, w', r, rfl, rfl, hwindow, hshort, hne⟩
  rcases decodeKind_eq_ok_iff.1 hq with ⟨_, extra, haccepted⟩
  rw [normalise_map_b32Char, hencode, ← List.map_append] at haccepted
  have hsymbols := List.map_injective_iff.2 b32Char_injective haccepted
  -- the typo keeps the length, so nothing follows the checksum
  have hextra : extra = [] := by
    have hlength := congrArg List.length hsymbols
    simp only [List.length_append, hcode] at hlength hlen
    exact List.length_eq_zero_iff.1 (by omega)
  rw [hextra, List.append_nil] at hsymbols
  rw [← hsymbols] at hbits'
  rw [byteBits_strkeyBody, symbolBits_append, symbolBits_append] at hbits hbits'
  have hsame : symbolBits w = symbolBits w' := by
    refine eq_of_codeword_window ?_ ?_ hbits.symm hbits'.symm
    · rw [length_symbolBits, length_symbolBits, hwindow]
    · rw [length_symbolBits]
      omega
  exact hne (symbolBits_inj.1 hsame)

/-- Both decoders reject every typo in an encoding of their kind. -/
theorem strkey_detects_typos (p : Bytes 32) (s : List Char) :
    (Typo (encodePublic p) s → ∃ e, decodePublic s = err e) ∧
      (Typo (encodeSeed p) s → ∃ e, decodeSeed s = err e) :=
  ⟨decodeKind_typo _ _ _ p, decodeKind_typo _ _ _ p⟩

/-- The second letter of an address replaced. -/
theorem strkey_detects_typos_second_letter :
    ∃ e, decodePublic ('G' :: 'B' :: (encodePublic (Bytes.replicate 32 0)).drop 2) = err e := by
  have hletters : encodePublic (Bytes.replicate 32 0) =
      ['G'] ++ 'A' :: (encodePublic (Bytes.replicate 32 0)).drop 2 := by
    decide +kernel
  refine (strkey_detects_typos (Bytes.replicate 32 0) _).1 ?_
  have htypo := Typo.replace ['G'] ((encodePublic (Bytes.replicate 32 0)).drop 2) 'A' 'B'
    (by decide) (by decide)
  rwa [← hletters] at htypo

end StellarRecrypt
