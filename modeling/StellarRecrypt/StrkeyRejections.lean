import StellarRecrypt.StrkeyTheorems

/-!
# StrkeyRejections — why a strkey is rejected

The texts of the errors say which check failed; the checks are made in one order, each on what the
ones before it let through.  `Rejection` states for every text which strings it is about, without
running a decoder, and the decoders report exactly that.  The text of `b32_decode` for an empty
string is not among them, and the versions reported are the seven others that begin with the letter.
-/

namespace StellarRecrypt

open ByteString
open BitStream
open Outcome

/-! ## The base32 layer -/

/-- Bytes are symbols, up to the first that is none. -/
theorem symbols_or_stranger (bytes : List UInt8) :
    (∃ idx : List (Fin 32), bytes = idx.map b32Byte) ∨
      ∃ (idx : List (Fin 32)) (c : UInt8) (rest : List UInt8),
        bytes = idx.map b32Byte ++ c :: rest ∧ b32Value c = none := by
  induction bytes with
  | nil => exact Or.inl ⟨[], rfl⟩
  | cons c bytes ih =>
      cases hc : b32Value c with
      | none => exact Or.inr ⟨[], c, bytes, rfl, hc⟩
      | some v =>
          rcases eq_b32Byte_of_b32Value hc with ⟨i, rfl, _⟩
          rcases ih with ⟨idx, rfl⟩ | ⟨idx, c, rest, rfl, hnone⟩
          · exact Or.inl ⟨i :: idx, rfl⟩
          · exact Or.inr ⟨i :: idx, c, rest, rfl, hnone⟩

theorem foldlM_b32DecodeStep_stranger {idx : List (Fin 32)} {c : UInt8} {rest : List UInt8}
    (hc : b32Value c = none) (st : Repacker UInt8) :
    (idx.map b32Byte ++ c :: rest).foldlM b32DecodeStep st =
      err (.invalidStrkey ("invalid base32 character: " ++ String.singleton (Char.ofUInt8 c))) := by
  induction idx generalizing st with
  | nil =>
      rw [List.map_nil, List.nil_append, List.foldlM_cons, b32DecodeStep, hc]
      rfl
  | cons i idx ih =>
      have hstep : b32DecodeStep st (b32Byte i) = .ok (b32PushSymbol st i) := by
        rw [b32DecodeStep, b32Value_b32Byte]
        rfl
      rw [List.map_cons, List.cons_append, List.foldlM_cons, hstep, ok_bind, ih]

theorem b32Decode_stranger {s : List Char} {idx : List (Fin 32)} {c : UInt8} {rest : List UInt8}
    (hs : utf8Bytes (normalise s) = idx.map b32Byte ++ c :: rest) (hc : b32Value c = none) :
    b32Decode s =
      err (.invalidStrkey ("invalid base32 character: " ++ String.singleton (Char.ofUInt8 c))) := by
  have hne : ¬ (normalise s).isEmpty := by
    intro hempty
    rw [List.isEmpty_iff.1 hempty] at hs
    exact List.cons_ne_nil c rest (List.append_eq_nil_iff.1 hs.symm).2
  rw [b32Decode]
  simp only [hne, Bool.false_eq_true, if_false]
  rw [hs, foldlM_b32DecodeStep_stranger hc, err_bind]

/-- The bytes of a string of the alphabet: eight bits each, the rest dropped. -/
theorem exists_b32Decode_length {s : List Char} {idx : List (Fin 32)} (hne : idx ≠ [])
    (hs : normalise s = idx.map b32Char) :
    ∃ out, b32Decode s = .ok out ∧ out.length = 5 * idx.length / 8 := by
  rcases exists_b32Decode hne hs with ⟨out, dropped, hout, hdropped, hbits⟩
  have hlen := congrArg List.length hbits
  rw [length_symbolBits, List.length_append, length_byteBits] at hlen
  exact ⟨out, hout, by omega⟩

/-- 35 bytes are the bits of 56 symbols. -/
theorem exists_b32Encode_symbols {raw : List UInt8} (hlen : raw.length = 35) :
    ∃ code : List (Fin 32), b32Encode raw = code.map b32Char ∧ code.length = 56 ∧
      symbolBits code = byteBits raw := by
  have hne : raw ≠ [] := by
    rintro rfl
    simp at hlen
  rcases b32Encode_roundtrip hne with ⟨code, hcode, hcount, hbits, _⟩
  rw [hlen] at hcount hbits
  rw [hcount, Nat.sub_self, List.replicate_zero, List.append_nil] at hbits
  exact ⟨code, hcode, hcount, hbits⟩

/-- 35 bytes in front of further symbols are decoded first. -/
theorem b32Decode_of_encode {s : List Char} {raw : List UInt8} {extra : List (Fin 32)}
    (hlen : raw.length = 35) (hs : normalise s = b32Encode raw ++ extra.map b32Char) :
    ∃ rest, b32Decode s = .ok (raw ++ rest) := by
  rcases exists_b32Encode_symbols hlen with ⟨code, hcode, hcount, hcodeBits⟩
  rw [hcode, ← List.map_append] at hs
  have hne : code ++ extra ≠ [] := by
    intro hnil
    rw [(List.append_eq_nil_iff.1 hnil).1] at hcount
    simp at hcount
  rcases exists_b32Decode hne hs with ⟨out, dropped, hout, _, hbits⟩
  have hlength := congrArg List.length hbits
  rw [length_symbolBits, List.length_append, List.length_append, length_byteBits, hcount] at hlength
  -- the first 56 symbols are the 35 bytes
  have hsplit : byteBits (out.take 35) ++ (byteBits (out.drop 35) ++ dropped) =
      byteBits raw ++ symbolBits extra := by
    rw [← List.append_assoc, ← byteBits_append, List.take_append_drop, ← hbits, symbolBits_append,
      hcodeBits]
  have htake := ((byteBits_append_inj (by rw [List.length_take, hlen]; omega)).1 hsplit).1
  refine ⟨out.drop 35, ?_⟩
  rw [hout, ← htake, List.take_append_drop]

/-- 56 symbols or more begin with an encoding of 35 bytes. -/
theorem exists_b32Encode_of_long {s : List Char} {idx : List (Fin 32)} (hlong : 56 ≤ idx.length)
    (hs : normalise s = idx.map b32Char) :
    ∃ (raw : List UInt8) (extra : List (Fin 32)), raw.length = 35 ∧
      normalise s = b32Encode raw ++ extra.map b32Char := by
  have hne : idx ≠ [] := by
    rintro rfl
    simp at hlong
  rcases exists_b32Decode hne hs with ⟨out, dropped, _, hdropped, hbits⟩
  have hlen := congrArg List.length hbits
  rw [length_symbolBits, List.length_append, length_byteBits] at hlen
  have hraw : (out.take 35).length = 35 := by
    rw [List.length_take]
    omega
  rcases exists_b32Encode_symbols hraw with ⟨code, hcode, hcount, hcodeBits⟩
  have hsplit : symbolBits (idx.take 56) ++ symbolBits (idx.drop 56) =
      symbolBits code ++ (byteBits (out.drop 35) ++ dropped) := by
    rw [← symbolBits_append, List.take_append_drop, hbits, hcodeBits, ← List.append_assoc,
      ← byteBits_append, List.take_append_drop]
  have htake := ((symbolBits_append_inj (by rw [List.length_take, hcount]; omega)).1 hsplit).1
  refine ⟨out.take 35, idx.drop 56, hraw, ?_⟩
  rw [hs, hcode, ← htake, ← List.map_append, List.take_append_drop]

/-! ## The first symbol -/

/-- The letter of a kind survives the normalisation. -/
theorem head?_normalise {s : List Char} {i : Fin 32} (h : (trim s).head? = some (b32Char i)) :
    (normalise s).head? = some (b32Char i) := by
  rcases List.head?_eq_some_iff.1 h with ⟨rest, hrest⟩
  rcases b32Char_kept i with ⟨_, hdash, hupper⟩
  rw [normalise, hrest, List.filter_cons_of_pos (by simpa using hdash), List.map_cons, hupper]
  rfl

/-- The first symbol is the five high bits of the first byte. -/
theorem val_eq_of_head?_b32Encode {v : UInt8} {rest : List UInt8} {tail : List Char} {i : Fin 32}
    (h : (b32Encode (v :: rest) ++ tail).head? = some (b32Char i)) : v.toNat >>> 3 = i.val := by
  rcases b32Encode_spec (v :: rest) with ⟨idx, fill, _, hidx, hbits⟩
  rw [byteBits_cons, bits_add 5 3, List.append_assoc, List.append_assoc] at hbits
  cases idx with
  | nil =>
      have hlength := congrArg List.length hbits
      simp only [symbolBits_nil, List.length_nil, List.length_append, length_bits] at hlength
      omega
  | cons first others =>
      rw [hidx, List.map_cons, List.cons_append, List.head?_cons, Option.some_inj] at h
      obtain rfl : first = i := b32Char_injective h
      rw [symbolBits_cons] at hbits
      have hlt : v.toNat >>> 3 < 2 ^ 5 := by
        have hv := v.toNat_lt
        rw [Nat.shiftRight_eq_div_pow]
        omega
      exact ((bits_inj first.isLt hlt).1 (List.append_inj hbits (by simp)).1).symm

/-! ## Rejections -/

/-- The strings a decoder of one kind rejects, with the text it reports. -/
inductive Rejection (initial : Char) (message : String) (version : UInt8) (s : List Char) :
    String → Prop
  | letter : (trim s).head? ≠ some initial → Rejection initial message version s message
  | character (idx : List (Fin 32)) (c : UInt8) (rest : List UInt8) :
      (trim s).head? = some initial → utf8Bytes (normalise s) = idx.map b32Byte ++ c :: rest →
        b32Value c = none → Rejection initial message version s
          ("invalid base32 character: " ++ String.singleton (Char.ofUInt8 c))
  | short (idx : List (Fin 32)) :
      (trim s).head? = some initial → normalise s = idx.map b32Char → idx.length < 56 →
        Rejection initial message version s
          ("strkey too short: " ++ toString (5 * idx.length / 8) ++ " bytes")
  | version (v : UInt8) (payload : Bytes 32) (lo hi : UInt8) (extra : List (Fin 32)) :
      (trim s).head? = some initial →
        normalise s = b32Encode (v :: (payload.toList ++ [lo, hi])) ++ extra.map b32Char →
        v ≠ version → v.toNat >>> 3 = version.toNat >>> 3 → Rejection initial message version s
          ("unexpected version 0x" ++ hexByte v ++ ", expected 0x" ++ hexByte version)
  | checksum (payload : Bytes 32) (lo hi : UInt8) (extra : List (Fin 32)) :
      (trim s).head? = some initial →
        normalise s = b32Encode (version :: (payload.toList ++ [lo, hi])) ++ extra.map b32Char →
        u16FromLeBytes lo hi ≠ crc16Xmodem (version :: payload.toList) →
        Rejection initial message version s "checksum mismatch"

section Kind

variable {initial : Char} {message : String} {version : UInt8} {s : List Char}

/-- Behind the letter the decoder works on the bytes. -/
theorem decodeKind_of_head? (h : (trim s).head? = some initial) :
    decodeKind initial message version s = decodeWithVersion (trim s) version :=
  if_neg (not_not.2 h)

/-- What is decoded of a string that begins with the encoding of 35 bytes. -/
theorem decodeKind_of_encode (h : (trim s).head? = some initial) {v lo hi : UInt8}
    {payload : Bytes 32} {extra : List (Fin 32)}
    (hs : normalise s = b32Encode (v :: (payload.toList ++ [lo, hi])) ++ extra.map b32Char) :
    decodeKind initial message version s =
      if v ≠ version then
        err (.invalidStrkey
          ("unexpected version 0x" ++ hexByte v ++ ", expected 0x" ++ hexByte version))
      else if u16FromLeBytes lo hi ≠ crc16Xmodem (v :: payload.toList) then
        err (.invalidStrkey "checksum mismatch")
      else .ok payload := by
  rw [← normalise_trim s] at hs
  rcases b32Decode_of_encode (by simp) hs with ⟨rest, hraw⟩
  rw [List.cons_append, List.append_assoc] at hraw
  rw [decodeKind_of_head? h, decodeWithVersion_of_parts hraw]

/-- Each text is reported for its strings. -/
theorem Rejection.decodeKind_eq {i : Fin 32} (hinitial : b32Char i = initial) {text : String}
    (h : Rejection initial message version s text) :
    decodeKind initial message version s = err (.invalidStrkey text) := by
  cases h with
  | letter hhead => exact decodeKind_eq_err hhead
  | character idx c rest hhead hbytes hc =>
      rw [← normalise_trim s] at hbytes
      rw [decodeKind_of_head? hhead, decodeWithVersion, b32Decode_stranger hbytes hc, err_bind]
  | short idx hhead hs hlen =>
      -- the letter is a symbol, so something is decoded
      have hne : idx ≠ [] := by
        rintro rfl
        have hfirst := head?_normalise (hinitial ▸ hhead)
        rw [hs] at hfirst
        cases hfirst
      rw [← normalise_trim s] at hs
      rcases exists_b32Decode_length hne hs with ⟨out, hout, hcount⟩
      have hshort : out.length < 35 := by
        omega
      rw [decodeKind_of_head? hhead, decodeWithVersion, hout, ok_bind, decodeBody_of_short hshort,
        hcount]
  | version v payload lo hi extra hhead hs hne _ =>
      rw [decodeKind_of_encode hhead hs, if_pos hne]
  | checksum payload lo hi extra hhead hs hcrc =>
      rw [decodeKind_of_encode hhead hs, if_neg (not_not.2 rfl), if_pos hcrc]

/-- Every string is rejected with one of the texts or accepted. -/
theorem rejection_or_accepted {i : Fin 32} (hinitial : b32Char i = initial)
    (hi : i.val = version.toNat >>> 3) (s : List Char) :
    (∃ text, Rejection initial message version s text) ∨
      ∃ payload, decodeKind initial message version s = .ok payload := by
  by_cases hhead : (trim s).head? = some initial
  · rcases symbols_or_stranger (utf8Bytes (normalise s)) with
      ⟨idx, hidx⟩ | ⟨idx, c, rest, hbytes, hc⟩
    · have hs := utf8Bytes_eq_map_b32Byte_iff.1 hidx
      by_cases hlen : idx.length < 56
      · exact Or.inl ⟨_, .short idx hhead hs hlen⟩
      -- long enough: version, payload and checksum can be read
      rcases exists_b32Encode_of_long (Nat.le_of_not_lt hlen) hs with ⟨raw, extra, hraw, hencode⟩
      rcases exists_strkey_parts hraw.ge with ⟨v, payload, lo, hi', rest, rfl⟩
      have hrest : rest = [] := by
        simp only [List.length_cons, List.length_append, payload.length_eq] at hraw
        exact List.length_eq_zero_iff.1 (by omega)
      rw [hrest] at hencode
      have hfirst := head?_normalise (hinitial ▸ hhead)
      rw [hencode] at hfirst
      have hhigh := val_eq_of_head?_b32Encode hfirst
      by_cases hversion : v = version
      · subst hversion
        by_cases hcrc : u16FromLeBytes lo hi' = crc16Xmodem (v :: payload.toList)
        · refine Or.inr ⟨payload, ?_⟩
          rw [decodeKind_of_encode hhead hencode, if_neg (not_not.2 rfl), if_neg (not_not.2 hcrc)]
        · exact Or.inl ⟨_, .checksum payload lo hi' extra hhead hencode hcrc⟩
      · exact Or.inl ⟨_, .version v payload lo hi' extra hhead hencode hversion (hhigh.trans hi)⟩
    · exact Or.inl ⟨_, .character idx c rest hhead hbytes hc⟩
  · exact Or.inl ⟨_, .letter hhead⟩

theorem decodeKind_eq_err_iff {i : Fin 32} (hinitial : b32Char i = initial)
    (hi : i.val = version.toNat >>> 3) {e : Error} :
    decodeKind initial message version s = err e ↔
      ∃ text, e = .invalidStrkey text ∧ Rejection initial message version s text := by
  constructor
  · intro h
    have hcases : (∃ text, Rejection initial message version s text) ∨
        ∃ payload, decodeKind initial message version s = .ok payload :=
      rejection_or_accepted hinitial hi s
    rcases hcases with ⟨text, ht⟩ | ⟨payload, hp⟩
    · rw [ht.decodeKind_eq hinitial, err_inj] at h
      exact ⟨text, h.symm, ht⟩
    · rw [hp] at h
      cases h
  · rintro ⟨text, rfl, ht⟩
    exact ht.decodeKind_eq hinitial

end Kind

/-- Both decoders report exactly the rejections of their kind, each with its text. -/
theorem strkey_rejections (s : List Char) (e : Error) :
    (decodePublic s = err e ↔ ∃ text, e = .invalidStrkey text ∧
        Rejection 'G' "public key must start with G" versionPubkey s text) ∧
      (decodeSeed s = err e ↔ ∃ text, e = .invalidStrkey text ∧
        Rejection 'S' "secret key must start with S" versionSeed s text) :=
  ⟨decodeKind_eq_err_iff (i := 6) rfl rfl, decodeKind_eq_err_iff (i := 18) rfl rfl⟩

end StellarRecrypt
