import StellarRecrypt.Strkey

/-!
# StrkeyTheorems — which strings a strkey decoder accepts

Decoding inverts encoding, for the base32 layer and for every spelling of a strkey that the
normalisation undoes.  `decode_with_version` cuts what it decoded to 35 bytes, so a string may go on
after the checksum: an accepted string is the encoding of the payload returned, unless it goes on.
-/

namespace StellarRecrypt

open ByteString
open BitStream
open Outcome

/-! ## The base32 layer -/

/-- Characters of the alphabet are neither trimmed, removed nor changed. -/
theorem b32Char_kept (i : Fin 32) : isWhitespace (b32Char i) = false ∧ b32Char i ≠ '-' ∧
    toAsciiUppercase (b32Char i) = b32Char i := by
  revert i
  decide +kernel

theorem trim_map_b32Char (idx : List (Fin 32)) : trim (idx.map b32Char) = idx.map b32Char := by
  have hstart : (idx.map b32Char).dropWhile isWhitespace = idx.map b32Char := by
    cases idx with
    | nil => rfl
    | cons i idx => rw [List.map_cons, List.dropWhile_cons_of_neg (by simp [(b32Char_kept i).1])]
  rw [trim, hstart, List.rdropWhile_eq_self_iff]
  intro hne
  rcases List.mem_map.1 (List.getLast_mem hne) with ⟨i, _, hi⟩
  simp [← hi, (b32Char_kept i).1]

theorem normalise_map_b32Char (idx : List (Fin 32)) :
    normalise (idx.map b32Char) = idx.map b32Char := by
  have hkeep : (idx.map b32Char).filter (· ≠ '-') = idx.map b32Char := by
    rw [List.filter_eq_self]
    intro c hc
    rcases List.mem_map.1 hc with ⟨i, _, rfl⟩
    simpa using (b32Char_kept i).2.1
  rw [normalise, trim_map_b32Char, hkeep, List.map_map]
  exact List.map_congr_left fun i _ => (b32Char_kept i).2.2

/-- Base32 of RFC 4648 without padding characters: the symbols spell the bits of the data, filled
up with zero bits, and decoding gives the data back. -/
theorem b32Encode_roundtrip {data : List UInt8} (hne : data ≠ []) :
    ∃ idx : List (Fin 32), b32Encode data = idx.map b32Char ∧
      idx.length = (8 * data.length + 4) / 5 ∧
      symbolBits idx =
        byteBits data ++ List.replicate (5 * idx.length - 8 * data.length) false ∧
      b32Decode (b32Encode data) = .ok data := by
  rcases b32Encode_spec data with ⟨idx, fill, hfill, hidx, hbits⟩
  have hlen := congrArg List.length hbits
  rw [length_symbolBits, List.length_append, length_byteBits, List.length_replicate] at hlen
  have hpos := List.length_pos_iff.2 hne
  have hnonempty : idx ≠ [] := by
    rintro rfl
    rw [List.length_nil] at hlen
    omega
  have hfill_eq : fill = 5 * idx.length - 8 * data.length := by
    omega
  refine ⟨idx, hidx, by omega, by rw [hbits, hfill_eq], ?_⟩
  -- the zero bits are fewer than a byte, so the decoder drops them
  have hdropped : (List.replicate fill false).length < 8 := by
    rw [List.length_replicate]
    omega
  refine b32Decode_eq_ok_iff.2 ⟨idx, List.replicate fill false, hnonempty, ?_, hdropped, hbits⟩
  rw [hidx, normalise_map_b32Char]

/-- Two bytes. -/
theorem b32Encode_roundtrip_fo :
    b32Decode (b32Encode (ascii "fo")) = .ok (ascii "fo") := by
  have hdata : ascii "fo" ≠ [] := by
    decide
  rcases b32Encode_roundtrip hdata with ⟨_, _, _, _, hdecode⟩
  exact hdecode

/-! ## Encodings -/

/-- The first symbol of an encoding is the five high bits of the version. -/
theorem head?_encodeWithVersion (version : UInt8) (payload : Bytes 32) {i : Fin 32}
    (hi : i.val = version.toNat >>> 3) :
    (encodeWithVersion version payload).head? = some (b32Char i) := by
  rcases exists_encodeWithVersion_eq version payload with ⟨idx, hlen, hidx, hbits⟩
  cases idx with
  | nil => simp at hlen
  | cons first rest =>
      have hbody : strkeyBody version payload = version :: (payload.toList ++
          [crcLow (crc16Xmodem (version :: payload.toList)),
            crcHigh (crc16Xmodem (version :: payload.toList))]) := rfl
      rw [hbody, symbolBits_cons, byteBits_cons, bits_add 5 3, List.append_assoc] at hbits
      -- compare the first five bits of both sides
      have hfirst := (List.append_inj hbits (by simp)).1
      have hlt : version.toNat >>> 3 < 2 ^ 5 := by
        have hversion := version.toNat_lt
        rw [Nat.shiftRight_eq_div_pow]
        omega
      have hval := (bits_inj first.isLt hlt).1 hfirst
      have hsymbol : first = i := Fin.ext (hval.trans hi.symm)
      rw [hidx, hsymbol]
      rfl

/-- The normalised string is an encoding of the payload with further symbols after it. -/
def GoesOn (initial : Char) (version : UInt8) (payload : Bytes 32) (s : List Char) : Prop :=
  (trim s).head? = some initial ∧ ∃ extra : List (Fin 32), extra ≠ [] ∧
    normalise s = encodeWithVersion version payload ++ extra.map b32Char

theorem length_encodeWithVersion (version : UInt8) (payload : Bytes 32) :
    (encodeWithVersion version payload).length = 56 := by
  rcases exists_encodeWithVersion_eq version payload with ⟨idx, hlen, hidx, _⟩
  rw [hidx, List.length_map, hlen]

/-- An encoding is a spelling of itself. -/
theorem decodeKind_encodeWithVersion {initial : Char} {message : String} {version : UInt8}
    {i : Fin 32} (hi : i.val = version.toNat >>> 3) (hinitial : b32Char i = initial)
    (payload : Bytes 32) :
    decodeKind initial message version (encodeWithVersion version payload) = .ok payload := by
  have hhead := head?_encodeWithVersion version payload hi
  rcases exists_encodeWithVersion_eq version payload with ⟨idx, _, hidx, _⟩
  rw [hidx, hinitial] at hhead
  rw [decodeKind_eq_ok_iff, hidx, trim_map_b32Char, normalise_map_b32Char]
  exact ⟨hhead, [], (List.append_nil _).symm⟩

theorem decodePublic_encodePublic (p : Bytes 32) : decodePublic (encodePublic p) = .ok p :=
  decodeKind_encodeWithVersion (i := 6) rfl rfl p

theorem decodeSeed_encodeSeed (p : Bytes 32) : decodeSeed (encodeSeed p) = .ok p :=
  decodeKind_encodeWithVersion (i := 18) rfl rfl p

/-- A decoder of another kind does not get past the first character. -/
theorem decodeKind_eq_err {initial : Char} {message : String} {version : UInt8} {s : List Char}
    (h : (trim s).head? ≠ some initial) :
    decodeKind initial message version s = err (.invalidStrkey message) :=
  if_pos h

/-- Round trip under every tolerated spelling: an encoding has 56 characters and starts with the
letter of its kind, and every string that keeps the letter and normalises to the encoding is decoded
by its own decoder and rejected by the other. -/
theorem strkey_roundtrip (p : Bytes 32) :
    ((encodePublic p).length = 56 ∧ (encodePublic p).head? = some 'G') ∧
      ((encodeSeed p).length = 56 ∧ (encodeSeed p).head? = some 'S') ∧
      (∀ s, (trim s).head? = some 'G' → normalise s = encodePublic p →
        decodePublic s = .ok p ∧
          decodeSeed s = err (.invalidStrkey "secret key must start with S")) ∧
      ∀ s, (trim s).head? = some 'S' → normalise s = encodeSeed p →
        decodeSeed s = .ok p ∧
          decodePublic s = err (.invalidStrkey "public key must start with G") := by
  have hG : (encodePublic p).head? = some 'G' := head?_encodeWithVersion (i := 6) _ p rfl
  have hS : (encodeSeed p).head? = some 'S' := head?_encodeWithVersion (i := 18) _ p rfl
  refine ⟨⟨length_encodeWithVersion _ p, hG⟩, ⟨length_encodeWithVersion _ p, hS⟩, ?_, ?_⟩
  · intro s hinitial hs
    -- the other decoder stops at the letter
    have hother : (trim s).head? ≠ some 'S' := by
      rw [hinitial]
      decide
    exact ⟨decodeKind_eq_ok_iff.2 ⟨hinitial, [], hs.trans (List.append_nil _).symm⟩,
      decodeKind_eq_err hother⟩
  · intro s hinitial hs
    have hother : (trim s).head? ≠ some 'G' := by
      rw [hinitial]
      decide
    exact ⟨decodeKind_eq_ok_iff.2 ⟨hinitial, [], hs.trans (List.append_nil _).symm⟩,
      decodeKind_eq_err hother⟩

theorem decodeKind_canonical_iff {initial : Char} {message : String} {version : UInt8}
    {s : List Char} {payload : Bytes 32} :
    (decodeKind initial message version s = .ok payload →
        normalise s = encodeWithVersion version payload) ↔
      ¬ GoesOn initial version payload s := by
  rw [decodeKind_eq_ok_iff]
  constructor
  · rintro hcanonical ⟨hinitial, extra, hextra, hs⟩
    have heq := hcanonical ⟨hinitial, extra, hs⟩
    rw [hs, List.append_right_eq_self, List.map_eq_nil_iff] at heq
    exact hextra heq
  · rintro hnot ⟨hinitial, extra, hs⟩
    by_cases hextra : extra = []
    · rw [hs, hextra, List.map_nil, List.append_nil]
    · exact absurd ⟨hinitial, extra, hextra, hs⟩ hnot

/-- Both decoders accept only the encoding of what they return, except for strings that go on
after the checksum. -/
theorem strkey_decode_canonical_iff (s : List Char) (p : Bytes 32) :
    ((decodePublic s = .ok p → normalise s = encodePublic p) ↔
        ¬ GoesOn 'G' versionPubkey p s) ∧
      ((decodeSeed s = .ok p → normalise s = encodeSeed p) ↔
        ¬ GoesOn 'S' versionSeed p s) :=
  ⟨decodeKind_canonical_iff, decodeKind_canonical_iff⟩

/-- One symbol after the checksum is ignored. -/
theorem decodePublic_ignores_trailing_symbol :
    decodePublic (encodePublic (Bytes.replicate 32 0) ++ ['A']) = .ok (Bytes.replicate 32 0) ∧
      normalise (encodePublic (Bytes.replicate 32 0) ++ ['A']) ≠
        encodePublic (Bytes.replicate 32 0) := by
  decide +kernel

end StellarRecrypt
