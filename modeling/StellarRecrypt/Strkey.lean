import StellarRecrypt.Base32

/-!
# Strkey — account keys and seeds as text

The rest of `strkey.rs`: `version ‖ payload ‖ crc16`, in base32.  The two kinds of key differ in the
version byte and in the first character, so both decoders are one function applied to a kind.
-/

namespace StellarRecrypt

open ByteString
open Outcome

/-- `VERSION_PUBKEY`. -/
def versionPubkey : UInt8 := 0x30

/-- `VERSION_SEED`. -/
def versionSeed : UInt8 := 0x90

/-! ## The checksum -/

/-- One round of the inner loop. -/
def crcShift (crc : UInt16) : UInt16 :=
  if crc &&& 0x8000 ≠ 0 then (crc <<< 1) ^^^ 0x1021 else crc <<< 1

/-- One byte: eight rounds. -/
def crcStep (crc : UInt16) (b : UInt8) : UInt16 :=
  crcShift^[8] (crc ^^^ (b.toUInt16 <<< 8))

def crc16Xmodem (data : List UInt8) : UInt16 :=
  data.foldl crcStep 0

/-- `u16::from_le_bytes`. -/
def u16FromLeBytes (lo hi : UInt8) : UInt16 :=
  UInt16.ofNat (leNat [lo, hi])

/-- `(crc & 0xff) as u8`. -/
def crcLow (crc : UInt16) : UInt8 :=
  (crc &&& 0xff).toUInt8

/-- `(crc >> 8) as u8`. -/
def crcHigh (crc : UInt16) : UInt8 :=
  (crc >>> 8).toUInt8

theorem toNat_crcLow (crc : UInt16) : (crcLow crc).toNat = crc.toNat % 2 ^ 8 := by
  rw [crcLow, UInt16.toNat_toUInt8, UInt16.toNat_and]
  exact (congrArg (· % 2 ^ 8) (Nat.and_two_pow_sub_one_eq_mod crc.toNat 8)).trans (Nat.mod_mod _ _)

theorem toNat_crcHigh (crc : UInt16) : (crcHigh crc).toNat = crc.toNat >>> 8 := by
  rw [crcHigh, UInt16.toNat_toUInt8, UInt16.toNat_shiftRight]
  refine Nat.mod_eq_of_lt ?_
  have hcrc := crc.toNat_lt
  rw [Nat.shiftRight_eq_div_pow]
  show crc.toNat / 2 ^ 8 < 2 ^ 8
  omega

theorem u16FromLeBytes_eq_iff {lo hi : UInt8} {crc : UInt16} :
    u16FromLeBytes lo hi = crc ↔ lo = crcLow crc ∧ hi = crcHigh crc := by
  have hlo := lo.toNat_lt
  have hhi := hi.toNat_lt
  have hcrc := crc.toNat_lt
  rw [← UInt16.toNat_inj, ← UInt8.toNat_inj, ← UInt8.toNat_inj, toNat_crcLow, toNat_crcHigh,
    Nat.shiftRight_eq_div_pow, u16FromLeBytes, UInt16.toNat_ofNat', leNat_cons, leNat_cons,
    leNat_nil]
  omega

/-! ## Encoding -/

/-- The bytes an encoding spells: version, payload, checksum in little-endian order. -/
def strkeyBody (version : UInt8) (payload : Bytes 32) : List UInt8 :=
  let body := version :: payload.toList
  let crc := crc16Xmodem body
  body ++ [crcLow crc, crcHigh crc]

def encodeWithVersion (version : UInt8) (payload : Bytes 32) : List Char :=
  b32Encode (strkeyBody version payload)

def encodePublic (edPub : Bytes 32) : List Char :=
  encodeWithVersion versionPubkey edPub

def encodeSeed (seed : Bytes 32) : List Char :=
  encodeWithVersion versionSeed seed

/-! ## Decoding -/

/-- `{b:02x}`. -/
def hexByte (b : UInt8) : String :=
  String.ofList [Nat.digitChar (b.toNat / 16), Nat.digitChar (b.toNat % 16)]

/-- What `decode_with_version` does with the decoded bytes. -/
def decodeBody (raw : List UInt8) (expectedVersion : UInt8) : Outcome (Bytes 32) := do
  if raw.length < 35 then
    err (.invalidStrkey ("strkey too short: " ++ toString raw.length ++ " bytes"))
  else
    let raw ← Outcome.slice raw 0 35
    let version ← index raw 0
    if version ≠ expectedVersion then
      err (.invalidStrkey
        ("unexpected version 0x" ++ hexByte version ++ ", expected 0x" ++ hexByte expectedVersion))
    else
      let payload ← Outcome.slice raw 1 33
      let checksum := u16FromLeBytes (← index raw 33) (← index raw 34)
      let expected := crc16Xmodem (← Outcome.slice raw 0 33)
      if checksum ≠ expected then
        err (.invalidStrkey "checksum mismatch")
      else
        copyFromSlice 32 payload

def decodeWithVersion (s : List Char) (expectedVersion : UInt8) : Outcome (Bytes 32) := do
  let raw ← b32Decode s
  decodeBody raw expectedVersion

/-- A decoder of one kind: the first character, the message without it, the version byte. -/
def decodeKind (initial : Char) (message : String) (version : UInt8) (s : List Char) :
    Outcome (Bytes 32) :=
  let s := trim s
  if s.head? ≠ some initial then err (.invalidStrkey message)
  else decodeWithVersion s version

def decodePublic (g : List Char) : Outcome (Bytes 32) :=
  decodeKind 'G' "public key must start with G" versionPubkey g

def decodeSeed (s : List Char) : Outcome (Bytes 32) :=
  decodeKind 'S' "secret key must start with S" versionSeed s

/-! ## What the decoders accept -/

theorem length_strkeyBody (version : UInt8) (payload : Bytes 32) :
    (strkeyBody version payload).length = 35 := by
  simp [strkeyBody]

/-- At least 35 bytes are a version, a payload, a checksum and a rest. -/
theorem exists_strkey_parts {raw : List UInt8} (h : 35 ≤ raw.length) :
    ∃ (version : UInt8) (payload : Bytes 32) (lo hi : UInt8) (rest : List UInt8),
      raw = version :: (payload.toList ++ lo :: hi :: rest) := by
  rcases raw with _ | ⟨version, raw⟩
  · simp at h
  rw [List.length_cons] at h
  rcases exists_block_append (n := 32) (l := raw) (by omega) with ⟨payload, rest, rfl⟩
  rw [List.length_append, payload.length_eq] at h
  rcases rest with _ | ⟨lo, _ | ⟨hi, rest⟩⟩
  · simp at h
  · simp at h
  · exact ⟨version, payload, lo, hi, rest, rfl⟩

theorem decodeBody_of_short {raw : List UInt8} (h : raw.length < 35) (expectedVersion : UInt8) :
    decodeBody raw expectedVersion =
      err (.invalidStrkey ("strkey too short: " ++ toString raw.length ++ " bytes")) := if_pos h

/-- The checks on the decoded bytes, in their order. -/
theorem decodeBody_of_parts (expectedVersion version : UInt8) (payload : Bytes 32) (lo hi : UInt8)
    (rest : List UInt8) :
    decodeBody (version :: (payload.toList ++ lo :: hi :: rest)) expectedVersion =
      if version ≠ expectedVersion then
        err (.invalidStrkey ("unexpected version 0x" ++ hexByte version ++ ", expected 0x" ++
          hexByte expectedVersion))
      else if u16FromLeBytes lo hi ≠ crc16Xmodem (version :: payload.toList) then
        err (.invalidStrkey "checksum mismatch")
      else .ok payload := by
  have hlen : ¬ (version :: (payload.toList ++ lo :: hi :: rest)).length < 35 := by
    simp only [List.length_cons, List.length_append, payload.length_eq]
    omega
  have hcut : Outcome.slice (version :: (payload.toList ++ lo :: hi :: rest)) 0 35 =
      .ok (version :: (payload.toList ++ [lo, hi])) := by
    have htake : (version :: (payload.toList ++ lo :: hi :: rest)).take 35 =
        version :: (payload.toList ++ [lo, hi]) := by
      rw [List.take_succ_cons, List.take_append, payload.length_eq,
        List.take_of_length_le (by simp)]
      rfl
    rw [Outcome.slice, if_pos ⟨Nat.zero_le _, Nat.le_of_not_lt hlen⟩, slice_zero, htake]
  have hpayload : Outcome.slice (version :: (payload.toList ++ [lo, hi])) 1 33 =
      .ok payload.toList := by
    rw [Outcome.slice, if_pos (by simp), ByteString.slice, List.drop_succ_cons, List.drop_zero,
      List.take_append_of_le_length (by simp), List.take_of_length_le (by simp)]
  have hbody : Outcome.slice (version :: (payload.toList ++ [lo, hi])) 0 33 =
      .ok (version :: payload.toList) := by
    rw [Outcome.slice, if_pos (by simp), slice_zero, List.take_succ_cons,
      List.take_append_of_le_length (by simp), List.take_of_length_le (by simp)]
  -- the checksum bytes come after the version and 32 bytes of payload
  have hat : ∀ k, (version :: (payload.toList ++ [lo, hi]))[33 + k]? = [lo, hi][k]? := by
    intro k
    have hk : 33 + k = 32 + k + 1 := by omega
    rw [hk, List.getElem?_cons_succ, List.getElem?_append_right (by simp), payload.length_eq,
      Nat.add_sub_cancel_left]
  have hlo : index (version :: (payload.toList ++ [lo, hi])) 33 = .ok lo := by
    rw [index, hat 0]
    rfl
  have hhi : index (version :: (payload.toList ++ [lo, hi])) 34 = .ok hi := by
    rw [index, hat 1]
    rfl
  have hversion : index (version :: (payload.toList ++ [lo, hi])) 0 = .ok version := rfl
  simp only [decodeBody, hlen, if_false, hcut, ok_bind, hversion, hpayload, hlo, hhi, hbody,
    copyFromSlice, Bytes.ofList?_toList]

theorem decodeWithVersion_of_parts {s : List Char} {expectedVersion version : UInt8}
    {payload : Bytes 32} {lo hi : UInt8} {rest : List UInt8}
    (hraw : b32Decode s = .ok (version :: (payload.toList ++ lo :: hi :: rest))) :
    decodeWithVersion s expectedVersion =
      if version ≠ expectedVersion then
        err (.invalidStrkey ("unexpected version 0x" ++ hexByte version ++ ", expected 0x" ++
          hexByte expectedVersion))
      else if u16FromLeBytes lo hi ≠ crc16Xmodem (version :: payload.toList) then
        err (.invalidStrkey "checksum mismatch")
      else .ok payload := by
  rw [decodeWithVersion, hraw, ok_bind, decodeBody_of_parts]

/-- The ranges of `decode_with_version` are those of 35 bytes, which it has. -/
theorem decodeBody_ne_panic (raw : List UInt8) (version : UInt8) :
    decodeBody raw version ≠ panic := by
  by_cases hlen : raw.length < 35
  · rw [decodeBody_of_short hlen]
    exact err_ne_panic _
  rcases exists_strkey_parts (Nat.le_of_not_lt hlen) with ⟨v, payload, lo, hi, rest, rfl⟩
  rw [decodeBody_of_parts]
  split
  · exact err_ne_panic _
  split
  · exact err_ne_panic _
  · exact ok_ne_panic _

theorem decodeWithVersion_ne_panic (s : List Char) (version : UInt8) :
    decodeWithVersion s version ≠ panic :=
  bind_ne_panic (b32Decode_ne_panic s) fun raw _ => decodeBody_ne_panic raw version

/-- The first 35 decoded bytes have to be the body of an encoding; the rest is not looked at. -/
theorem decodeWithVersion_eq_ok_iff_body {s : List Char} {version : UInt8} {payload : Bytes 32} :
    decodeWithVersion s version = .ok payload ↔
      ∃ rest, b32Decode s = .ok (strkeyBody version payload ++ rest) := by
  constructor
  · intro h
    rcases bind_eq_ok_iff.1 h with ⟨raw, hraw, h'⟩
    by_cases hlen : raw.length < 35
    · rw [decodeBody_of_short hlen] at h'
      exact absurd h' (err_ne_ok _ _)
    -- the version is compared before the checksum
    rcases exists_strkey_parts (Nat.le_of_not_lt hlen) with ⟨v, p, lo, hi, rest, rfl⟩
    rw [decodeBody_of_parts] at h'
    split at h'
    · exact absurd h' (err_ne_ok _ _)
    rename_i hversion
    split at h'
    · exact absurd h' (err_ne_ok _ _)
    rename_i hcrc
    cases h'
    rcases u16FromLeBytes_eq_iff.1 (not_not.1 hcrc) with ⟨hlo, hhi⟩
    refine ⟨rest, ?_⟩
    rw [hraw, strkeyBody, ← not_not.1 hversion, ← hlo, ← hhi]
    simp
  · rintro ⟨rest, hraw⟩
    have hparts : b32Decode s = .ok (version :: (payload.toList ++
        crcLow (crc16Xmodem (version :: payload.toList)) ::
        crcHigh (crc16Xmodem (version :: payload.toList)) :: rest)) := by
      rw [hraw, strkeyBody]
      simp
    rw [decodeWithVersion_of_parts hparts, if_neg (not_not.2 rfl),
      if_neg (not_not.2 (u16FromLeBytes_eq_iff.2 ⟨rfl, rfl⟩))]

/-- 35 bytes are 56 symbols with no bit to spare. -/
theorem exists_encodeWithVersion_eq (version : UInt8) (payload : Bytes 32) :
    ∃ idx : List (Fin 32), idx.length = 56 ∧ encodeWithVersion version payload = idx.map b32Char ∧
      symbolBits idx = byteBits (strkeyBody version payload) := by
  rcases b32Encode_spec (strkeyBody version payload) with ⟨idx, fill, hfill, hidx, hbits⟩
  have hlen := congrArg List.length hbits
  rw [length_symbolBits, List.length_append, length_byteBits, length_strkeyBody,
    List.length_replicate] at hlen
  have hzero : fill = 0 := by omega
  refine ⟨idx, by omega, hidx, ?_⟩
  rw [hbits, hzero, List.replicate_zero, List.append_nil]

/-- The accepted spellings of a payload: its encoding, and any further symbols. -/
theorem decodeWithVersion_eq_ok_iff {s : List Char} {version : UInt8} {payload : Bytes 32} :
    decodeWithVersion s version = .ok payload ↔
      ∃ extra : List (Fin 32),
        normalise s = encodeWithVersion version payload ++ extra.map b32Char := by
  rcases exists_encodeWithVersion_eq version payload with ⟨code, hcode, hencode, hbits⟩
  rw [decodeWithVersion_eq_ok_iff_body, hencode]
  constructor
  · rintro ⟨rest, hraw⟩
    rcases b32Decode_eq_ok_iff.1 hraw with ⟨idx, dropped, _, hidx, _, hstream⟩
    have hlen := congrArg List.length hstream
    rw [length_symbolBits, List.length_append, length_byteBits, List.length_append,
      length_strkeyBody] at hlen
    -- the first 56 symbols carry the first 280 bits
    have hsplit : symbolBits (idx.take 56) ++ symbolBits (idx.drop 56) =
        symbolBits code ++ (byteBits rest ++ dropped) := by
      calc symbolBits (idx.take 56) ++ symbolBits (idx.drop 56)
          = symbolBits idx := by
            rw [← symbolBits_append, List.take_append_drop]
        _ = symbolBits code ++ (byteBits rest ++ dropped) := by
            rw [hstream, byteBits_append, hbits, List.append_assoc]
    have htake := ((symbolBits_append_inj (by rw [List.length_take, hcode]; omega)).1 hsplit).1
    refine ⟨idx.drop 56, ?_⟩
    rw [hidx, ← htake, ← List.map_append, List.take_append_drop]
  · rintro ⟨extra, hs⟩
    rw [← List.map_append] at hs
    have hne : code ++ extra ≠ [] := by
      intro hnil
      rw [(List.append_eq_nil_iff.1 hnil).1] at hcode
      simp at hcode
    rcases exists_b32Decode hne hs with ⟨out, dropped, hout, hdropped, hstream⟩
    have hlen := congrArg List.length hstream
    rw [length_symbolBits, List.length_append, List.length_append, length_byteBits, hcode] at hlen
    have hsplit : byteBits (out.take 35) ++ (byteBits (out.drop 35) ++ dropped) =
        byteBits (strkeyBody version payload) ++ symbolBits extra := by
      calc byteBits (out.take 35) ++ (byteBits (out.drop 35) ++ dropped)
          = byteBits out ++ dropped := by
            rw [← List.append_assoc, ← byteBits_append, List.take_append_drop]
        _ = byteBits (strkeyBody version payload) ++ symbolBits extra := by
            rw [← hstream, symbolBits_append, hbits]
    have htake := ((byteBits_append_inj
      (by rw [List.length_take, length_strkeyBody]; omega)).1 hsplit).1
    refine ⟨out.drop 35, ?_⟩
    rw [hout, ← htake, List.take_append_drop]

theorem decodeKind_ne_panic (initial : Char) (message : String) (version : UInt8)
    (s : List Char) : decodeKind initial message version s ≠ panic := by
  rw [decodeKind]
  split
  · exact err_ne_panic _
  · exact decodeWithVersion_ne_panic _ _

/-- The accepted strings of one kind. -/
theorem decodeKind_eq_ok_iff {initial : Char} {message : String} {version : UInt8} {s : List Char}
    {payload : Bytes 32} :
    decodeKind initial message version s = .ok payload ↔
      (trim s).head? = some initial ∧ ∃ extra : List (Fin 32),
        normalise s = encodeWithVersion version payload ++ extra.map b32Char := by
  rw [decodeKind, ← normalise_trim s, ← decodeWithVersion_eq_ok_iff]
  by_cases h : (trim s).head? = some initial
  · simp only [h, ne_eq, not_true_eq_false, if_false, true_and]
  · simp only [h, ne_eq, not_false_eq_true, if_true, false_and, iff_false]
    exact err_ne_ok _ _

end StellarRecrypt
