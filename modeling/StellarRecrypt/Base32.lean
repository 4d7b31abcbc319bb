import Mathlib.Data.List.DropRight
import StellarRecrypt.Error
import StellarRecrypt.Lib.BitStream

/-!
# Base32 — the text layer of a strkey

`b32_encode` and `b32_decode` of `strkey.rs`.  Both loops push digits into a 64-bit accumulator
that is never masked and take digits of the other width out of it; `bits` counts the accumulated
bits that have not been taken out yet.  The invariant of both loops is one equation between bit
streams: what was taken out, followed by the `bits` low bits of the accumulator, is what was pushed.

A `&str` is a list of characters.
-/

namespace StellarRecrypt

open BitStream
open Outcome

/-! ## Strings -/

/-- `char::is_whitespace`: the Unicode property `White_Space`. -/
def isWhitespace (c : Char) : Bool :=
  let n := c.toNat
  (9 ≤ n && n ≤ 13) || n == 0x20 || n == 0x85 || n == 0xA0 || n == 0x1680 ||
    (0x2000 ≤ n && n ≤ 0x200A) || n == 0x2028 || n == 0x2029 || n == 0x202F || n == 0x205F ||
    n == 0x3000

/-- `str::trim`. -/
def trim (s : List Char) : List Char :=
  (s.dropWhile isWhitespace).rdropWhile isWhitespace

/-- `char::to_ascii_uppercase`. -/
def toAsciiUppercase (c : Char) : Char :=
  if 'a' ≤ c ∧ c ≤ 'z' then Char.ofNat (c.toNat - 32) else c

/-- `str::bytes`. -/
def utf8Bytes (s : List Char) : List UInt8 :=
  s.flatMap String.utf8EncodeChar

/-- The spelling `b32_decode` works on: `s.trim().replace('-', "")`, then `to_ascii_uppercase`. -/
def normalise (s : List Char) : List Char :=
  ((trim s).filter (· ≠ '-')).map toAsciiUppercase

theorem trim_trim (s : List Char) : trim (trim s) = trim s := by
  have hstart : (trim s).dropWhile isWhitespace = trim s := by
    have hpre : trim s <+: s.dropWhile isWhitespace := List.rdropWhile_prefix _ _
    rw [List.dropWhile_eq_self_iff]
    intro hpos
    rw [hpre.getElem hpos]
    exact List.dropWhile_get_zero_not _ _ (Nat.lt_of_lt_of_le hpos hpre.length_le)
  rw [trim, hstart, trim, List.rdropWhile_idempotent]

@[simp] theorem normalise_trim (s : List Char) : normalise (trim s) = normalise s := by
  rw [normalise, trim_trim, normalise]

/-! ## The alphabet -/

/-- `B32_ALPHABET`. -/
def b32Alphabet : List Char :=
  ['A', 'B', 'C', 'D', 'E', 'F', 'G', 'H', 'I', 'J', 'K', 'L', 'M', 'N', 'O', 'P',
    'Q', 'R', 'S', 'T', 'U', 'V', 'W', 'X', 'Y', 'Z', '2', '3', '4', '5', '6', '7']

/-- `B32_ALPHABET[idx] as char`. -/
def b32Char (idx : Fin 32) : Char :=
  b32Alphabet.get idx

/-- The index `x & 0x1f`. -/
def b32Index (x : UInt64) : Fin 32 :=
  ⟨(x &&& 0x1f).toNat, by
    have h : (x &&& 0x1f).toNat ≤ 0x1f := by
      simpa using Nat.and_le_right (n := x.toNat) (m := 0x1f)
    omega⟩

/-- The value of a byte of the input, as the `match` of `b32_decode` reads it. -/
def b32Value (c : UInt8) : Option UInt8 :=
  if 65 ≤ c ∧ c ≤ 90 then some (c - 65)
  else if 50 ≤ c ∧ c ≤ 55 then some (c - 50 + 26)
  else none

/-! ## The two loops -/

/-- What both loops carry. -/
structure Repacker (α : Type) where
  out : List α
  buffer : UInt64
  bits : Nat

/-- The state before the first digit. -/
def Repacker.start (α : Type) : Repacker α :=
  { out := [], buffer := 0, bits := 0 }

/-- `while bits >= 5`: the characters pushed, and the bits left. -/
def drain (buffer : UInt64) : Nat → List Char × Nat
  | bits + 5 =>
      (b32Char (b32Index (buffer >>> UInt64.ofNat bits)) :: (drain buffer bits).1,
        (drain buffer bits).2)
  | bits => ([], bits)

/-- The body of `for &b in data`. -/
def b32EncodeStep (st : Repacker Char) (b : UInt8) : Repacker Char :=
  let buffer := (st.buffer <<< 8) ||| b.toUInt64
  let (chars, left) := drain buffer (st.bits + 8)
  { out := st.out ++ chars, buffer := buffer, bits := left }

def b32Encode (data : List UInt8) : List Char :=
  let st := data.foldl b32EncodeStep (Repacker.start Char)
  if st.bits > 0 then
    st.out ++ [b32Char (b32Index (st.buffer <<< UInt64.ofNat (5 - st.bits)))]
  else st.out

/-- Five bits pushed, and a byte taken out when there is one. -/
def b32PushValue (st : Repacker UInt8) (val : UInt8) : Repacker UInt8 :=
  let buffer := (st.buffer <<< 5) ||| val.toUInt64
  let bits := st.bits + 5
  if bits ≥ 8 then
    { out := st.out ++ [((buffer >>> UInt64.ofNat (bits - 8)) &&& 0xff).toUInt8],
      buffer := buffer, bits := bits - 8 }
  else { out := st.out, buffer := buffer, bits := bits }

/-- The body of `for c in s.bytes()`. -/
def b32DecodeStep (st : Repacker UInt8) (c : UInt8) : Outcome (Repacker UInt8) :=
  match b32Value c with
  | some val => .ok (b32PushValue st val)
  | none => err (.invalidStrkey ("invalid base32 character: " ++ String.singleton (Char.ofUInt8 c)))

def b32Decode (s : List Char) : Outcome (List UInt8) := do
  let s := normalise s
  if s.isEmpty then err (.invalidStrkey "empty strkey")
  else
    let st ← (utf8Bytes s).foldlM b32DecodeStep (Repacker.start UInt8)
    return st.out

/-! ## Symbols and bytes as bits -/

/-- The bits of a string of alphabet indices. -/
def symbolBits (idx : List (Fin 32)) : List Bool :=
  stream 5 (idx.map Fin.val)

/-- The bits of a byte string. -/
def byteBits (data : List UInt8) : List Bool :=
  stream 8 (data.map UInt8.toNat)

@[simp] theorem symbolBits_nil : symbolBits [] = [] := rfl

@[simp] theorem symbolBits_cons (i : Fin 32) (idx : List (Fin 32)) :
    symbolBits (i :: idx) = bits 5 i ++ symbolBits idx := by
  simp [symbolBits]

@[simp] theorem symbolBits_append (l m : List (Fin 32)) :
    symbolBits (l ++ m) = symbolBits l ++ symbolBits m := by
  simp [symbolBits]

@[simp] theorem length_symbolBits (idx : List (Fin 32)) :
    (symbolBits idx).length = 5 * idx.length := by
  simp [symbolBits]

@[simp] theorem byteBits_nil : byteBits [] = [] := rfl

@[simp] theorem byteBits_cons (b : UInt8) (data : List UInt8) :
    byteBits (b :: data) = bits 8 b.toNat ++ byteBits data := by
  simp [byteBits]

@[simp] theorem byteBits_append (l m : List UInt8) :
    byteBits (l ++ m) = byteBits l ++ byteBits m := by
  simp [byteBits]

@[simp] theorem length_byteBits (data : List UInt8) : (byteBits data).length = 8 * data.length := by
  simp [byteBits]

theorem lt_of_mem_map_val (idx : List (Fin 32)) : ∀ n ∈ idx.map Fin.val, n < 2 ^ 5 := by
  intro n hn
  rcases List.mem_map.1 hn with ⟨i, _, rfl⟩
  exact i.isLt

theorem lt_of_mem_map_toNat (data : List UInt8) : ∀ n ∈ data.map UInt8.toNat, n < 2 ^ 8 := by
  intro n hn
  rcases List.mem_map.1 hn with ⟨b, _, rfl⟩
  exact b.toNat_lt

theorem map_val_inj {l m : List (Fin 32)} : l.map Fin.val = m.map Fin.val ↔ l = m :=
  (List.map_injective_iff.2 Fin.val_injective).eq_iff

theorem map_toNat_inj {l m : List UInt8} : l.map UInt8.toNat = m.map UInt8.toNat ↔ l = m := by
  have hinj : Function.Injective UInt8.toNat := fun _ _ h => UInt8.toNat_inj.1 h
  exact (List.map_injective_iff.2 hinj).eq_iff

/-- Indices are determined by their bits, whatever follows. -/
theorem symbolBits_append_inj {l m : List (Fin 32)} {s t : List Bool}
    (hlen : l.length = m.length) : symbolBits l ++ s = symbolBits m ++ t ↔ l = m ∧ s = t := by
  rw [symbolBits, symbolBits, stream_append_inj (by simpa using hlen) (lt_of_mem_map_val l)
    (lt_of_mem_map_val m), map_val_inj]

/-- Bytes are determined by their bits, whatever follows. -/
theorem byteBits_append_inj {l m : List UInt8} {s t : List Bool}
    (hlen : l.length = m.length) : byteBits l ++ s = byteBits m ++ t ↔ l = m ∧ s = t := by
  rw [byteBits, byteBits, stream_append_inj (by simpa using hlen) (lt_of_mem_map_toNat l)
    (lt_of_mem_map_toNat m), map_toNat_inj]

theorem symbolBits_inj {l m : List (Fin 32)} : symbolBits l = symbolBits m ↔ l = m := by
  rw [symbolBits, symbolBits, stream_inj (Nat.succ_pos 4) (lt_of_mem_map_val l)
    (lt_of_mem_map_val m), map_val_inj]

theorem byteBits_inj {l m : List UInt8} : byteBits l = byteBits m ↔ l = m := by
  rw [byteBits, byteBits, stream_inj (Nat.succ_pos 7) (lt_of_mem_map_toNat l)
    (lt_of_mem_map_toNat m), map_toNat_inj]

/-! ## The accumulator -/

/-- Pushing a digit of width `w`.  The bits that fall out at the top are not among the low ones. -/
theorem bits_push {w n : Nat} (buffer shift digit : UInt64) (hshift : shift.toNat = w)
    (hdigit : digit.toNat < 2 ^ w) (hwidth : n + w ≤ 64) (hw : w < 64) :
    bits (n + w) ((buffer <<< shift) ||| digit).toNat =
      bits n buffer.toNat ++ bits w digit.toNat := by
  have hmod : ((buffer <<< shift) ||| digit).toNat =
      (buffer.toNat <<< w ||| digit.toNat) % 2 ^ 64 := by
    rw [UInt64.toNat_or, UInt64.toNat_shiftLeft, hshift, Nat.mod_eq_of_lt hw,
      Nat.or_mod_two_pow, Nat.mod_eq_of_lt digit.toNat_lt]
  rw [hmod, bits_mod_two_pow hwidth, bits_shiftLeft_or hdigit]

/-- Taking a digit of width `w` out above the `n` low bits. -/
theorem bits_pop {w n : Nat} (buffer mask : UInt64) (hmask : mask.toNat = 2 ^ w - 1)
    (hn : n < 64) :
    bits (w + n) buffer.toNat =
      bits w ((buffer >>> UInt64.ofNat n) &&& mask).toNat ++ bits n buffer.toNat := by
  have hshift : (UInt64.ofNat n).toNat % 64 = n := by
    rw [UInt64.toNat_ofNat']
    omega
  rw [UInt64.toNat_and, hmask, bits_and_mask, UInt64.toNat_shiftRight, hshift, bits_add]

@[simp] theorem val_b32Index (x : UInt64) : (b32Index x).val = (x &&& 0x1f).toNat := rfl

/-! ## Encoding -/

/-- The inner loop takes out all the whole symbols. -/
theorem drain_spec (buffer : UInt64) (n : Nat) (hn : n < 64) :
    (drain buffer n).2 < 5 ∧ ∃ idx : List (Fin 32), (drain buffer n).1 = idx.map b32Char ∧
      bits n buffer.toNat = symbolBits idx ++ bits (drain buffer n).2 buffer.toNat := by
  induction n using drain.induct with
  -- the loop runs once more: five bits above the `n` that stay
  | case1 n ih =>
      rcases ih (by omega) with ⟨hlt, idx, hchars, hbits⟩
      refine ⟨hlt, b32Index (buffer >>> UInt64.ofNat n) :: idx, ?_, ?_⟩
      · rw [drain, List.map_cons, ← hchars]
      · have hpop : bits (n + 5) buffer.toNat =
            bits 5 (b32Index (buffer >>> UInt64.ofNat n)).val ++ bits n buffer.toNat := by
          rw [Nat.add_comm n 5, bits_pop buffer 0x1f (by rfl) (by omega), val_b32Index]
        rw [hbits] at hpop
        simpa [drain] using hpop
  | case2 n hsmall =>
      have hdrain : drain buffer n = ([], n) := by
        rw [drain]
        exact hsmall
      have hlt : n < 5 := by
        by_contra hge
        exact hsmall (n - 5) (by omega)
      rw [hdrain]
      exact ⟨hlt, [], rfl, rfl⟩

/-- The characters written and the bits left over are the bits of the bytes read. -/
structure Repacker.Encodes (st : Repacker Char) (data : List UInt8) : Prop where
  bits_lt : st.bits < 5
  stream_eq : ∃ idx : List (Fin 32), st.out = idx.map b32Char ∧
    symbolBits idx ++ BitStream.bits st.bits st.buffer.toNat = byteBits data

theorem encodes_start : (Repacker.start Char).Encodes [] :=
  ⟨Nat.succ_pos 4, [], rfl, rfl⟩

theorem Repacker.Encodes.step {st : Repacker Char} {data : List UInt8} (h : st.Encodes data)
    (b : UInt8) : (b32EncodeStep st b).Encodes (data ++ [b]) := by
  rcases h with ⟨hlt, idx, hout, hstream⟩
  have hpush : BitStream.bits (st.bits + 8) ((st.buffer <<< 8) ||| b.toUInt64).toNat =
      BitStream.bits st.bits st.buffer.toNat ++ BitStream.bits 8 b.toNat :=
    bits_push st.buffer 8 b.toUInt64 rfl b.toNat_lt (by omega) (by omega)
  -- at most twelve bits are waiting, so the accumulator is read inside its 64
  rcases drain_spec ((st.buffer <<< 8) ||| b.toUInt64) (st.bits + 8) (by omega) with
    ⟨hleft, chars, hchars, hbits⟩
  refine ⟨hleft, idx ++ chars, ?_, ?_⟩
  · simp only [b32EncodeStep, hout, hchars, List.map_append]
  · calc symbolBits (idx ++ chars) ++ BitStream.bits (b32EncodeStep st b).bits
          (b32EncodeStep st b).buffer.toNat
        = symbolBits idx ++ BitStream.bits (st.bits + 8)
            ((st.buffer <<< 8) ||| b.toUInt64).toNat := by
          rw [symbolBits_append, List.append_assoc, hbits]
          rfl
      _ = byteBits data ++ BitStream.bits 8 b.toNat := by
          rw [hpush, ← List.append_assoc, hstream]
      _ = byteBits (data ++ [b]) := by
          simp

theorem encodes_foldl (data : List UInt8) :
    (data.foldl b32EncodeStep (Repacker.start Char)).Encodes data := by
  induction data using List.reverseRecOn with
  | nil => exact encodes_start
  | append_singleton data b ih =>
      rw [List.foldl_append]
      exact ih.step b

/-- An encoding spells the bits of the data, filled up with fewer than five zero bits. -/
theorem b32Encode_spec (data : List UInt8) :
    ∃ (idx : List (Fin 32)) (fill : Nat), fill < 5 ∧ b32Encode data = idx.map b32Char ∧
      symbolBits idx = byteBits data ++ List.replicate fill false := by
  rcases encodes_foldl data with ⟨hlt, idx, hout, hstream⟩
  rw [b32Encode]
  generalize data.foldl b32EncodeStep (Repacker.start Char) = st at *
  by_cases hbits : st.bits > 0
  · let last := b32Index (st.buffer <<< UInt64.ofNat (5 - st.bits))
    have hshift : (UInt64.ofNat (5 - st.bits)).toNat = 5 - st.bits := by
      rw [UInt64.toNat_ofNat']
      omega
    -- the last symbol is pushed as a digit of zeros, then cut to five bits
    have hlast : bits 5 last.val =
        bits st.bits st.buffer.toNat ++ List.replicate (5 - st.bits) false := by
      have hpush := bits_push (n := st.bits) st.buffer (UInt64.ofNat (5 - st.bits)) 0 hshift
        (Nat.two_pow_pos _) (by omega) (by omega)
      have hzero := bits_shiftLeft 0 (5 - st.bits) 0
      simp only [UInt64.or_zero, UInt64.toNat_zero, Nat.zero_shiftLeft, Nat.zero_add, bits_zero,
        List.nil_append] at hpush hzero
      rw [hzero, Nat.add_sub_cancel' hlt.le] at hpush
      rw [← hpush, val_b32Index, UInt64.toNat_and]
      exact bits_and_mask 5 _
    refine ⟨idx ++ [last], 5 - st.bits, by omega, ?_, ?_⟩
    · simp only [hbits, if_true, hout, List.map_append, List.map_cons, List.map_nil, last]
    · rw [symbolBits_append, symbolBits_cons, symbolBits_nil, List.append_nil, hlast,
        ← List.append_assoc, hstream]
  · have hzero : st.bits = 0 := by omega
    refine ⟨idx, 0, by omega, ?_, ?_⟩
    · rw [if_neg hbits, hout]
    · rw [hzero, bits_zero, List.append_nil] at hstream
      rw [hstream, List.replicate_zero, List.append_nil]

/-! ## Decoding -/

/-- The byte of an alphabet character. -/
def b32Byte (i : Fin 32) : UInt8 :=
  (b32Char i).toUInt8

theorem b32Value_b32Byte (i : Fin 32) : b32Value (b32Byte i) = some (UInt8.ofNat i) := by
  revert i
  decide +kernel

/-- Only the bytes of the alphabet have a value. -/
theorem eq_b32Byte_of_b32Value {c v : UInt8} (h : b32Value c = some v) :
    ∃ i : Fin 32, c = b32Byte i ∧ v = UInt8.ofNat i := by
  have hall : ∀ n : Fin 256, b32Value (UInt8.ofNat n) = none ∨
      ∃ i : Fin 32, UInt8.ofNat n = b32Byte i := by
    decide +kernel
  have hc : b32Value c = none ∨ ∃ i : Fin 32, c = b32Byte i := by
    simpa using hall ⟨c.toNat, c.toNat_lt⟩
  rcases hc with hnone | ⟨i, rfl⟩
  · rw [hnone] at h
    cases h
  · rw [b32Value_b32Byte] at h
    exact ⟨i, rfl, (Option.some.inj h).symm⟩

theorem utf8EncodeChar_b32Char (i : Fin 32) : String.utf8EncodeChar (b32Char i) = [b32Byte i] := by
  revert i
  decide +kernel

/-- A character whose encoding starts with a byte of the alphabet is that character. -/
theorem eq_b32Char_of_utf8EncodeChar {c : Char} {i : Fin 32} {rest : List UInt8}
    (h : String.utf8EncodeChar c = b32Byte i :: rest) : c = b32Char i := by
  have hbyte : (b32Byte i).toNat < 0x80 ∧ Char.ofNat (b32Byte i).toNat = b32Char i := by
    clear h
    revert i
    decide +kernel
  have hfirst : ∀ {n : Nat} {l : List UInt8}, UInt8.ofNat n :: l = b32Byte i :: rest →
      n < 256 → n = (b32Byte i).toNat := by
    intro n l heq hn
    rw [← (List.cons.inj heq).1, UInt8.toNat_ofNat', Nat.mod_eq_of_lt hn]
  rw [String.utf8EncodeChar] at h
  split at h
  · have hval := hfirst h (by omega)
    rw [← hbyte.2, ← hval]
    exact (Char.ofNat_toNat c).symm
  -- the lead byte of a longer encoding is not ASCII
  · split at h
    · have hval := hfirst h (by omega)
      omega
    · split at h
      · have hval := hfirst h (by omega)
        omega
      · have hval := hfirst h (by omega)
        omega

/-- The input is read as bytes, and it is the alphabet's characters that are accepted. -/
theorem utf8Bytes_eq_map_b32Byte_iff {s : List Char} {idx : List (Fin 32)} :
    utf8Bytes s = idx.map b32Byte ↔ s = idx.map b32Char := by
  constructor
  · intro h
    induction s generalizing idx with
    | nil =>
        cases idx with
        | nil => rfl
        | cons i idx => simp [utf8Bytes] at h
    -- the first byte of a character decides: an alphabet byte is a whole character
    | cons c s ih =>
        rw [utf8Bytes, List.flatMap_cons] at h
        cases idx with
        | nil =>
            have hnil := (List.append_eq_nil_iff.1 h).1
            exact absurd hnil String.utf8EncodeChar_ne_nil
        | cons i idx =>
            rcases List.exists_cons_of_ne_nil (String.utf8EncodeChar_ne_nil (c := c)) with
              ⟨b, rest, hc⟩
            rw [hc, List.map_cons, List.cons_append, List.cons.injEq] at h
            rw [h.1] at hc
            have hchar := eq_b32Char_of_utf8EncodeChar hc
            rw [hchar, utf8EncodeChar_b32Char, List.cons.injEq] at hc
            rw [← hc.2, List.nil_append] at h
            rw [hchar, ih h.2, List.map_cons]
  · rintro rfl
    induction idx with
    | nil => rfl
    | cons i idx ih =>
        rw [utf8Bytes] at ih ⊢
        rw [List.map_cons, List.flatMap_cons, ih, utf8EncodeChar_b32Char]
        rfl

/-- The bytes written and the bits left over are the bits of the symbols read. -/
structure Repacker.Decodes (st : Repacker UInt8) (idx : List (Fin 32)) : Prop where
  bits_lt : st.bits < 8
  stream_eq : byteBits st.out ++ BitStream.bits st.bits st.buffer.toNat = symbolBits idx

/-- Five bits pushed, for an index of the alphabet. -/
def b32PushSymbol (st : Repacker UInt8) (i : Fin 32) : Repacker UInt8 :=
  b32PushValue st (UInt8.ofNat i)

theorem decodes_start : (Repacker.start UInt8).Decodes [] :=
  ⟨Nat.succ_pos 7, rfl⟩

theorem Repacker.Decodes.push {st : Repacker UInt8} {idx : List (Fin 32)} (h : st.Decodes idx)
    (i : Fin 32) : (b32PushSymbol st i).Decodes (idx ++ [i]) := by
  have hlt := h.bits_lt
  have hval : (UInt8.ofNat i).toUInt64.toNat = i.val := by
    rw [UInt8.toNat_toUInt64, UInt8.toNat_ofNat']
    omega
  have hpush : BitStream.bits (st.bits + 5)
      ((st.buffer <<< 5) ||| (UInt8.ofNat i).toUInt64).toNat =
      BitStream.bits st.bits st.buffer.toNat ++ BitStream.bits 5 i := by
    have hlt5 : (UInt8.ofNat i).toUInt64.toNat < 2 ^ 5 := by
      rw [hval]
      exact i.isLt
    have h5 := bits_push (w := 5) (n := st.bits) st.buffer 5 (UInt8.ofNat i).toUInt64 rfl hlt5
      (by omega) (by omega)
    rwa [hval] at h5
  have hsymbols : symbolBits (idx ++ [i]) =
      byteBits st.out ++ BitStream.bits (st.bits + 5)
        ((st.buffer <<< 5) ||| (UInt8.ofNat i).toUInt64).toNat := by
    rw [symbolBits_append, ← h.stream_eq, hpush, List.append_assoc]
    simp
  rw [b32PushSymbol, b32PushValue]
  generalize (st.buffer <<< 5) ||| (UInt8.ofNat i).toUInt64 = buffer at *
  -- a byte leaves the accumulator as soon as eight bits are there
  by_cases hge : st.bits + 5 ≥ 8
  · have hpop := bits_pop (n := st.bits + 5 - 8) (w := 8) buffer 0xff rfl (by omega)
    have hbyte : ((buffer >>> UInt64.ofNat (st.bits + 5 - 8)) &&& 0xff).toUInt8.toNat =
        ((buffer >>> UInt64.ofNat (st.bits + 5 - 8)) &&& 0xff).toNat := by
      rw [UInt64.toNat_toUInt8]
      have hle := Nat.and_le_right (n := (buffer >>> UInt64.ofNat (st.bits + 5 - 8)).toNat)
        (m := 0xff)
      rw [UInt64.toNat_and]
      exact Nat.mod_eq_of_lt (Nat.lt_of_le_of_lt hle (by norm_num))
    rw [Nat.add_sub_cancel' hge] at hpop
    simp only [hge, if_true]
    refine ⟨?_, ?_⟩
    · show st.bits + 5 - 8 < 8
      omega
    · rw [hsymbols, hpop, ← hbyte]
      simp
  · simp only [hge, if_false]
    refine ⟨?_, ?_⟩
    · show st.bits + 5 < 8
      omega
    · exact hsymbols.symm

/-- The loop accepts exactly the bytes of the alphabet. -/
theorem foldlM_b32DecodeStep_eq_ok_iff {bytes : List UInt8} {st st' : Repacker UInt8} :
    bytes.foldlM b32DecodeStep st = .ok st' ↔
      ∃ idx : List (Fin 32), bytes = idx.map b32Byte ∧
        st' = idx.foldl b32PushSymbol st := by
  induction bytes generalizing st with
  | nil =>
      constructor
      · rintro ⟨⟩
        exact ⟨[], rfl, rfl⟩
      · rintro ⟨idx, hidx, rfl⟩
        rw [List.map_eq_nil_iff.1 hidx.symm]
        rfl
  | cons c bytes ih =>
      -- one step accepts one alphabet byte and pushes its symbol
      rw [List.foldlM_cons, bind_eq_ok_iff]
      constructor
      · rintro ⟨st₁, hstep, hrest⟩
        rw [b32DecodeStep] at hstep
        split at hstep
        · rename_i v hv
          cases hstep
          rcases eq_b32Byte_of_b32Value hv with ⟨i, rfl, rfl⟩
          rcases ih.1 hrest with ⟨idx, rfl, rfl⟩
          exact ⟨i :: idx, rfl, rfl⟩
        · exact absurd hstep (err_ne_ok _ _)
      · rintro ⟨idx, hidx, rfl⟩
        cases idx with
        | nil => simp at hidx
        | cons i idx =>
            rw [List.map_cons, List.cons.injEq] at hidx
            rcases hidx with ⟨rfl, rfl⟩
            refine ⟨b32PushSymbol st i, ?_, ih.2 ⟨idx, rfl, rfl⟩⟩
            rw [b32DecodeStep, b32Value_b32Byte]
            rfl

theorem decodes_foldl (idx : List (Fin 32)) :
    (idx.foldl b32PushSymbol (Repacker.start UInt8)).Decodes idx := by
  induction idx using List.reverseRecOn with
  | nil => exact decodes_start
  | append_singleton idx i ih =>
      rw [List.foldl_append]
      exact ih.push i

/-- What `b32_decode` accepts and returns: a nonempty string of the alphabet, and the bytes whose
bits come first in it, fewer than eight bits being dropped at the end. -/
theorem b32Decode_eq_ok_iff {s : List Char} {out : List UInt8} :
    b32Decode s = .ok out ↔
      ∃ (idx : List (Fin 32)) (dropped : List Bool), idx ≠ [] ∧ normalise s = idx.map b32Char ∧
        dropped.length < 8 ∧ symbolBits idx = byteBits out ++ dropped := by
  rw [b32Decode]
  constructor
  · intro h
    by_cases hempty : (normalise s).isEmpty
    · simp only [hempty, if_true] at h
      exact absurd h (err_ne_ok _ _)
    · simp only [hempty, Bool.false_eq_true, if_false] at h
      rcases bind_eq_ok_iff.1 h with ⟨st, hst, hout⟩
      rcases foldlM_b32DecodeStep_eq_ok_iff.1 hst with ⟨idx, hidx, rfl⟩
      cases hout
      rw [utf8Bytes_eq_map_b32Byte_iff] at hidx
      have hdec := decodes_foldl idx
      refine ⟨idx, _, ?_, hidx, ?_, hdec.stream_eq.symm⟩
      · rintro rfl
        rw [hidx] at hempty
        exact hempty rfl
      · rw [length_bits]
        exact hdec.bits_lt
  · rintro ⟨idx, dropped, hne, hidx, hdropped, hbits⟩
    have hempty : ¬ (normalise s).isEmpty := by
      simpa [hidx] using hne
    simp only [hempty, Bool.false_eq_true, if_false]
    rw [bind_eq_ok_iff]
    have hdec := decodes_foldl idx
    refine ⟨_, foldlM_b32DecodeStep_eq_ok_iff.2
      ⟨idx, utf8Bytes_eq_map_b32Byte_iff.2 hidx, rfl⟩, ?_⟩
    -- both outputs are the leading bytes of one bit string, and their lengths leave no choice
    have hstream := hdec.stream_eq.trans hbits
    have hlen := congrArg List.length hstream
    simp only [List.length_append, length_byteBits, length_bits] at hlen
    have hlt := hdec.bits_lt
    have hout := ((byteBits_append_inj (by omega)).1 hstream).1
    exact congrArg Except.ok hout

/-- Every nonempty string of the alphabet is accepted. -/
theorem exists_b32Decode {s : List Char} {idx : List (Fin 32)} (hne : idx ≠ [])
    (hs : normalise s = idx.map b32Char) :
    ∃ (out : List UInt8) (dropped : List Bool), b32Decode s = .ok out ∧ dropped.length < 8 ∧
      symbolBits idx = byteBits out ++ dropped := by
  have hdec := decodes_foldl idx
  generalize idx.foldl b32PushSymbol (Repacker.start UInt8) = st at hdec
  have hlt : (bits st.bits st.buffer.toNat).length < 8 := by
    rw [length_bits]
    exact hdec.bits_lt
  exact ⟨st.out, _, b32Decode_eq_ok_iff.2 ⟨idx, _, hne, hs, hlt, hdec.stream_eq.symm⟩, hlt,
    hdec.stream_eq.symm⟩

/-- Decoding returns or reports the first character it does not know. -/
theorem b32Decode_ne_panic (s : List Char) : b32Decode s ≠ panic := by
  have hloop : ∀ (bytes : List UInt8) (st : Repacker UInt8),
      bytes.foldlM b32DecodeStep st ≠ panic := by
    intro bytes
    induction bytes with
    | nil => exact fun st => ok_ne_panic st
    | cons c bytes ih =>
        intro st
        rw [List.foldlM_cons]
        refine bind_ne_panic ?_ fun st' _ => ih st'
        rw [b32DecodeStep]
        split
        · exact ok_ne_panic _
        · exact err_ne_panic _
  rw [b32Decode]
  split
  · exact err_ne_panic _
  · exact bind_ne_panic (hloop _ _) fun st _ => ok_ne_panic _

theorem b32Char_injective : Function.Injective b32Char := by
  decide +kernel

end StellarRecrypt
