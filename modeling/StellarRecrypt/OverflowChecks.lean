import StellarRecrypt.Sample
import StellarRecrypt.StrkeyTheorems
import StellarRecrypt.WireGrammar

/-!
# OverflowChecks — which inputs make a decoder panic

A build with overflow checks panics where an arithmetic operation leaves its type.  The binary
decoders of `Wire` are written with these checks; here the strkey decoders are written out the same
way.  Their counters stay in range, so what is left is the one product that sizes the output of
`b32_decode` before it reads anything, and the one sum of each binary decoder that has a length
field.
-/

namespace StellarRecrypt

open ByteString
open EdwardsCurve
open Outcome

variable {Point : Type} [EdwardsCurve Point]

/-! ## Checked arithmetic -/

/-- A sum of two unsigned values of the given width. -/
def checkedAdd (width m n : Nat) : Outcome Nat :=
  if m + n < 2 ^ width then .ok (m + n) else panic

/-- A difference of two unsigned values. -/
def checkedSub (m n : Nat) : Outcome Nat :=
  if n ≤ m then .ok (m - n) else panic

/-- A product of two unsigned values of the given width. -/
def checkedMul (width m n : Nat) : Outcome Nat :=
  if m * n < 2 ^ width then .ok (m * n) else panic

/-- `x >> n` of a `u64`. -/
def checkedShr (x : UInt64) (n : Nat) : Outcome UInt64 :=
  if n < 64 then .ok (x >>> UInt64.ofNat n) else panic

theorem checkedAdd_eq_ok {width m n : Nat} (h : m + n < 2 ^ width) :
    checkedAdd width m n = .ok (m + n) := if_pos h

theorem checkedSub_eq_ok {m n : Nat} (h : n ≤ m) : checkedSub m n = .ok (m - n) := if_pos h

theorem checkedShr_eq_ok {x : UInt64} {n : Nat} (h : n < 64) :
    checkedShr x n = .ok (x >>> UInt64.ofNat n) := if_pos h

/-! ## The strkey decoders -/

/-- The `match` of `b32_decode`. -/
def b32ValueChecked (c : UInt8) : Outcome UInt8 :=
  if 65 ≤ c ∧ c ≤ 90 then do
    let val ← checkedSub c.toNat 65
    return UInt8.ofNat val
  else if 50 ≤ c ∧ c ≤ 55 then do
    let val ← checkedSub c.toNat 50
    let val ← checkedAdd 8 val 26
    return UInt8.ofNat val
  else err (.invalidStrkey ("invalid base32 character: " ++ String.singleton (Char.ofUInt8 c)))

/-- The body of `for c in s.bytes()`; `bits` is a `u32`. -/
def b32DecodeStepChecked (st : Repacker UInt8) (c : UInt8) : Outcome (Repacker UInt8) := do
  let val ← b32ValueChecked c
  let buffer := (st.buffer <<< 5) ||| val.toUInt64
  let bits ← checkedAdd 32 st.bits 5
  if bits ≥ 8 then
    let bits ← checkedSub bits 8
    let byte ← checkedShr buffer bits
    return { out := st.out ++ [(byte &&& 0xff).toUInt8], buffer := buffer, bits := bits }
  else return { out := st.out, buffer := buffer, bits := bits }

/-- `b32_decode`, with the capacity `s.len() * 5 / 8` of its output. -/
def b32DecodeChecked (usizeBits : Nat) (s : List Char) : Outcome (List UInt8) := do
  let s := normalise s
  if s.isEmpty then err (.invalidStrkey "empty strkey")
  else
    let _ ← checkedMul usizeBits (utf8Bytes s).length 5
    let st ← (utf8Bytes s).foldlM b32DecodeStepChecked (Repacker.start UInt8)
    return st.out

def decodeWithVersionChecked (usizeBits : Nat) (s : List Char) (expectedVersion : UInt8) :
    Outcome (Bytes 32) := do
  let raw ← b32DecodeChecked usizeBits s
  decodeBody raw expectedVersion

def decodeKindChecked (usizeBits : Nat) (initial : Char) (message : String) (version : UInt8)
    (s : List Char) : Outcome (Bytes 32) :=
  let s := trim s
  if s.head? ≠ some initial then err (.invalidStrkey message)
  else decodeWithVersionChecked usizeBits s version

def decodePublicChecked (usizeBits : Nat) (g : List Char) : Outcome (Bytes 32) :=
  decodeKindChecked usizeBits 'G' "public key must start with G" versionPubkey g

def decodeSeedChecked (usizeBits : Nat) (s : List Char) : Outcome (Bytes 32) :=
  decodeKindChecked usizeBits 'S' "secret key must start with S" versionSeed s

/-! ## The counters stay in range -/

/-- The arithmetic on a byte of the alphabet stays in a `u8`. -/
theorem b32ValueChecked_eq (c : UInt8) : b32ValueChecked c =
    okOr (b32Value c) (.invalidStrkey
      ("invalid base32 character: " ++ String.singleton (Char.ofUInt8 c))) := by
  rw [b32ValueChecked, b32Value]
  split
  · rename_i hletter
    -- the guard of the branch is what the subtraction needs
    have hle : 65 ≤ c.toNat := UInt8.le_iff_toNat_le.1 hletter.1
    have hval : UInt8.ofNat (c.toNat - 65) = c - 65 := by
      rw [UInt8.ofNat_sub hle, UInt8.ofNat_toNat]
      rfl
    rw [checkedSub_eq_ok hle, ok_bind, hval]
    rfl
  · split
    · rename_i hdigit
      have hle : 50 ≤ c.toNat := UInt8.le_iff_toNat_le.1 hdigit.1
      have hge : c.toNat ≤ 55 := UInt8.le_iff_toNat_le.1 hdigit.2
      have hfits : c.toNat - 50 + 26 < 2 ^ 8 := by
        omega
      have hval : UInt8.ofNat (c.toNat - 50 + 26) = c - 50 + 26 := by
        rw [UInt8.ofNat_add, UInt8.ofNat_sub hle, UInt8.ofNat_toNat]
        rfl
      rw [checkedSub_eq_ok hle, ok_bind, checkedAdd_eq_ok hfits, ok_bind, hval]
      rfl
    · rfl

/-- Fewer than eight bits are left after every character. -/
theorem bits_b32PushValue_lt {st : Repacker UInt8} (h : st.bits < 8) (val : UInt8) :
    (b32PushValue st val).bits < 8 := by
  rw [b32PushValue]
  split
  · show st.bits + 5 - 8 < 8
    omega
  · show st.bits + 5 < 8
    omega

/-- While fewer than eight bits are left, no check of the loop body fails. -/
theorem b32DecodeStepChecked_eq {st : Repacker UInt8} (h : st.bits < 8) (c : UInt8) :
    b32DecodeStepChecked st c = b32DecodeStep st c := by
  have hadd : checkedAdd 32 st.bits 5 = .ok (st.bits + 5) := by
    refine checkedAdd_eq_ok (lt_of_lt_of_le (Nat.add_lt_add_right h 5) ?_)
    norm_num
  rw [b32DecodeStepChecked, b32DecodeStep, b32ValueChecked_eq]
  cases b32Value c with
  | none => rfl
  | some val =>
      simp only [okOr_some, ok_bind, hadd, b32PushValue]
      by_cases hge : st.bits + 5 ≥ 8
      · have hshift : st.bits + 5 - 8 < 64 := by
          omega
        simp only [hge, if_true, checkedSub_eq_ok hge, ok_bind, checkedShr_eq_ok hshift]
        rfl
      · simp only [hge, if_false]
        rfl

theorem foldlM_b32DecodeStepChecked_eq (bytes : List UInt8) {st : Repacker UInt8}
    (h : st.bits < 8) :
    bytes.foldlM b32DecodeStepChecked st = bytes.foldlM b32DecodeStep st := by
  induction bytes generalizing st with
  | nil => rfl
  | cons c bytes ih =>
      rw [List.foldlM_cons, List.foldlM_cons, b32DecodeStepChecked_eq h]
      rw [b32DecodeStep]
      cases b32Value c with
      | none => rfl
      | some val => exact ih (bits_b32PushValue_lt h val)

/-- With the checks on, `b32_decode` does what it does without them, unless sizing its output
overflows. -/
theorem b32DecodeChecked_eq (usizeBits : Nat) (s : List Char) :
    b32DecodeChecked usizeBits s =
      if (utf8Bytes (normalise s)).length * 5 < 2 ^ usizeBits then b32Decode s else panic := by
  rw [b32DecodeChecked, b32Decode]
  by_cases hempty : (normalise s).isEmpty
  · have hlen : (utf8Bytes (normalise s)).length * 5 < 2 ^ usizeBits := by
      rw [List.isEmpty_iff.1 hempty]
      exact Nat.two_pow_pos usizeBits
    simp only [hempty, if_true, hlen]
  · simp only [hempty, Bool.false_eq_true, if_false, checkedMul]
    have hstart : (Repacker.start UInt8).bits < 8 := Nat.succ_pos 7
    rw [foldlM_b32DecodeStepChecked_eq _ hstart]
    split
    · rfl
    · rfl

/-! ## What panics -/

/-- The string has the letter of its kind, and five times its length does not fit in a `usize`. -/
def CapacityOverflows (usizeBits : Nat) (initial : Char) (s : List Char) : Prop :=
  (trim s).head? = some initial ∧ 2 ^ usizeBits ≤ (utf8Bytes (normalise s)).length * 5

theorem decodeKindChecked_eq_panic_iff {usizeBits : Nat} {initial : Char} {message : String}
    {version : UInt8} {s : List Char} :
    decodeKindChecked usizeBits initial message version s = panic ↔
      CapacityOverflows usizeBits initial s := by
  -- the capacity is computed first, and nothing after it panics
  have hchecked : decodeWithVersionChecked usizeBits (trim s) version =
      if (utf8Bytes (normalise s)).length * 5 < 2 ^ usizeBits then
        decodeWithVersion (trim s) version
      else panic := by
    rw [decodeWithVersionChecked, b32DecodeChecked_eq, normalise_trim]
    split
    · rfl
    · rfl
  rw [decodeKindChecked, CapacityOverflows]
  by_cases hinitial : (trim s).head? = some initial
  · simp only [hinitial, ne_eq, not_true_eq_false, if_false, true_and, hchecked]
    split
    · rename_i hlt
      constructor
      · intro hpanic
        exact absurd hpanic (decodeWithVersion_ne_panic _ _)
      · intro hle
        exact absurd hlt (Nat.not_lt.2 hle)
    · rename_i hle
      exact ⟨fun _ => Nat.le_of_not_lt hle, fun _ => rfl⟩
  · simp only [hinitial, ne_eq, not_false_eq_true, if_true, false_and, iff_false]
    exact err_ne_panic _

/-- Where the capacity fits, the checks change nothing. -/
theorem decodeKindChecked_eq {usizeBits : Nat} {initial : Char} {message : String}
    {version : UInt8} {s : List Char} (h : ¬ CapacityOverflows usizeBits initial s) :
    decodeKindChecked usizeBits initial message version s =
      decodeKind initial message version s := by
  rw [decodeKindChecked, decodeKind]
  by_cases hinitial : (trim s).head? = some initial
  · have hlt : (utf8Bytes (normalise s)).length * 5 < 2 ^ usizeBits :=
      Nat.lt_of_not_le fun hle => h ⟨hinitial, hle⟩
    simp only [hinitial, ne_eq, not_true_eq_false, if_false]
    rw [decodeWithVersionChecked, b32DecodeChecked_eq, normalise_trim, if_pos hlt]
    rfl
  · simp only [hinitial, ne_eq, not_false_eq_true, if_true]

/-! ## Every decoder -/

/-- On 32 and on 64 bits the decoders return or fail, except where the end of the input that a
length field announces, or the capacity of a strkey's output, does not fit in a `usize`. -/
theorem decoders_ne_panic_iff (D : Primitives Point) {usizeBits : Nat}
    (h : usizeBits = 32 ∨ usizeBits = 64) (bytes : List UInt8) (s : List Char) :
    (Capsule.fromBytes D bytes : Outcome (Capsule Point)) ≠ panic ∧
      (ReencryptionKey.fromBytes bytes : Outcome (ReencryptionKey Point)) ≠ panic ∧
      ((Ciphertext.fromBytes D usizeBits bytes : Outcome (Ciphertext Point)) ≠ panic ↔
        ¬ Ciphertext.LengthOverflows D usizeBits bytes) ∧
      ((ReencryptedCiphertext.fromBytes D usizeBits bytes :
          Outcome (ReencryptedCiphertext Point)) ≠ panic ↔
        ¬ ReencryptedCiphertext.LengthOverflows D usizeBits bytes) ∧
      (decodePublicChecked usizeBits s ≠ panic ↔ ¬ CapacityOverflows usizeBits 'G' s) ∧
      (decodeSeedChecked usizeBits s ≠ panic ↔ ¬ CapacityOverflows usizeBits 'S' s) ∧
      (usizeBits = 64 → ¬ Ciphertext.LengthOverflows D usizeBits bytes ∧
        ¬ ReencryptedCiphertext.LengthOverflows D usizeBits bytes) := by
  have hwidth : 32 ≤ usizeBits := by
    omega
  -- the formats without a length field never panic; each other decoder has its own condition
  refine ⟨Capsule.fromBytes_ne_panic bytes, ReencryptionKey.fromBytes_ne_panic bytes,
    not_congr (Ciphertext.fromBytes_eq_panic_iff hwidth),
    not_congr (ReencryptedCiphertext.fromBytes_eq_panic_iff hwidth),
    not_congr decodeKindChecked_eq_panic_iff, not_congr decodeKindChecked_eq_panic_iff, ?_⟩
  rintro rfl
  exact ⟨Ciphertext.not_lengthOverflows (by norm_num) bytes,
    ReencryptedCiphertext.not_lengthOverflows (by norm_num) bytes⟩

/-- On 32 bits a capsule, a length field of one and a byte are decoded without a panic, and so is
the encoding of an account. -/
theorem decoders_ne_panic_one_byte :
    (Ciphertext.fromBytes Sample.primitives 32
        ((Sample.identityCapsule : Capsule Ed25519.Point).toBytes.toList ++
          (lenBytes 1).toList ++ [7]) : Outcome (Ciphertext Ed25519.Point)) ≠ panic ∧
      decodePublicChecked 32 (encodePublic (Bytes.replicate 32 0)) ≠ panic := by
  rcases decoders_ne_panic_iff Sample.primitives (Or.inl rfl : 32 = 32 ∨ 32 = 64)
      ((Sample.identityCapsule : Capsule Ed25519.Point).toBytes.toList ++
        (lenBytes 1).toList ++ [7])
      (encodePublic (Bytes.replicate 32 0)) with
    ⟨_, _, hct, _, hpublic, _⟩
  refine ⟨hct.2 ?_, hpublic.2 ?_⟩
  · -- the length field that the overflow needs is the one at offset 96
    rintro ⟨c, n, rest, hsplit, _, hoverflow⟩
    rw [List.append_assoc, List.append_assoc, block_append_inj, block_append_inj] at hsplit
    rcases hsplit with ⟨_, rfl, _⟩
    exact absurd hoverflow (by decide)
  · rintro ⟨_, hcapacity⟩
    exact absurd hcapacity (by decide +kernel)

/-! ## Inputs that panic on 32 bits -/

namespace Sample

/-- A length field of all ones. -/
def hugeLength : Bytes 4 :=
  Bytes.replicate 4 255

/-- Three identities, the capsule of identities and two keys, which are not looked at. -/
def identityHeader : ReencryptedCiphertext.Header where
  e := compress (0 : Ed25519.Point)
  v := compress (0 : Ed25519.Point)
  x := compress (0 : Ed25519.Point)
  capsule := (identityCapsule : Capsule Ed25519.Point).toBytes
  alice := Bytes.replicate 32 0
  bob := Bytes.replicate 32 0

/-- A string of the letter `G` only: its output would have five eighths of its length. -/
theorem capacityOverflows_replicate {usizeBits n : Nat} (hpos : 0 < n)
    (hn : 2 ^ usizeBits ≤ n * 5) : CapacityOverflows usizeBits 'G' (List.replicate n 'G') := by
  have hsymbols : List.replicate n 'G' = (List.replicate n (6 : Fin 32)).map b32Char := by
    rw [List.map_replicate]
    rfl
  have hbytes : utf8Bytes ((List.replicate n (6 : Fin 32)).map b32Char) =
      (List.replicate n (6 : Fin 32)).map b32Byte :=
    utf8Bytes_eq_map_b32Byte_iff.2 rfl
  constructor
  · rw [hsymbols, trim_map_b32Char, ← hsymbols, List.head?_replicate, if_neg hpos.ne']
  · rw [hsymbols, normalise_map_b32Char, hbytes, List.length_map, List.length_replicate]
    exact hn

end Sample

/-- A capsule and a length field of all ones; the same after a header; a long enough strkey. -/
theorem decoders_panic_on_32_bits :
    (Ciphertext.fromBytes Sample.primitives 32
        ((Sample.identityCapsule : Capsule Ed25519.Point).toBytes.toList ++
          Sample.hugeLength.toList ++ []) : Outcome (Ciphertext Ed25519.Point)) = panic ∧
      (ReencryptedCiphertext.fromBytes Sample.primitives 32
        (Sample.identityHeader.toList ++ Sample.hugeLength.toList ++ []) :
          Outcome (ReencryptedCiphertext Ed25519.Point)) = panic ∧
      decodePublicChecked 32 (List.replicate 858993460 'G') = panic := by
  have hformed : Capsule.WellFormed Sample.primitives
      (Sample.identityCapsule : Capsule Ed25519.Point).toBytes.toList :=
    Capsule.exists_fromBytes_iff.1 ⟨Sample.identityCapsule,
      Capsule.fromBytes_toBytes_iff.2 (Sample.verify_identityCapsule Sample.primitives)⟩
  have hidentity : decompress (compress (0 : Ed25519.Point)) = some (0 : Ed25519.Point) :=
    decompress_compress 0
  refine ⟨?_, ?_, ?_⟩
  · exact (Ciphertext.fromBytes_eq_panic_iff le_rfl).2
      ⟨_, _, [], rfl, hformed, by decide⟩
  · exact (ReencryptedCiphertext.fromBytes_eq_panic_iff le_rfl).2
      ⟨Sample.identityHeader, _, [], rfl, ⟨0, 0, 0, hidentity, hidentity, hidentity⟩,
        hformed, by decide⟩
  · exact decodeKindChecked_eq_panic_iff.2
      (Sample.capacityOverflows_replicate (by norm_num) (by norm_num))

end StellarRecrypt
