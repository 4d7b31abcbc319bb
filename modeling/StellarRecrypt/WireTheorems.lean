import StellarRecrypt.Sample
import StellarRecrypt.WireGrammar

/-!
# WireTheorems — what the binary formats guarantee

Three questions about the four formats: which byte strings are accepted, which values survive their
own encoding, and which accepted byte strings are the encoding of the value read from them.
-/

namespace StellarRecrypt

open ByteString
open PrimeOrder
open EdwardsCurve
open Outcome

variable {Point : Type} [EdwardsCurve Point] {D : Primitives Point} {usizeBits : Nat}

/-! ## Values that survive their encoding -/

theorem leNat_lenBytes (len : Nat) : leNat (lenBytes len).toList = len % 2 ^ 32 := by
  have hlt : len % 2 ^ 32 < 256 ^ 4 := Nat.mod_lt _ (by norm_num)
  exact leNat_toLeBytes_of_lt hlt

/-- The cast to `u32` keeps a length exactly below `2 ^ 32`. -/
theorem eq_leNat_lenBytes_iff (len : Nat) : len = leNat (lenBytes len).toList ↔ len < 2 ^ 32 := by
  rw [leNat_lenBytes]
  constructor
  · intro h
    rw [h]
    exact Nat.mod_lt _ (by norm_num)
  · intro h
    exact (Nat.mod_eq_of_lt h).symm

theorem Ciphertext.fromBytes_toBytes_iff (h : 33 ≤ usizeBits) {ct : Ciphertext Point} :
    fromBytes D usizeBits ct.toBytes = .ok ct ↔
      ct.capsule.verify D = true ∧ ct.payload.length < 2 ^ 32 := by
  rw [fromBytes_eq_ok_iff h, ← eq_leNat_lenBytes_iff]
  constructor
  · rintro ⟨c, n, hbytes, hc, hn⟩
    rw [toBytes, List.append_assoc, List.append_assoc, block_append_inj, block_append_inj] at hbytes
    rcases hbytes with ⟨rfl, rfl, _⟩
    exact ⟨Capsule.verify_of_fromBytes hc, hn⟩
  · rintro ⟨hverify, hlen⟩
    exact ⟨ct.capsule.toBytes, lenBytes ct.payload.length, rfl,
      Capsule.fromBytes_toBytes_iff.2 hverify, hlen⟩

theorem ReencryptionKey.fromBytes_toBytes_iff {key : ReencryptionKey Point} :
    fromBytes key.toBytes.toList = .ok key ↔ key.rk ≠ 0 ∧
      Nonempty (ValidPoint Point key.alicePrePk) ∧
      Nonempty (ValidPoint Point key.bobEd25519) := by
  rw [fromBytes_eq_ok_iff]
  constructor
  · rintro ⟨_, _, _, _, hzero, _, ha, hb⟩
    exact ⟨hzero, ha, hb⟩
  · rintro ⟨hzero, ha, hb⟩
    exact ⟨Scalar.toBytes key.rk, compress key.precursor, rfl, rfl, hzero, decompress_compress _,
      ha, hb⟩

theorem ReencryptedCiphertext.fromBytes_toBytes_iff (h : 33 ≤ usizeBits)
    {r : ReencryptedCiphertext Point} :
    fromBytes D usizeBits r.toBytes = .ok r ↔
      r.originalCapsule.verify D = true ∧ r.payload.length < 2 ^ 32 := by
  rw [fromBytes_eq_ok_iff h, ← eq_leNat_lenBytes_iff]
  constructor
  · rintro ⟨b, n, hbytes, _, _, _, hc, _, _, hn⟩
    -- the encoding starts with the header's blocks, so the parsed ones are these
    simp only [toBytes, Header.toList, List.append_assoc, block_append_inj] at hbytes
    rcases hbytes with ⟨_, _, _, _, _, _, rfl, _⟩
    exact ⟨Capsule.verify_of_fromBytes hc, hn⟩
  · rintro ⟨hverify, hlen⟩
    exact ⟨⟨compress r.pointEPrime, compress r.pointVPrime, compress r.precursor,
        r.originalCapsule.toBytes, r.alicePrePk, r.bobEd25519⟩, lenBytes r.payload.length, rfl,
      decompress_compress _, decompress_compress _, decompress_compress _,
      Capsule.fromBytes_toBytes_iff.2 hverify, rfl, rfl, hlen⟩

/-! ## The accepted byte strings -/

/-- The three blocks of an accepted capsule. -/
structure Capsule.Grammar (D : Primitives Point) (e v s : Bytes 32) (c : Capsule Point) :
    Prop where
  pointE : decompress e = some c.pointE
  pointV : decompress v = some c.pointV
  canonical : leNat s.toList < groupOrder
  signature : c.signature = (leNat s.toList : Scalar)
  equation : c.signature • (basepoint : Point) =
    c.pointV + hashCapsulePoints D c.pointE c.pointV • c.pointE

/-- `e ‖ v ‖ s ‖ le32(n) ‖ p`, where `n` is the length of `p`. -/
def Ciphertext.Grammar (D : Primitives Point) (bytes : List UInt8) (ct : Ciphertext Point) :
    Prop :=
  ∃ (e v s : Bytes 32) (n : Nat), n < 2 ^ 32 ∧
    bytes = e.toList ++ v.toList ++ s.toList ++ (toLeBytes 4 n).toList ++ ct.payload ∧
    ct.payload.length = n ∧ Capsule.Grammar D e v s ct.capsule

/-- An encoding of a torsion-free point that is not the identity. -/
def KeyBlock (Point : Type) [EdwardsCurve Point] (bytes : Bytes 32) : Prop :=
  ∃ P : Point, decompress bytes = some P ∧ P ≠ 0 ∧ TorsionFree groupOrder P

/-- `k ‖ x ‖ a ‖ b`: a canonical nonzero scalar, a point and two keys. -/
def ReencryptionKey.Grammar (bytes : List UInt8) (key : ReencryptionKey Point) : Prop :=
  ∃ k x : Bytes 32,
    bytes = k.toList ++ x.toList ++ key.alicePrePk.toList ++ key.bobEd25519.toList ∧
    leNat k.toList < groupOrder ∧ key.rk = (leNat k.toList : Scalar) ∧ key.rk ≠ 0 ∧
    decompress x = some key.precursor ∧ KeyBlock Point key.alicePrePk ∧
    KeyBlock Point key.bobEd25519

/-- `e' ‖ v' ‖ x ‖ e ‖ v ‖ s ‖ a ‖ b ‖ le32(n) ‖ p`, where `n` is the length of `p`. -/
def ReencryptedCiphertext.Grammar (D : Primitives Point) (bytes : List UInt8)
    (r : ReencryptedCiphertext Point) : Prop :=
  ∃ (e' v' x e v s : Bytes 32) (n : Nat), n < 2 ^ 32 ∧
    bytes = e'.toList ++ v'.toList ++ x.toList ++ (e.toList ++ v.toList ++ s.toList) ++
      r.alicePrePk.toList ++ r.bobEd25519.toList ++ (toLeBytes 4 n).toList ++ r.payload ∧
    r.payload.length = n ∧ decompress e' = some r.pointEPrime ∧
    decompress v' = some r.pointVPrime ∧ decompress x = some r.precursor ∧
    Capsule.Grammar D e v s r.originalCapsule

theorem nonempty_validPoint_iff {bytes : Bytes 32} :
    Nonempty (ValidPoint Point bytes) ↔ KeyBlock Point bytes := by
  constructor
  · rintro ⟨valid⟩
    exact ⟨valid.point, valid.decompress_eq, valid.point_ne_zero, valid.torsionFree⟩
  · rintro ⟨P, hP, hne, hfree⟩
    exact ⟨⟨P, hP, hne, hfree⟩⟩

/-- A canonical scalar block, read as a number. -/
theorem toBytes_eq_iff_leNat {s : Scalar} {b : Bytes 32} :
    Scalar.toBytes s = b ↔ leNat b.toList < groupOrder ∧ s = (leNat b.toList : Scalar) := by
  rw [← Scalar.fromCanonicalBytes_eq_some_iff, Scalar.fromCanonicalBytes]
  constructor
  · intro h
    split at h
    · rename_i hlt
      exact ⟨hlt, (Option.some_inj.1 h).symm⟩
    · cases h
  · rintro ⟨hlt, hs⟩
    rw [if_pos hlt, hs]

theorem Capsule.fromBytes_blocks_iff {e v s : Bytes 32} {c : Capsule Point} :
    fromBytes D (e.toList ++ v.toList ++ s.toList) = .ok c ↔ Grammar D e v s c := by
  rw [fromBytes_eq_ok_iff]
  constructor
  · rintro ⟨e', v', s', hbytes, hE, hV, hs, hverify⟩
    have hblocks := hbytes
    rw [List.append_assoc, List.append_assoc, block_append_inj, block_append_inj] at hblocks
    rcases hblocks with ⟨rfl, rfl, hs'⟩
    obtain rfl : s = s' := Bytes.ext hs'
    rcases toBytes_eq_iff_leNat.1 hs with ⟨hlt, hsig⟩
    rw [verify, decide_eq_true_iff] at hverify
    exact ⟨hE, hV, hlt, hsig, hverify⟩
  · rintro ⟨hE, hV, hlt, hsig, hequation⟩
    exact ⟨e, v, s, rfl, hE, hV, toBytes_eq_iff_leNat.2 ⟨hlt, hsig⟩, decide_eq_true hequation⟩

theorem Ciphertext.fromBytes_iff_grammar (h : 33 ≤ usizeBits) {bytes : List UInt8}
    {ct : Ciphertext Point} :
    fromBytes D usizeBits bytes = .ok ct ↔ Grammar D bytes ct := by
  rw [fromBytes_eq_ok_iff h]
  constructor
  · rintro ⟨c, n, hbytes, hc, hn⟩
    rcases Capsule.exists_blocks c.length_eq with ⟨e, v, s, hblocks⟩
    rw [hblocks, Capsule.fromBytes_blocks_iff] at hc
    refine ⟨e, v, s, leNat n.toList, n.leNat_lt, ?_, hn, hc⟩
    rw [hbytes, hblocks, toLeBytes_leNat]
  · rintro ⟨e, v, s, n, hlt, hbytes, hn, hc⟩
    have hcapsule : (e.toList ++ v.toList ++ s.toList).length = capsuleSize := by
      simp [capsuleSize]
    refine ⟨⟨_, hcapsule⟩, toLeBytes 4 n, hbytes, Capsule.fromBytes_blocks_iff.2 hc, ?_⟩
    rw [hn, leNat_toLeBytes_of_lt hlt]

theorem ReencryptionKey.fromBytes_iff_grammar {bytes : List UInt8} {key : ReencryptionKey Point} :
    fromBytes bytes = .ok key ↔ Grammar bytes key := by
  rw [fromBytes_eq_ok_iff]
  simp only [Grammar, toBytes_eq_iff_leNat, nonempty_validPoint_iff, and_assoc]

theorem ReencryptedCiphertext.fromBytes_iff_grammar (h : 33 ≤ usizeBits) {bytes : List UInt8}
    {r : ReencryptedCiphertext Point} :
    fromBytes D usizeBits bytes = .ok r ↔ Grammar D bytes r := by
  rw [fromBytes_eq_ok_iff h]
  constructor
  · rintro ⟨b, n, hbytes, hE, hV, hX, hc, ha, hb, hn⟩
    rcases Capsule.exists_blocks b.capsule.length_eq with ⟨e, v, s, hblocks⟩
    rw [hblocks, Capsule.fromBytes_blocks_iff] at hc
    refine ⟨b.e, b.v, b.x, e, v, s, leNat n.toList, n.leNat_lt, ?_, hn, hE, hV, hX, hc⟩
    rw [hbytes, Header.toList, hblocks, ha, hb, toLeBytes_leNat]
  · rintro ⟨e', v', x, e, v, s, n, hlt, hbytes, hn, hE, hV, hX, hc⟩
    have hcapsule : (e.toList ++ v.toList ++ s.toList).length = capsuleSize := by
      simp [capsuleSize]
    refine ⟨⟨e', v', x, ⟨_, hcapsule⟩, r.alicePrePk, r.bobEd25519⟩, toLeBytes 4 n, hbytes, hE, hV,
      hX, Capsule.fromBytes_blocks_iff.2 hc, rfl, rfl, ?_⟩
    rw [hn, leNat_toLeBytes_of_lt hlt]

/-- The decoders accept exactly their grammars, and return an error on every other byte string. -/
theorem decoders_accept_grammar (D : Primitives Point) (bytes : List UInt8) :
    ((∀ ct, Ciphertext.fromBytes D 64 bytes = .ok ct ↔ Ciphertext.Grammar D bytes ct) ∧
        ((∀ ct, ¬ Ciphertext.Grammar D bytes ct) →
          ∃ e, (Ciphertext.fromBytes D 64 bytes : Outcome (Ciphertext Point)) = err e)) ∧
      ((∀ r, ReencryptedCiphertext.fromBytes D 64 bytes = .ok r ↔
          ReencryptedCiphertext.Grammar D bytes r) ∧
        ((∀ r, ¬ ReencryptedCiphertext.Grammar D bytes r) →
          ∃ e, (ReencryptedCiphertext.fromBytes D 64 bytes :
            Outcome (ReencryptedCiphertext Point)) = err e)) ∧
      ((∀ key : ReencryptionKey Point, ReencryptionKey.fromBytes bytes = .ok key ↔
          ReencryptionKey.Grammar bytes key) ∧
        ((∀ key : ReencryptionKey Point, ¬ ReencryptionKey.Grammar bytes key) →
          ∃ e, (ReencryptionKey.fromBytes bytes : Outcome (ReencryptionKey Point)) = err e)) := by
  have hwidth : 33 ≤ 64 := by
    norm_num
  refine ⟨⟨fun ct => Ciphertext.fromBytes_iff_grammar hwidth, fun hnone => ?_⟩,
    ⟨fun r => ReencryptedCiphertext.fromBytes_iff_grammar hwidth, fun hnone => ?_⟩,
    ⟨fun key => ReencryptionKey.fromBytes_iff_grammar, fun hnone => ?_⟩⟩
  -- a byte string outside the grammar is not accepted, and no decoder panics
  · exact exists_err_of_ne_panic (Ciphertext.fromBytes_ne_panic hwidth bytes) fun ct hct =>
      hnone ct ((Ciphertext.fromBytes_iff_grammar hwidth).1 hct)
  · exact exists_err_of_ne_panic (ReencryptedCiphertext.fromBytes_ne_panic hwidth bytes) fun r hr =>
      hnone r ((ReencryptedCiphertext.fromBytes_iff_grammar hwidth).1 hr)
  · exact exists_err_of_ne_panic (ReencryptionKey.fromBytes_ne_panic bytes) fun key hkey =>
      hnone key (ReencryptionKey.fromBytes_iff_grammar.1 hkey)

/-! ## Accepted byte strings and the encoding of their value -/

/-- The 32 bytes at position `i` are an encoding that `compress` writes. -/
def CanonicalAt (bytes : List UInt8) (i : Nat) : Prop :=
  ∃ block : CompressedEdwardsY, ByteString.slice bytes i (i + 32) = block.toList ∧ block.Canonical

/-- An accepted byte string is the encoding of its value, up to the spelling of the points at some
positions. -/
structure SpelledAt {V : Type} (decode : List UInt8 → Outcome V) (encode : V → List UInt8)
    (positions : List Nat) : Prop where
  encode_eq_iff : ∀ {bytes v}, decode bytes = .ok v →
    (encode v = bytes ↔ ∀ i ∈ positions, CanonicalAt bytes i)
  unique : ∀ {bytes bytes' v}, decode bytes = .ok v → decode bytes' = .ok v →
    (∀ i ∈ positions, CanonicalAt bytes i) → (∀ i ∈ positions, CanonicalAt bytes' i) →
    bytes = bytes'

/-- Canonical spellings are unique because they are what the value is encoded to. -/
theorem SpelledAt.of_encode_eq_iff {V : Type} {decode : List UInt8 → Outcome V}
    {encode : V → List UInt8} {positions : List Nat}
    (h : ∀ {bytes v}, decode bytes = .ok v →
      (encode v = bytes ↔ ∀ i ∈ positions, CanonicalAt bytes i)) :
    SpelledAt decode encode positions where
  encode_eq_iff := h
  unique := by
    intro bytes bytes' v hv hv' hbytes hbytes'
    calc bytes = encode v := ((h hv).2 hbytes).symm
      _ = bytes' := (h hv').2 hbytes'

theorem canonicalAt_zero {block : CompressedEdwardsY} (rest : List UInt8) :
    CanonicalAt (block.toList ++ rest) 0 ↔ block.Canonical := by
  -- the range is the first block
  have hslice : ByteString.slice (block.toList ++ rest) 0 (0 + 32) = block.toList := by
    rw [slice_zero, List.take_append_of_le_length block.length_eq.ge,
      List.take_of_length_le block.length_eq.le]
  constructor
  · rintro ⟨block', hblock', hcanonical⟩
    rw [hslice] at hblock'
    obtain rfl : block = block' := Bytes.ext hblock'
    exact hcanonical
  · intro hcanonical
    exact ⟨block, hslice, hcanonical⟩

theorem canonicalAt_append_left {l m : List UInt8} {i : Nat} (h : i + 32 ≤ l.length) :
    CanonicalAt (l ++ m) i ↔ CanonicalAt l i := by
  rw [CanonicalAt, CanonicalAt, slice_append_left _ _ h]

/-- A position after a block, read in what follows the block. -/
theorem canonicalAt_add {block : Bytes 32} {rest : List UInt8} (i : Nat) :
    CanonicalAt (block.toList ++ rest) (i + 32) ↔ CanonicalAt rest i := by
  have hle : block.toList.length ≤ i + 32 := by
    rw [block.length_eq]
    omega
  have hstart : i + 32 - block.toList.length = i := by
    rw [block.length_eq, Nat.add_sub_cancel]
  have hend : i + 32 + 32 - block.toList.length = i + 32 := by
    rw [block.length_eq, Nat.add_sub_cancel]
  rw [CanonicalAt, CanonicalAt, slice_append_right _ _ hle, hstart, hend]

/-- A length field is the encoding of the length it announces. -/
theorem lenBytes_eq_of_eq_leNat {n : Bytes 4} {len : Nat} (h : len = leNat n.toList) :
    lenBytes len = n := by
  have hlt : leNat n.toList < 2 ^ 32 := n.leNat_lt
  rw [lenBytes, h, Nat.mod_eq_of_lt hlt, toLeBytes_leNat]

theorem Capsule.toList_toBytes (c : Capsule Point) :
    c.toBytes.toList =
      (compress c.pointE).toList ++ (compress c.pointV).toList ++
        (Scalar.toBytes c.signature).toList := rfl

theorem ReencryptionKey.toList_toBytes (key : ReencryptionKey Point) :
    key.toBytes.toList =
      (Scalar.toBytes key.rk).toList ++ (compress key.precursor).toList ++
        key.alicePrePk.toList ++ key.bobEd25519.toList := rfl

theorem Capsule.toBytes_eq_iff {b : Bytes capsuleSize} {c : Capsule Point}
    (h : fromBytes D b.toList = .ok c) :
    c.toBytes = b ↔ CanonicalAt b.toList 0 ∧ CanonicalAt b.toList 32 := by
  rcases fromBytes_eq_ok_iff.1 h with ⟨e, v, s, hbytes, hE, hV, hs, _⟩
  rw [← Bytes.toList_injective.eq_iff, hbytes, toList_toBytes, List.append_assoc,
    List.append_assoc, block_append_inj, block_append_inj, compress_eq_iff_canonical hE,
    compress_eq_iff_canonical hV, hs, canonicalAt_zero, canonicalAt_add 0, canonicalAt_zero]
  simp only [and_true]

/-- The two points of a capsule are respelled, the scalar is not. -/
theorem Capsule.spelledAt :
    SpelledAt (fromBytes D) (fun c : Capsule Point => c.toBytes.toList) [0, 32] := by
  refine SpelledAt.of_encode_eq_iff fun {bytes c} h => ?_
  have hlen : bytes.length = capsuleSize := by
    rcases fromBytes_eq_ok_iff.1 h with ⟨e, v, s, rfl, _⟩
    simp [capsuleSize]
  have hiff := toBytes_eq_iff (b := ⟨bytes, hlen⟩) h
  rw [← Bytes.toList_injective.eq_iff] at hiff
  simpa using hiff

/-- A ciphertext is respelled where its capsule is. -/
theorem Ciphertext.spelledAt (h : 33 ≤ usizeBits) :
    SpelledAt (fromBytes D usizeBits) (toBytes : Ciphertext Point → List UInt8) [0, 32] := by
  refine SpelledAt.of_encode_eq_iff fun {bytes ct} hok => ?_
  rcases (fromBytes_eq_ok_iff h).1 hok with ⟨c, n, rfl, hc, hn⟩
  -- positions inside the capsule block are read in that block alone
  have hcapsule : ∀ i, i + 32 ≤ capsuleSize →
      (CanonicalAt (c.toList ++ n.toList ++ ct.payload) i ↔ CanonicalAt c.toList i) := by
    intro i hi
    rw [List.append_assoc, canonicalAt_append_left (by rwa [c.length_eq])]
  calc ct.toBytes = c.toList ++ n.toList ++ ct.payload
      ↔ ct.capsule.toBytes = c := by
        rw [toBytes, lenBytes_eq_of_eq_leNat hn, List.append_assoc, List.append_assoc,
          block_append_inj]
        simp only [and_true]
    _ ↔ CanonicalAt c.toList 0 ∧ CanonicalAt c.toList 32 := Capsule.toBytes_eq_iff hc
    _ ↔ ∀ i ∈ [0, 32], CanonicalAt (c.toList ++ n.toList ++ ct.payload) i := by
        rw [← hcapsule 0 (by norm_num [capsuleSize]), ← hcapsule 32 (by norm_num [capsuleSize])]
        simp

/-- A re-encryption key keeps the bytes of both public keys; only its precursor is respelled. -/
theorem ReencryptionKey.spelledAt :
    SpelledAt fromBytes (fun key : ReencryptionKey Point => key.toBytes.toList) [32] := by
  refine SpelledAt.of_encode_eq_iff fun {bytes key} hok => ?_
  rcases fromBytes_eq_ok_iff.1 hok with ⟨k, x, rfl, hk, _, hx, _, _⟩
  calc key.toBytes.toList =
        k.toList ++ x.toList ++ key.alicePrePk.toList ++ key.bobEd25519.toList
      ↔ compress key.precursor = x := by
        simp only [toList_toBytes, hk, List.append_assoc, block_append_inj, and_true, true_and]
    _ ↔ CompressedEdwardsY.Canonical x := compress_eq_iff_canonical hx
    _ ↔ ∀ i ∈ [32],
          CanonicalAt (k.toList ++ x.toList ++ key.alicePrePk.toList ++ key.bobEd25519.toList)
            i := by
        rw [List.forall_mem_singleton, List.append_assoc, List.append_assoc, canonicalAt_add 0,
          canonicalAt_zero]

/-- A re-encrypted ciphertext is respelled at its three points and where its capsule is. -/
theorem ReencryptedCiphertext.spelledAt (h : 33 ≤ usizeBits) :
    SpelledAt (fromBytes D usizeBits) (toBytes : ReencryptedCiphertext Point → List UInt8)
      [0, 32, 64, 96, 128] := by
  refine SpelledAt.of_encode_eq_iff fun {bytes r} hok => ?_
  rcases (fromBytes_eq_ok_iff h).1 hok with ⟨b, n, rfl, hE, hV, hX, hc, ha, hb, hn⟩
  have hcapsule : ∀ i, i + 32 ≤ capsuleSize →
      (CanonicalAt (b.toList ++ n.toList ++ r.payload) (i + 32 + 32 + 32) ↔
        CanonicalAt b.capsule.toList i) := by
    intro i hi
    simp only [Header.toList, List.append_assoc, canonicalAt_add]
    rw [canonicalAt_append_left (by rwa [b.capsule.length_eq])]
  have hpoints :
      (CanonicalAt (b.toList ++ n.toList ++ r.payload) 0 ↔ CompressedEdwardsY.Canonical b.e) ∧
      (CanonicalAt (b.toList ++ n.toList ++ r.payload) (0 + 32) ↔
        CompressedEdwardsY.Canonical b.v) ∧
      (CanonicalAt (b.toList ++ n.toList ++ r.payload) (0 + 32 + 32) ↔
        CompressedEdwardsY.Canonical b.x) := by
    simp only [Header.toList, List.append_assoc, canonicalAt_add, canonicalAt_zero, and_self]
  calc r.toBytes = b.toList ++ n.toList ++ r.payload
      ↔ compress r.pointEPrime = b.e ∧ compress r.pointVPrime = b.v ∧
          compress r.precursor = b.x ∧ r.originalCapsule.toBytes = b.capsule := by
        rw [toBytes, lenBytes_eq_of_eq_leNat hn, ← ha, ← hb]
        simp only [Header.toList, List.append_assoc, block_append_inj, and_true]
    _ ↔ CompressedEdwardsY.Canonical b.e ∧ CompressedEdwardsY.Canonical b.v ∧
          CompressedEdwardsY.Canonical b.x ∧ CanonicalAt b.capsule.toList 0 ∧
          CanonicalAt b.capsule.toList 32 := by
        rw [compress_eq_iff_canonical hE, compress_eq_iff_canonical hV,
          compress_eq_iff_canonical hX, Capsule.toBytes_eq_iff hc]
    _ ↔ ∀ i ∈ [0, 32, 64, 96, 128], CanonicalAt (b.toList ++ n.toList ++ r.payload) i := by
        rw [← hpoints.1, ← hpoints.2.1, ← hpoints.2.2, ← hcapsule 0 (by norm_num [capsuleSize]),
          ← hcapsule 32 (by norm_num [capsuleSize])]
        simp

/-- An accepted byte string is the encoding of its value exactly when the points that are stored as
points are spelled canonically in it; among such byte strings decoding is injective. -/
theorem wire_formats_canonical (D : Primitives Point) :
    SpelledAt (Capsule.fromBytes D) (fun c : Capsule Point => c.toBytes.toList) [0, 32] ∧
      SpelledAt (Ciphertext.fromBytes D 64) (Ciphertext.toBytes : Ciphertext Point → _) [0, 32] ∧
      SpelledAt ReencryptionKey.fromBytes
        (fun key : ReencryptionKey Point => key.toBytes.toList) [32] ∧
      SpelledAt (ReencryptedCiphertext.fromBytes D 64)
        (ReencryptedCiphertext.toBytes : ReencryptedCiphertext Point → _)
        [0, 32, 64, 96, 128] :=
  ⟨Capsule.spelledAt, Ciphertext.spelledAt (by norm_num), ReencryptionKey.spelledAt,
    ReencryptedCiphertext.spelledAt (by norm_num)⟩

/-- The identity with its sign bit set is read as the identity. -/
def signedIdentity : Bytes 32 :=
  toLeBytes 32 (1 + 2 ^ 255)

/-- A capsule of two identities, one of them spelled with a sign bit. -/
theorem capsule_fromBytes_not_canonical :
    ∃ c : Capsule Ed25519.Point,
      Capsule.fromBytes Sample.primitives
          (signedIdentity.toList ++ (toLeBytes 32 1).toList ++ (toLeBytes 32 0).toList) = .ok c ∧
        Capsule.fromBytes Sample.primitives
          ((toLeBytes 32 1).toList ++ (toLeBytes 32 1).toList ++ (toLeBytes 32 0).toList) = .ok c ∧
        c.toBytes.toList ≠
          signedIdentity.toList ++ (toLeBytes 32 1).toList ++ (toLeBytes 32 0).toList := by
  have hsigned : decompress signedIdentity = some (0 : Ed25519.Point) := by
    rw [decompress_eq_some_iff]
    decide +kernel
  have hplain : decompress (toLeBytes 32 1) = some (0 : Ed25519.Point) := by
    rw [decompress_eq_some_iff]
    decide +kernel
  have hnot : ¬ CompressedEdwardsY.Canonical signedIdentity := by
    decide +kernel
  have hzero : Scalar.toBytes 0 = toLeBytes 32 0 := by
    rw [Scalar.toBytes, ZMod.val_zero]
  have hverify := Sample.verify_identityCapsule Sample.primitives
  refine ⟨Sample.identityCapsule, ?_, ?_, ?_⟩
  · exact Capsule.fromBytes_eq_ok_iff.2 ⟨_, _, _, rfl, hsigned, hplain, hzero, hverify⟩
  · exact Capsule.fromBytes_eq_ok_iff.2 ⟨_, _, _, rfl, hplain, hplain, hzero, hverify⟩
  · intro heq
    rw [Capsule.toList_toBytes, List.append_assoc, List.append_assoc, block_append_inj] at heq
    exact hnot ((compress_eq_iff_canonical hsigned).1 heq.1)

end StellarRecrypt
