import StellarRecrypt.Wire

/-!
# WireGrammar — what the decoders read

Every decoder first checks the length of its input, so an input is the blocks of its format, one
after the other.  On such an input the ranges of the source are the blocks, and a decoder is the
sequence of its checks on them.
-/

namespace StellarRecrypt

open ByteString
open EdwardsCurve
open Outcome

variable {Point : Type} [EdwardsCurve Point] {D : Primitives Point} {usizeBits : Nat}

@[simp] theorem decompressPoint_toList (b : Bytes 32) :
    (decompressPoint b.toList : Outcome Point) = okOr (decompress b) .invalidPublicKey := by
  rw [decompressPoint, copyFromSlice_toList, ok_bind]

/-- A length read on 64 bits is the number written. -/
theorem readLen_eq (h : 32 ≤ usizeBits) (n : Bytes 4) :
    readLen usizeBits n = leNat n.toList := by
  have hlt : leNat n.toList < 256 ^ 4 := n.leNat_lt
  have hpow : 2 ^ 32 ≤ 2 ^ usizeBits := Nat.pow_le_pow_right Nat.two_pos h
  rw [readLen, Nat.mod_eq_of_lt (by omega)]

theorem add_leNat_lt (h : 33 ≤ usizeBits) {start : Nat} (hstart : start ≤ 2 ^ 32) (n : Bytes 4) :
    start + leNat n.toList < 2 ^ usizeBits := by
  have hlt : leNat n.toList < 256 ^ 4 := n.leNat_lt
  have hpow : 2 ^ 33 ≤ 2 ^ usizeBits := Nat.pow_le_pow_right Nat.two_pos h
  omega

/-- The end of the input, computed from a length, does not overflow in 64 bits. -/
theorem usizeAdd_readLen (h : 33 ≤ usizeBits) {start : Nat} (hstart : start ≤ 2 ^ 32)
    (n : Bytes 4) :
    usizeAdd usizeBits start (readLen usizeBits n) = .ok (start + leNat n.toList) := by
  rw [readLen_eq (Nat.le_of_succ_le h), usizeAdd_eq_ok (add_leNat_lt h hstart n)]

/-- The comparison of the length of the input with the announced one panics in its sum only. -/
theorem lengthCheck_eq_panic_iff {α : Type} (h : 32 ≤ usizeBits) {start len : Nat} {n : Bytes 4}
    {e : Error} {a : α} :
    ((do
      let total ← usizeAdd usizeBits start (readLen usizeBits n)
      if len ≠ total then err e else return a) : Outcome α) = panic ↔
        2 ^ usizeBits ≤ start + leNat n.toList := by
  rw [bind_eq_panic_iff_left, usizeAdd_eq_panic_iff, readLen_eq h]
  intro total
  split
  · exact err_ne_panic e
  · exact ok_ne_panic a

/-! ## Capsules -/

namespace Capsule

/-- The checks of `Capsule::from_bytes`, in their order. -/
theorem fromBytes_append (e v s : Bytes 32) :
    fromBytes D (e.toList ++ v.toList ++ s.toList) = (do
      let pointE : Point ← okOr (decompress e) .invalidPublicKey
      let pointV : Point ← okOr (decompress v) .invalidPublicKey
      let signature ← okOr (Scalar.fromCanonicalBytes s) (.encoding "invalid capsule scalar")
      let capsule : Capsule Point := { pointE := pointE, pointV := pointV, signature := signature }
      if ¬ capsule.verify D then err .capsuleValidationFailed else return capsule) := by
  have hlen : ¬ (e.toList ++ v.toList ++ s.toList).length ≠ capsuleSize := by
    simp [capsuleSize]
  have he : Outcome.slice (e.toList ++ v.toList ++ s.toList) 0 32 = .ok e.toList :=
    slice_eq_ok [] (v.toList ++ s.toList) (by simp) rfl (by simp)
  have hv : Outcome.slice (e.toList ++ v.toList ++ s.toList) 32 64 = .ok v.toList :=
    slice_eq_ok e.toList s.toList rfl (by simp) (by simp)
  have hs : Outcome.slice (e.toList ++ v.toList ++ s.toList) 64 96 = .ok s.toList :=
    slice_eq_ok (e.toList ++ v.toList) [] (by simp) (by simp) (by simp)
  simp only [fromBytes, hlen, if_false, he, hv, hs, ok_bind, decompressPoint_toList,
    copyFromSlice_toList]

/-- An input of the right length is three blocks. -/
theorem exists_blocks {bytes : List UInt8} (h : bytes.length = capsuleSize) :
    ∃ e v s : Bytes 32, bytes = e.toList ++ v.toList ++ s.toList := by
  rw [capsuleSize] at h
  -- cut block after block; what is left over has the length of the last one
  rcases exists_block_append (n := 32) (l := bytes) (by omega) with ⟨e, rest, rfl⟩
  rw [List.length_append, e.length_eq] at h
  rcases exists_block_append (n := 32) (l := rest) (by omega) with ⟨v, rest, rfl⟩
  rw [List.length_append, v.length_eq] at h
  exact ⟨e, v, ⟨rest, by omega⟩, by simp⟩

theorem fromBytes_eq_ok_iff {bytes : List UInt8} {c : Capsule Point} :
    fromBytes D bytes = .ok c ↔ ∃ e v s : Bytes 32, bytes = e.toList ++ v.toList ++ s.toList ∧
      decompress e = some c.pointE ∧ decompress v = some c.pointV ∧
      Scalar.toBytes c.signature = s ∧ c.verify D = true := by
  constructor
  · intro h
    by_cases hlen : bytes.length = capsuleSize
    · rcases exists_blocks hlen with ⟨e, v, s, rfl⟩
      rw [fromBytes_append] at h
      -- each check has to pass for the next one to be made
      rcases okOr_bind_eq_ok_iff.1 h with ⟨E, hE, h⟩
      rcases okOr_bind_eq_ok_iff.1 h with ⟨V, hV, h⟩
      rcases okOr_bind_eq_ok_iff.1 h with ⟨sig, hsig, h⟩
      dsimp only at h
      split at h
      · exact absurd h (err_ne_ok _ _)
      · rename_i hverify
        cases h
        exact ⟨e, v, s, rfl, hE, hV, Scalar.fromCanonicalBytes_eq_some_iff.1 hsig,
          not_not.1 hverify⟩
    · rw [fromBytes, if_pos hlen] at h
      exact absurd h (err_ne_ok _ _)
  · rintro ⟨e, v, s, rfl, hE, hV, hs, hverify⟩
    rw [fromBytes_append, hE, hV, Scalar.fromCanonicalBytes_eq_some_iff.2 hs, okOr_some, okOr_some,
      okOr_some, ok_bind, ok_bind, ok_bind]
    exact if_neg (not_not.2 hverify)

/-- Two encodings of points and a canonical scalar that satisfy the capsule equation. -/
def WellFormed (D : Primitives Point) (bytes : List UInt8) : Prop :=
  ∃ (e v s : Bytes 32) (c : Capsule Point), bytes = e.toList ++ v.toList ++ s.toList ∧
    decompress e = some c.pointE ∧ decompress v = some c.pointV ∧
    Scalar.toBytes c.signature = s ∧ c.verify D = true

theorem exists_fromBytes_iff {bytes : List UInt8} :
    (∃ c : Capsule Point, fromBytes D bytes = .ok c) ↔ WellFormed D bytes := by
  constructor
  · rintro ⟨c, hc⟩
    rcases fromBytes_eq_ok_iff.1 hc with ⟨e, v, s, hblocks⟩
    exact ⟨e, v, s, c, hblocks⟩
  · rintro ⟨e, v, s, c, hblocks⟩
    exact ⟨c, fromBytes_eq_ok_iff.2 ⟨e, v, s, hblocks⟩⟩

theorem fromBytes_ne_panic (bytes : List UInt8) :
    (fromBytes D bytes : Outcome (Capsule Point)) ≠ panic := by
  by_cases hlen : bytes.length = capsuleSize
  · rcases exists_blocks hlen with ⟨e, v, s, rfl⟩
    rw [fromBytes_append]
    refine bind_ne_panic (okOr_ne_panic _ _) fun E _ => ?_
    refine bind_ne_panic (okOr_ne_panic _ _) fun V _ => ?_
    refine bind_ne_panic (okOr_ne_panic _ _) fun sig _ => ?_
    dsimp only
    split
    · exact err_ne_panic _
    · exact ok_ne_panic _
  · rw [fromBytes, if_pos hlen]
    exact err_ne_panic _

/-- The accepted capsules are those that verify. -/
theorem fromBytes_toBytes_iff {c : Capsule Point} :
    fromBytes D c.toBytes.toList = .ok c ↔ c.verify D = true := by
  rw [fromBytes_eq_ok_iff]
  constructor
  · rintro ⟨_, _, _, _, _, _, _, hverify⟩
    exact hverify
  · intro hverify
    exact ⟨compress c.pointE, compress c.pointV, Scalar.toBytes c.signature, rfl,
      decompress_compress _, decompress_compress _, rfl, hverify⟩

theorem verify_of_fromBytes {bytes : List UInt8} {c : Capsule Point}
    (h : fromBytes D bytes = .ok c) : c.verify D = true := by
  rcases fromBytes_eq_ok_iff.1 h with ⟨_, _, _, _, _, _, _, hverify⟩
  exact hverify

end Capsule

/-! ## Ciphertexts -/

namespace Ciphertext

/-- The checks of `Ciphertext::from_bytes`, in their order. -/
theorem fromBytes_blocks (c : Bytes capsuleSize) (n : Bytes 4) (p : List UInt8) :
    fromBytes D usizeBits (c.toList ++ n.toList ++ p) = (do
      let capsule : Capsule Point ← Capsule.fromBytes D c.toList
      let total ← usizeAdd usizeBits (capsuleSize + 4) (readLen usizeBits n)
      if capsuleSize + 4 + p.length ≠ total then err (.encoding "ciphertext length mismatch")
      else return { capsule := capsule, payload := p }) := by
  have hbytes : (c.toList ++ n.toList ++ p).length = capsuleSize + 4 + p.length := by
    rw [List.length_append, List.length_append, c.length_eq, n.length_eq]
  have hlen : ¬ capsuleSize + 4 + p.length < capsuleSize + 4 := by
    omega
  have hc : Outcome.slice (c.toList ++ n.toList ++ p) 0 capsuleSize = .ok c.toList :=
    slice_eq_ok [] (n.toList ++ p) (by simp) rfl (by simp)
  have hn : Outcome.slice (c.toList ++ n.toList ++ p) capsuleSize (capsuleSize + 4) =
      .ok n.toList :=
    slice_eq_ok c.toList p rfl c.length_eq (by rw [n.length_eq])
  have hp : Outcome.slice (c.toList ++ n.toList ++ p) (capsuleSize + 4)
      (capsuleSize + 4 + p.length) = .ok p :=
    slice_eq_ok (c.toList ++ n.toList) [] (by simp) (by simp) rfl
  simp only [fromBytes, hbytes, hlen, if_false, hc, hn, ok_bind, copyFromSlice_toList, hp]

/-- The same where the announced end of the input fits in a `usize`. -/
theorem fromBytes_append (h : 33 ≤ usizeBits) (c : Bytes capsuleSize) (n : Bytes 4)
    (p : List UInt8) :
    fromBytes D usizeBits (c.toList ++ n.toList ++ p) = (do
      let capsule : Capsule Point ← Capsule.fromBytes D c.toList
      if p.length ≠ leNat n.toList then err (.encoding "ciphertext length mismatch")
      else return { capsule := capsule, payload := p }) := by
  have htotal : capsuleSize + 4 + p.length ≠ capsuleSize + 4 + leNat n.toList ↔
      p.length ≠ leNat n.toList := by
    omega
  rw [fromBytes_blocks]
  simp only [usizeAdd_readLen h (Nat.le_of_ble_eq_true rfl : capsuleSize + 4 ≤ 2 ^ 32), ok_bind,
    htotal]

/-- An input that is not too short is a capsule block, a length and a payload. -/
theorem exists_blocks {bytes : List UInt8} (h : capsuleSize + 4 ≤ bytes.length) :
    ∃ (c : Bytes capsuleSize) (n : Bytes 4) (p : List UInt8),
      bytes = c.toList ++ n.toList ++ p := by
  rcases exists_block_append (n := capsuleSize) (l := bytes) (by omega) with ⟨c, rest, rfl⟩
  rw [List.length_append, c.length_eq] at h
  rcases exists_block_append (n := 4) (l := rest) (by omega) with ⟨n, p, rfl⟩
  exact ⟨c, n, p, by simp⟩

theorem fromBytes_eq_ok_iff (h : 33 ≤ usizeBits) {bytes : List UInt8} {ct : Ciphertext Point} :
    fromBytes D usizeBits bytes = .ok ct ↔ ∃ (c : Bytes capsuleSize) (n : Bytes 4),
      bytes = c.toList ++ n.toList ++ ct.payload ∧ Capsule.fromBytes D c.toList = .ok ct.capsule ∧
        ct.payload.length = leNat n.toList := by
  constructor
  · intro hok
    by_cases hlen : bytes.length < capsuleSize + 4
    · rw [fromBytes, if_pos hlen] at hok
      exact absurd hok (err_ne_ok _ _)
    · rcases exists_blocks (Nat.le_of_not_lt hlen) with ⟨c, n, p, rfl⟩
      rw [fromBytes_append h] at hok
      -- the capsule is parsed before the length is compared
      rcases bind_eq_ok_iff.1 hok with ⟨capsule, hc, hok⟩
      split at hok
      · exact absurd hok (err_ne_ok _ _)
      · rename_i hp
        cases hok
        exact ⟨c, n, rfl, hc, not_not.1 hp⟩
  · rintro ⟨c, n, rfl, hc, hp⟩
    rw [fromBytes_append h, hc, ok_bind, if_neg (not_not.2 hp)]
    rfl

/-- Whatever the width of `usize`, the capsule of an accepted ciphertext verifies. -/
theorem verify_of_fromBytes {bytes : List UInt8} {ct : Ciphertext Point}
    (h : fromBytes D usizeBits bytes = .ok ct) : ct.capsule.verify D = true := by
  -- follow the parser down to the capsule, without looking at the length
  rw [fromBytes] at h
  split at h
  · exact absurd h (err_ne_ok _ _)
  rcases bind_eq_ok_iff.1 h with ⟨block, _, h⟩
  rcases bind_eq_ok_iff.1 h with ⟨capsule, hcapsule, h⟩
  rcases bind_eq_ok_iff.1 h with ⟨lenBlock, _, h⟩
  rcases bind_eq_ok_iff.1 h with ⟨len, _, h⟩
  rcases bind_eq_ok_iff.1 h with ⟨total, _, h⟩
  split at h
  · exact absurd h (err_ne_ok _ _)
  rcases bind_eq_ok_iff.1 h with ⟨payload, _, h⟩
  cases h
  exact Capsule.verify_of_fromBytes hcapsule

/-- The end of the input that the length field announces does not fit in a `usize`. -/
def LengthOverflows (D : Primitives Point) (usizeBits : Nat) (bytes : List UInt8) : Prop :=
  ∃ (c : Bytes capsuleSize) (n : Bytes 4) (p : List UInt8), bytes = c.toList ++ n.toList ++ p ∧
    Capsule.WellFormed D c.toList ∧ 2 ^ usizeBits ≤ capsuleSize + 4 + leNat n.toList

theorem not_lengthOverflows (h : 33 ≤ usizeBits) (bytes : List UInt8) :
    ¬ LengthOverflows D usizeBits bytes := by
  rintro ⟨c, n, p, _, _, hover⟩
  exact Nat.not_lt.2 hover (add_leNat_lt h (Nat.le_of_ble_eq_true rfl) n)

/-- The sum of the length check is the only thing that can panic. -/
theorem fromBytes_blocks_eq_panic_iff (h : 32 ≤ usizeBits) {c : Bytes capsuleSize} {n : Bytes 4}
    {p : List UInt8} :
    (fromBytes D usizeBits (c.toList ++ n.toList ++ p) : Outcome (Ciphertext Point)) = panic ↔
      Capsule.WellFormed D c.toList ∧ 2 ^ usizeBits ≤ capsuleSize + 4 + leNat n.toList := by
  rw [fromBytes_blocks, bind_eq_panic_iff_of_ne_panic (Capsule.fromBytes_ne_panic _),
    ← Capsule.exists_fromBytes_iff]
  simp only [lengthCheck_eq_panic_iff h, exists_and_right]

theorem fromBytes_eq_panic_iff (h : 32 ≤ usizeBits) {bytes : List UInt8} :
    (fromBytes D usizeBits bytes : Outcome (Ciphertext Point)) = panic ↔
      LengthOverflows D usizeBits bytes := by
  constructor
  · intro hpanic
    by_cases hlen : bytes.length < capsuleSize + 4
    · rw [fromBytes, if_pos hlen] at hpanic
      exact absurd hpanic (err_ne_panic _)
    · rcases exists_blocks (Nat.le_of_not_lt hlen) with ⟨c, n, p, rfl⟩
      exact ⟨c, n, p, rfl, (fromBytes_blocks_eq_panic_iff h).1 hpanic⟩
  · rintro ⟨c, n, p, rfl, hover⟩
    exact (fromBytes_blocks_eq_panic_iff h).2 hover

theorem fromBytes_ne_panic (h : 33 ≤ usizeBits) (bytes : List UInt8) :
    (fromBytes D usizeBits bytes : Outcome (Ciphertext Point)) ≠ panic := fun hpanic =>
  not_lengthOverflows h bytes ((fromBytes_eq_panic_iff (Nat.le_of_succ_le h)).1 hpanic)

end Ciphertext

/-! ## Re-encryption keys -/

namespace ReencryptionKey

/-- The checks of `ReencryptionKey::from_bytes`, in their order. -/
theorem fromBytes_append (k x a b : Bytes 32) :
    fromBytes (k.toList ++ x.toList ++ a.toList ++ b.toList) = (do
      let rk ← okOr (Scalar.fromCanonicalBytes k) .invalidReencryptionKey
      if rk = 0 then err .invalidReencryptionKey
      else
        let precursor : Point ← okOr (decompress x) .invalidPublicKey
        let _ ← (PrePublicKey.fromBytes a : Outcome (PrePublicKey Point))
        let _ ← (StellarPublicKey.fromEd25519Bytes b : Outcome (StellarPublicKey Point))
        return { rk := rk, precursor := precursor, bobEd25519 := b, alicePrePk := a }) := by
  have hlen : ¬ (k.toList ++ x.toList ++ a.toList ++ b.toList).length ≠ 128 := by
    simp
  have hk : Outcome.slice (k.toList ++ x.toList ++ a.toList ++ b.toList) 0 32 = .ok k.toList :=
    slice_eq_ok [] (x.toList ++ a.toList ++ b.toList) (by simp) rfl (by simp)
  have hx : Outcome.slice (k.toList ++ x.toList ++ a.toList ++ b.toList) 32 64 = .ok x.toList :=
    slice_eq_ok k.toList (a.toList ++ b.toList) (by simp) (by simp) (by simp)
  have ha : Outcome.slice (k.toList ++ x.toList ++ a.toList ++ b.toList) 64 96 = .ok a.toList :=
    slice_eq_ok (k.toList ++ x.toList) b.toList (by simp) (by simp) (by simp)
  have hb : Outcome.slice (k.toList ++ x.toList ++ a.toList ++ b.toList) 96 128 = .ok b.toList :=
    slice_eq_ok (k.toList ++ x.toList ++ a.toList) [] (by simp) (by simp) (by simp)
  simp only [fromBytes, hlen, if_false, hk, hx, ha, hb, ok_bind, decompressPoint_toList,
    copyFromSlice_toList]

theorem exists_blocks {bytes : List UInt8} (h : bytes.length = 128) :
    ∃ k x a b : Bytes 32, bytes = k.toList ++ x.toList ++ a.toList ++ b.toList := by
  rcases exists_block_append (n := 32) (l := bytes) (by omega) with ⟨k, rest, rfl⟩
  rw [List.length_append, k.length_eq] at h
  rcases exists_block_append (n := 32) (l := rest) (by omega) with ⟨x, rest, rfl⟩
  rw [List.length_append, x.length_eq] at h
  rcases exists_block_append (n := 32) (l := rest) (by omega) with ⟨a, rest, rfl⟩
  rw [List.length_append, a.length_eq] at h
  exact ⟨k, x, a, ⟨rest, by omega⟩, by simp⟩

theorem fromBytes_eq_ok_iff {bytes : List UInt8} {key : ReencryptionKey Point} :
    fromBytes bytes = .ok key ↔ ∃ k x : Bytes 32,
      bytes = k.toList ++ x.toList ++ key.alicePrePk.toList ++ key.bobEd25519.toList ∧
        Scalar.toBytes key.rk = k ∧ key.rk ≠ 0 ∧ decompress x = some key.precursor ∧
        Nonempty (ValidPoint Point key.alicePrePk) ∧
        Nonempty (ValidPoint Point key.bobEd25519) := by
  constructor
  · intro hok
    by_cases hlen : bytes.length = 128
    · rcases exists_blocks hlen with ⟨k, x, a, b, rfl⟩
      rw [fromBytes_append] at hok
      rcases okOr_bind_eq_ok_iff.1 hok with ⟨rk, hrk, hok⟩
      split at hok
      · exact absurd hok (err_ne_ok _ _)
      rename_i hzero
      -- the two account keys are parsed only to be checked; their bytes are kept
      rcases okOr_bind_eq_ok_iff.1 hok with ⟨X, hX, hok⟩
      rcases bind_eq_ok_iff.1 hok with ⟨alice, halice, hok⟩
      rcases bind_eq_ok_iff.1 hok with ⟨bob, hbob, hok⟩
      cases hok
      exact ⟨k, x, rfl, Scalar.fromCanonicalBytes_eq_some_iff.1 hrk, hzero, hX,
        PrePublicKey.exists_fromBytes_iff.1 ⟨alice, halice⟩,
        StellarPublicKey.exists_fromEd25519Bytes_iff.1 ⟨bob, hbob⟩⟩
    · rw [fromBytes, if_pos hlen] at hok
      exact absurd hok (err_ne_ok _ _)
  · rintro ⟨k, x, rfl, hk, hzero, hx, ha, hb⟩
    rcases PrePublicKey.exists_fromBytes_iff.2 ha with ⟨alice, halice⟩
    rcases StellarPublicKey.exists_fromEd25519Bytes_iff.2 hb with ⟨bob, hbob⟩
    rw [fromBytes_append, Scalar.fromCanonicalBytes_eq_some_iff.2 hk, okOr_some, ok_bind,
      if_neg hzero, hx, okOr_some, ok_bind, halice, ok_bind, hbob, ok_bind]
    rfl

theorem fromBytes_ne_panic (bytes : List UInt8) :
    (fromBytes bytes : Outcome (ReencryptionKey Point)) ≠ panic := by
  by_cases hlen : bytes.length = 128
  · rcases exists_blocks hlen with ⟨k, x, a, b, rfl⟩
    rw [fromBytes_append]
    refine bind_ne_panic (okOr_ne_panic _ _) fun rk _ => ?_
    split
    · exact err_ne_panic _
    refine bind_ne_panic (okOr_ne_panic _ _) fun X _ => ?_
    refine bind_ne_panic (PrePublicKey.fromBytes_ne_panic a) fun alice _ => ?_
    refine bind_ne_panic (StellarPublicKey.fromEd25519Bytes_ne_panic b) fun bob _ => ?_
    exact ok_ne_panic _
  · rw [fromBytes, if_pos hlen]
    exact err_ne_panic _

end ReencryptionKey

/-! ## Re-encrypted ciphertexts -/

namespace ReencryptedCiphertext

/-- The length of what comes before the payload length. -/
def headerSize : Nat := 32 + 32 + 32 + capsuleSize + 32 + 32

/-- The blocks before the payload length. -/
structure Header where
  e : Bytes 32
  v : Bytes 32
  x : Bytes 32
  capsule : Bytes capsuleSize
  alice : Bytes 32
  bob : Bytes 32

/-- The blocks in their order. -/
def Header.toList (b : Header) : List UInt8 :=
  b.e.toList ++ b.v.toList ++ b.x.toList ++ b.capsule.toList ++ b.alice.toList ++ b.bob.toList

@[simp] theorem Header.length_toList (b : Header) : b.toList.length = headerSize := by
  simp only [Header.toList, List.length_append, Bytes.length_eq, headerSize]

/-- A block of the header, between the blocks before it and everything after it. -/
theorem Header.slice_eq_ok {b : Header} {i j : Nat} (pre mid post rest : List UInt8)
    (hb : b.toList = pre ++ mid ++ post) (hi : pre.length = i) (hj : i + mid.length = j) :
    Outcome.slice (b.toList ++ rest) i j = .ok mid := by
  refine Outcome.slice_eq_ok pre (post ++ rest) ?_ hi hj
  rw [hb, List.append_assoc (pre ++ mid)]

/-- The ranges that are read before the payload length are the blocks. -/
theorem Header.slices (b : Header) (rest : List UInt8) :
    Outcome.slice (b.toList ++ rest) 0 32 = .ok b.e.toList ∧
      Outcome.slice (b.toList ++ rest) 32 64 = .ok b.v.toList ∧
      Outcome.slice (b.toList ++ rest) 64 96 = .ok b.x.toList ∧
      Outcome.slice (b.toList ++ rest) 96 (96 + capsuleSize) = .ok b.capsule.toList ∧
      Outcome.slice (b.toList ++ rest) (96 + capsuleSize) (96 + capsuleSize + 32) =
        .ok b.alice.toList ∧
      Outcome.slice (b.toList ++ rest) (96 + capsuleSize + 32) (96 + capsuleSize + 64) =
        .ok b.bob.toList := by
  refine ⟨?_, ?_, ?_, ?_, ?_, ?_⟩
  · exact Header.slice_eq_ok [] _
      (b.v.toList ++ b.x.toList ++ b.capsule.toList ++ b.alice.toList ++ b.bob.toList) rest
      (by simp only [Header.toList, List.append_assoc, List.nil_append]) rfl
      (by simp only [Bytes.length_eq])
  · exact Header.slice_eq_ok b.e.toList _
      (b.x.toList ++ b.capsule.toList ++ b.alice.toList ++ b.bob.toList) rest
      (by simp only [Header.toList, List.append_assoc]) b.e.length_eq
      (by simp only [Bytes.length_eq])
  · exact Header.slice_eq_ok (b.e.toList ++ b.v.toList) _
      (b.capsule.toList ++ b.alice.toList ++ b.bob.toList) rest
      (by simp only [Header.toList, List.append_assoc])
      (by simp only [List.length_append, Bytes.length_eq]) (by simp only [Bytes.length_eq])
  · exact Header.slice_eq_ok (b.e.toList ++ b.v.toList ++ b.x.toList) _
      (b.alice.toList ++ b.bob.toList) rest
      (by simp only [Header.toList, List.append_assoc])
      (by simp only [List.length_append, Bytes.length_eq]) (by simp only [Bytes.length_eq])
  · exact Header.slice_eq_ok (b.e.toList ++ b.v.toList ++ b.x.toList ++ b.capsule.toList) _
      b.bob.toList rest
      (by simp only [Header.toList, List.append_assoc])
      (by simp only [List.length_append, Bytes.length_eq]) (by simp only [Bytes.length_eq])
  · exact Header.slice_eq_ok
      (b.e.toList ++ b.v.toList ++ b.x.toList ++ b.capsule.toList ++ b.alice.toList) _ [] rest
      (by simp only [Header.toList, List.append_assoc, List.append_nil])
      (by simp only [List.length_append, Bytes.length_eq]) (by simp only [Bytes.length_eq])

/-- The checks of `ReencryptedCiphertext::from_bytes`, in their order. -/
theorem fromBytes_blocks (b : Header) (n : Bytes 4) (p : List UInt8) :
    fromBytes D usizeBits (b.toList ++ n.toList ++ p) = (do
      let pointEPrime : Point ← okOr (decompress b.e) .invalidPublicKey
      let pointVPrime ← okOr (decompress b.v) .invalidPublicKey
      let precursor ← okOr (decompress b.x) .invalidPublicKey
      let originalCapsule ← Capsule.fromBytes D b.capsule.toList
      let total ← usizeAdd usizeBits (headerSize + 4) (readLen usizeBits n)
      if headerSize + 4 + p.length ≠ total then
        err (.encoding "reencrypted ciphertext length mismatch")
      else
        return { pointEPrime := pointEPrime, pointVPrime := pointVPrime, precursor := precursor,
                 originalCapsule := originalCapsule, payload := p, alicePrePk := b.alice,
                 bobEd25519 := b.bob }) := by
  have hbytes : (b.toList ++ n.toList ++ p).length = headerSize + 4 + p.length := by
    rw [List.length_append, List.length_append, b.length_toList, n.length_eq]
  have hlen : ¬ headerSize + 4 + p.length < headerSize + 4 := by
    omega
  rcases b.slices (n.toList ++ p) with ⟨he, hv, hx, hc, ha, hb⟩
  simp only [← List.append_assoc] at he hv hx hc ha hb
  have hn : Outcome.slice (b.toList ++ n.toList ++ p) headerSize (headerSize + 4) =
      .ok n.toList :=
    slice_eq_ok b.toList p rfl b.length_toList (by rw [n.length_eq])
  have hp : Outcome.slice (b.toList ++ n.toList ++ p) (headerSize + 4)
      (headerSize + 4 + p.length) = .ok p :=
    slice_eq_ok (b.toList ++ n.toList) [] (by simp only [List.append_nil])
      (by rw [List.length_append, b.length_toList, n.length_eq]) rfl
  rw [headerSize] at hbytes hlen hn hp ⊢
  simp only [fromBytes, hbytes, hlen, if_false, he, hv, hx, hc, ha, hb, hn, ok_bind,
    decompressPoint_toList, copyFromSlice_toList, hp]

/-- The same where the announced end of the input fits in a `usize`. -/
theorem fromBytes_append (h : 33 ≤ usizeBits) (b : Header) (n : Bytes 4) (p : List UInt8) :
    fromBytes D usizeBits (b.toList ++ n.toList ++ p) = (do
      let pointEPrime : Point ← okOr (decompress b.e) .invalidPublicKey
      let pointVPrime ← okOr (decompress b.v) .invalidPublicKey
      let precursor ← okOr (decompress b.x) .invalidPublicKey
      let originalCapsule ← Capsule.fromBytes D b.capsule.toList
      if p.length ≠ leNat n.toList then
        err (.encoding "reencrypted ciphertext length mismatch")
      else
        return { pointEPrime := pointEPrime, pointVPrime := pointVPrime, precursor := precursor,
                 originalCapsule := originalCapsule, payload := p, alicePrePk := b.alice,
                 bobEd25519 := b.bob }) := by
  have htotal : headerSize + 4 + p.length ≠ headerSize + 4 + leNat n.toList ↔
      p.length ≠ leNat n.toList := by
    omega
  rw [fromBytes_blocks]
  simp only [usizeAdd_readLen h (Nat.le_of_ble_eq_true rfl : headerSize + 4 ≤ 2 ^ 32), ok_bind,
    htotal]

theorem exists_blocks {bytes : List UInt8} (h : headerSize + 4 ≤ bytes.length) :
    ∃ (b : Header) (n : Bytes 4) (p : List UInt8), bytes = b.toList ++ n.toList ++ p := by
  rw [headerSize, capsuleSize] at h
  rcases exists_block_append (n := 32) (l := bytes) (by omega) with ⟨e, rest, rfl⟩
  rw [List.length_append, e.length_eq] at h
  rcases exists_block_append (n := 32) (l := rest) (by omega) with ⟨v, rest, rfl⟩
  rw [List.length_append, v.length_eq] at h
  rcases exists_block_append (n := 32) (l := rest) (by omega) with ⟨x, rest, rfl⟩
  rw [List.length_append, x.length_eq] at h
  rcases exists_block_append (n := capsuleSize) (l := rest) (by rw [capsuleSize]; omega) with
    ⟨c, rest, rfl⟩
  rw [List.length_append, c.length_eq, capsuleSize] at h
  rcases exists_block_append (n := 32) (l := rest) (by omega) with ⟨a, rest, rfl⟩
  rw [List.length_append, a.length_eq] at h
  rcases exists_block_append (n := 32) (l := rest) (by omega) with ⟨k, rest, rfl⟩
  rw [List.length_append, k.length_eq] at h
  rcases exists_block_append (n := 4) (l := rest) (by omega) with ⟨n, p, rfl⟩
  exact ⟨⟨e, v, x, c, a, k⟩, n, p, by simp only [Header.toList, List.append_assoc]⟩

theorem fromBytes_eq_ok_iff (h : 33 ≤ usizeBits) {bytes : List UInt8}
    {r : ReencryptedCiphertext Point} :
    fromBytes D usizeBits bytes = .ok r ↔ ∃ (b : Header) (n : Bytes 4),
      bytes = b.toList ++ n.toList ++ r.payload ∧ decompress b.e = some r.pointEPrime ∧
        decompress b.v = some r.pointVPrime ∧ decompress b.x = some r.precursor ∧
        Capsule.fromBytes D b.capsule.toList = .ok r.originalCapsule ∧ b.alice = r.alicePrePk ∧
        b.bob = r.bobEd25519 ∧ r.payload.length = leNat n.toList := by
  constructor
  · intro hok
    by_cases hlen : bytes.length < headerSize + 4
    · rw [fromBytes, ← headerSize, if_pos hlen] at hok
      exact absurd hok (err_ne_ok _ _)
    · rcases exists_blocks (Nat.le_of_not_lt hlen) with ⟨b, n, p, rfl⟩
      rw [fromBytes_append h] at hok
      rcases okOr_bind_eq_ok_iff.1 hok with ⟨E, hE, hok⟩
      rcases okOr_bind_eq_ok_iff.1 hok with ⟨V, hV, hok⟩
      rcases okOr_bind_eq_ok_iff.1 hok with ⟨X, hX, hok⟩
      rcases bind_eq_ok_iff.1 hok with ⟨capsule, hc, hok⟩
      split at hok
      · exact absurd hok (err_ne_ok _ _)
      · rename_i hp
        cases hok
        exact ⟨b, n, rfl, hE, hV, hX, hc, rfl, rfl, not_not.1 hp⟩
  · rintro ⟨b, n, rfl, hE, hV, hX, hc, ha, hb, hp⟩
    rw [fromBytes_append h, hE, hV, hX, hc, ha, hb, okOr_some, okOr_some, okOr_some, ok_bind,
      ok_bind, ok_bind, ok_bind, if_neg (not_not.2 hp)]
    rfl

/-- The end of the input that the length field announces does not fit in a `usize`. -/
def LengthOverflows (D : Primitives Point) (usizeBits : Nat) (bytes : List UInt8) : Prop :=
  ∃ (b : Header) (n : Bytes 4) (p : List UInt8), bytes = b.toList ++ n.toList ++ p ∧
    (∃ E V X : Point, decompress b.e = some E ∧ decompress b.v = some V ∧
      decompress b.x = some X) ∧
    Capsule.WellFormed D b.capsule.toList ∧ 2 ^ usizeBits ≤ headerSize + 4 + leNat n.toList

theorem not_lengthOverflows (h : 33 ≤ usizeBits) (bytes : List UInt8) :
    ¬ LengthOverflows D usizeBits bytes := by
  rintro ⟨b, n, p, _, _, _, hover⟩
  exact Nat.not_lt.2 hover (add_leNat_lt h (Nat.le_of_ble_eq_true rfl) n)

/-- The sum of the length check is the only thing that can panic. -/
theorem fromBytes_blocks_eq_panic_iff (h : 32 ≤ usizeBits) {b : Header} {n : Bytes 4}
    {p : List UInt8} :
    (fromBytes D usizeBits (b.toList ++ n.toList ++ p) :
        Outcome (ReencryptedCiphertext Point)) = panic ↔
      (∃ E V X : Point, decompress b.e = some E ∧ decompress b.v = some V ∧
        decompress b.x = some X) ∧
      Capsule.WellFormed D b.capsule.toList ∧
        2 ^ usizeBits ≤ headerSize + 4 + leNat n.toList := by
  rw [fromBytes_blocks, ← Capsule.exists_fromBytes_iff]
  simp only [okOr_bind_eq_panic_iff, bind_eq_panic_iff_of_ne_panic (Capsule.fromBytes_ne_panic _),
    lengthCheck_eq_panic_iff h, exists_and_right]
  constructor
  · rintro ⟨⟨E, hE⟩, ⟨V, hV⟩, ⟨X, hX⟩, hover⟩
    exact ⟨⟨E, V, X, hE, hV, hX⟩, hover⟩
  · rintro ⟨⟨E, V, X, hE, hV, hX⟩, hover⟩
    exact ⟨⟨E, hE⟩, ⟨V, hV⟩, ⟨X, hX⟩, hover⟩

theorem fromBytes_eq_panic_iff (h : 32 ≤ usizeBits) {bytes : List UInt8} :
    (fromBytes D usizeBits bytes : Outcome (ReencryptedCiphertext Point)) = panic ↔
      LengthOverflows D usizeBits bytes := by
  constructor
  · intro hpanic
    by_cases hlen : bytes.length < headerSize + 4
    · rw [fromBytes, ← headerSize, if_pos hlen] at hpanic
      exact absurd hpanic (err_ne_panic _)
    · rcases exists_blocks (Nat.le_of_not_lt hlen) with ⟨b, n, p, rfl⟩
      exact ⟨b, n, p, rfl, (fromBytes_blocks_eq_panic_iff h).1 hpanic⟩
  · rintro ⟨b, n, p, rfl, hover⟩
    exact (fromBytes_blocks_eq_panic_iff h).2 hover

theorem fromBytes_ne_panic (h : 33 ≤ usizeBits) (bytes : List UInt8) :
    (fromBytes D usizeBits bytes : Outcome (ReencryptedCiphertext Point)) ≠ panic := fun hpanic =>
  not_lengthOverflows h bytes ((fromBytes_eq_panic_iff (Nat.le_of_succ_le h)).1 hpanic)

end ReencryptedCiphertext

end StellarRecrypt
