import StellarRecrypt.Lib.StreamReader
import StellarRecrypt.Sample

/-!
# RandomBytes — what each call takes from the random source

Five functions of the crate draw random bytes, one of them in a loop whose length the bytes decide.
Over a source that is a place in a stream, each of them reads one part of it, front to back, and
returns what that part says.  So no byte is used twice, whatever is called in whatever order.
-/

namespace StellarRecrypt

open ByteString
open EdwardsCurve
open Outcome
open RngCore
open StreamReader

variable {Point : Type} [EdwardsCurve Point] {D : Primitives Point}

/-! ## Streams as sources -/

/-- The `n` bytes of a stream from a position on. -/
def bytesAt (stream : Nat → UInt8) (pos n : Nat) : Bytes n :=
  ⟨(List.range n).map fun i => stream (pos + i), by simp⟩

theorem bytesAt_congr {s t : Nat → UInt8} {pos n : Nat} (h : AgreeOn pos (pos + n) s t) :
    bytesAt s pos n = bytesAt t pos n := by
  apply Bytes.ext
  refine List.map_congr_left fun i hi => h _ (Nat.le_add_right _ _) ?_
  exact Nat.add_lt_add_left (List.mem_range.1 hi) pos

instance : RngCore (Cursor UInt8) where
  fillBytes n c := (bytesAt c.stream c.pos n, ⟨c.stream, c.pos + n⟩)

theorem local_fillBytes (n : Nat) :
    Local fun c : Cursor UInt8 => some (RngCore.fillBytes n c) := by
  intro c b c' h
  cases h
  refine ⟨rfl, Nat.le_add_right _ _, fun stream hagree => ?_⟩
  have hbytes := bytesAt_congr hagree
  show some (bytesAt stream c.pos n, _) = some (bytesAt c.stream c.pos n, _)
  rw [hbytes]

/-- The loop reads as many blocks as it needs. -/
theorem local_randomNonzeroScalar :
    Local (randomNonzeroScalar : Cursor UInt8 → Option (Scalar × Cursor UInt8)) := by
  intro c s c' h
  -- what a run of the loop reads, assuming it of the rounds after the first
  refine randomNonzeroScalar.partial_correctness
    (fun c result => Reads randomNonzeroScalar c result.1 result.2) ?_ c (s, c') h
  intro loop ih c result hresult
  dsimp only at hresult
  have hblock : ∀ stream, AgreeOn c.pos (c.pos + 64) c.stream stream →
      RngCore.fillBytes 64 (Cursor.mk stream c.pos) =
        ((RngCore.fillBytes 64 c).1, ⟨stream, c.pos + 64⟩) := by
    intro stream hagree
    exact Prod.ext (bytesAt_congr hagree).symm rfl
  split at hresult
  · rename_i hne
    rw [← Option.some_inj.1 hresult]
    refine ⟨rfl, Nat.le_add_right _ _, fun stream hagree => ?_⟩
    rw [randomNonzeroScalar, hblock stream hagree]
    dsimp only
    rw [if_pos hne]
    rfl
  · rename_i hzero
    have hrest := ih _ _ hresult
    have hpos : c.pos + 64 ≤ result.2.pos := hrest.pos_le
    refine ⟨hrest.stream_eq, le_trans (Nat.le_add_right _ _) hpos, fun stream hagree => ?_⟩
    rw [randomNonzeroScalar, hblock stream (hagree.mono le_rfl hpos)]
    dsimp only
    rw [if_neg hzero]
    exact hrest.eq_of_agreeOn stream (hagree.mono (Nat.le_add_right _ _) le_rfl)

/-! ## Calls -/

variable (D) in
/-- The calls of the crate that draw. -/
inductive DrawingCall where
  | encrypt (pk : PrePublicKey Point) (m : List UInt8)
  | rekeyGen (alice : StellarSecretKey D) (bob : StellarPublicKey Point)
  | rekeyGenStrkey (aliceS : List Char) (info : List UInt8) (bobG : List Char)
  | secretGenerate (info : List UInt8)
  | pairGenerate (info : List UInt8)

namespace DrawingCall

/-- What a call returns. -/
def Output : DrawingCall D → Type
  | encrypt _ _ => Outcome (Ciphertext Point)
  | rekeyGen _ _ => Outcome (ReencryptionKey Point)
  | rekeyGenStrkey _ _ _ => Outcome (ReencryptionKey Point)
  | secretGenerate _ => Outcome (StellarSecretKey D)
  | pairGenerate _ => Outcome (StellarKeyPair D)

/-- The call on a source. -/
def exec {R : Type} [RngCore R] : (call : DrawingCall D) → R → Option (call.Output × R)
  | encrypt pk m, rng => StellarRecrypt.encrypt D rng pk m
  | rekeyGen alice bob, rng => StellarRecrypt.rekeyGen rng alice bob
  | rekeyGenStrkey aliceS info bobG, rng => StellarRecrypt.rekeyGenStrkey D rng aliceS info bobG
  | secretGenerate info, rng => some (StellarSecretKey.generate D rng info)
  | pairGenerate info, rng => some (StellarKeyPair.generate D rng info)

end DrawingCall

/-- Sealing draws the nonce. -/
theorem local_seal (key : Bytes keyLen) (m aad : List UInt8) :
    Local fun c : Cursor UInt8 => some (Dem.seal D c key m aad) := by
  have hseal : ∀ c : Cursor UInt8, Dem.seal D c key m aad =
      ((okOr (D.aeadEncrypt key (RngCore.fillBytes nonceLen c).1 m aad)
        (.crypto "AEAD encrypt failed")).map ((RngCore.fillBytes nonceLen c).1.toList ++ ·),
          (RngCore.fillBytes nonceLen c).2) := by
    intro c
    rw [Dem.seal]
    dsimp only
    cases D.aeadEncrypt key (RngCore.fillBytes nonceLen c).1 m aad <;> rfl
  simp only [hseal]
  exact (local_fillBytes nonceLen).map fun nonce =>
    (okOr (D.aeadEncrypt key nonce m aad) (.crypto "AEAD encrypt failed")).map (nonce.toList ++ ·)

/-- Two scalars, then the nonce. -/
theorem local_encrypt (pk : PrePublicKey Point) (m : List UInt8) :
    Local fun c : Cursor UInt8 => encrypt D c pk m := by
  have hsealed : ∀ r u, Local fun c : Cursor UInt8 =>
      (some (Dem.seal D c (kdfFromPoint D ((r + u) • pk.point) encryptContext) m
        (encapsulate D r u : Capsule Point).toBytes.toList)).map fun p =>
          (p.1.map fun payload => Ciphertext.mk (encapsulate D r u : Capsule Point) payload, p.2) :=
    fun r u => (local_seal _ _ _).map fun payload =>
      payload.map (Ciphertext.mk (encapsulate D r u : Capsule Point))
  exact local_randomNonzeroScalar.bind fun r => local_randomNonzeroScalar.bind (hsealed r)

theorem local_rekeyGen (alice : StellarSecretKey D) (bob : StellarPublicKey Point) :
    Local fun c : Cursor UInt8 => rekeyGen c alice bob := by
  simp only [rekeyGen_eq]
  exact local_randomNonzeroScalar.map fun x =>
    (.ok (delegate alice bob x) : Outcome (ReencryptionKey Point))

/-- Keys that do not decode draw nothing. -/
theorem local_rekeyGenStrkey (aliceS : List Char) (info : List UInt8) (bobG : List Char) :
    Local fun c : Cursor UInt8 => rekeyGenStrkey D c aliceS info bobG := by
  simp only [rekeyGenStrkey]
  split
  · exact Local.pure _
  · exact local_rekeyGen _ _

theorem secretGenerate_eq (c : Cursor UInt8) (info : List UInt8) :
    StellarSecretKey.generate D c info =
      (expect (StellarSecretKey.fromSeed D (bytesAt c.stream c.pos 32) info),
        ⟨c.stream, c.pos + 32⟩) := rfl

theorem local_secretGenerate (info : List UInt8) :
    Local fun c : Cursor UInt8 => some (StellarSecretKey.generate D c info) :=
  (local_fillBytes 32).map fun seed => expect (StellarSecretKey.fromSeed D seed info)

theorem local_exec (call : DrawingCall D) :
    Local (call.exec : Cursor UInt8 → Option (call.Output × Cursor UInt8)) := by
  cases call with
  | encrypt pk m => exact local_encrypt pk m
  | rekeyGen alice bob => exact local_rekeyGen alice bob
  | rekeyGenStrkey aliceS info bobG => exact local_rekeyGenStrkey aliceS info bobG
  | secretGenerate info => exact local_secretGenerate info
  | pairGenerate info => exact (local_secretGenerate info).map (· >>= StellarKeyPair.fromSecret)

/-- Calls of any kind, in any order, from one random source: each stops reading where the next may
begin, so no byte is read twice, and each returns what it would return from any other source with
the same bytes in its part. -/
theorem random_bytes_used_once {c c' : Cursor UInt8}
    {made : List (Made (DrawingCall.Output : DrawingCall D → Type))}
    (h : Session DrawingCall.exec c made c') :
    (made.Pairwise fun x y => x.stop ≤ y.start) ∧
      ∀ x ∈ made, ∀ stream, AgreeOn x.start x.stop c.stream stream →
        x.call.exec (Cursor.mk stream x.start) = some (x.output, ⟨stream, x.stop⟩) :=
  ⟨h.pairwise local_exec, h.exec_eq local_exec⟩

namespace Sample

/-- A source of ones. -/
def ones (pos : Nat) : Cursor UInt8 :=
  ⟨fun _ => 1, pos⟩

/-- Ones where the two calls of `session_ones` read. -/
def onesThenZeros (i : Nat) : UInt8 :=
  if i < 96 then 1 else 0

/-- The scalar of 64 ones. -/
def onesScalar : Scalar :=
  Scalar.fromBytesModOrderWide (Bytes.replicate 64 1)

theorem randomNonzeroScalar_ones (pos : Nat) :
    randomNonzeroScalar (ones pos) = some (onesScalar, ones (pos + 64)) := by
  have hne : onesScalar ≠ 0 := by
    decide +kernel
  rw [randomNonzeroScalar]
  exact if_pos hne

/-- A secret is generated, then Alice delegates. -/
theorem session_ones : Session (DrawingCall.exec : (call : DrawingCall primitives) → _) (ones 0)
    [⟨.secretGenerate [], 0, 32,
        expect (StellarSecretKey.fromSeed primitives (bytesAt (ones 0).stream 0 32) [])⟩,
      ⟨.rekeyGen alice bob.account, 32, 96, .ok (delegate alice bob.account onesScalar)⟩]
    (ones 96) := by
  have hsecret : DrawingCall.exec (.secretGenerate [] : DrawingCall primitives) (ones 0) =
      some (expect (StellarSecretKey.fromSeed primitives (bytesAt (ones 0).stream 0 32) []),
        ones 32) :=
    congrArg some (secretGenerate_eq (ones 0) [])
  have hrekey : DrawingCall.exec (.rekeyGen alice bob.account : DrawingCall primitives) (ones 32) =
      some (.ok (delegate alice bob.account onesScalar), ones 96) := by
    show rekeyGen (ones 32) alice bob.account = _
    rw [rekeyGen_eq, randomNonzeroScalar_ones]
    rfl
  exact .cons hsecret (.cons hrekey (.nil _))

end Sample

/-- The secret reads 32 bytes and the delegation the 64 after them, whatever comes later. -/
theorem random_bytes_used_once_two_calls :
    rekeyGen (Cursor.mk Sample.onesThenZeros 32) Sample.alice Sample.bob.account =
      some (.ok (delegate Sample.alice Sample.bob.account Sample.onesScalar),
        ⟨Sample.onesThenZeros, 96⟩) := by
  have hagree : AgreeOn 32 96 (Sample.ones 0).stream Sample.onesThenZeros :=
    fun _ _ hlt => (if_pos hlt).symm
  exact (random_bytes_used_once Sample.session_ones).2 _
    (List.mem_cons_of_mem _ List.mem_cons_self) _ hagree

end StellarRecrypt
