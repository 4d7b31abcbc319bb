import StellarRecrypt.Api

/-!
# Panics — the one panic of the API

Two functions of the crate unwrap a result: `generate`, which expects the fresh seed to derive a
key, and `stellar_public_key`, which expects the derived account key to be valid.  `Call` lists the
fallible functions of the public API with their inputs, and the module follows each of them.

The build meant is the one without overflow checks, on a `usize` of more than 32 bits, where the
sums of the binary decoders fit.  With the checks a strkey decoder panics on one more kind of
string, too long for the memory of a 64-bit machine: where the capacity that `b32_decode` computes
overflows.  On every other string the two builds agree, which is `decodeKindChecked_eq`.
-/

namespace StellarRecrypt

open ByteString
open EdwardsCurve
open Outcome

variable {Point : Type} [EdwardsCurve Point]

/-- A call of a fallible function, with its inputs. -/
inductive Call (D : Primitives Point) (R : Type)
  -- strkeys and conversions
  | decodePublic (g : List Char)
  | decodeSeed (s : List Char)
  | ed25519PublicToX25519Public (edPub : Bytes 32)
  -- public keys
  | preFromBytes (bytes : Bytes 32)
  | preFromStellarSeed (seed : Bytes 32) (info : List UInt8)
  | preFromStellarSecretStrkey (s : List Char) (info : List UInt8)
  | stellarFromStrkey (g : List Char)
  | stellarFromEd25519Bytes (ed25519 : Bytes 32)
  -- secrets and key pairs
  | secretFromStrkey (s : List Char) (info : List UInt8)
  | secretFromSeed (seed : Bytes 32) (info : List UInt8)
  | secretGenerate (rng : R) (info : List UInt8)
  | stellarPublicKey (sk : StellarSecretKey D)
  | pairGenerate (rng : R) (info : List UInt8)
  | pairFromSecret (sk : StellarSecretKey D)
  | pairFromSecretStrkey (s : List Char) (info : List UInt8)
  -- encodings
  | capsuleFromBytes (bytes : List UInt8)
  | ciphertextFromBytes (bytes : List UInt8)
  | rekeyFromBytes (bytes : List UInt8)
  | reencryptedFromBytes (bytes : List UInt8)
  | alicePrePublic (k : ReencryptionKey Point)
  | bobStellarPublic (k : ReencryptionKey Point)
  -- re-encryption
  | encrypt (rng : R) (pk : PrePublicKey Point) (m : List UInt8)
  | decrypt (sk : StellarSecretKey D) (ct : Ciphertext Point)
  | rekeyGen (rng : R) (sk : StellarSecretKey D) (pk : StellarPublicKey Point)
  | reencrypt (k : ReencryptionKey Point) (ct : Ciphertext Point)
  | decryptReencrypted (sk : StellarSecretKey D) (reenc : ReencryptedCiphertext Point)
  | decryptWithStrkey (aliceS : List Char) (info : List UInt8) (ct : Ciphertext Point)
  | rekeyGenStrkey (rng : R) (aliceS : List Char) (info : List UInt8) (bobG : List Char)
  | decryptReencryptedWithStrkey (bobS : List Char) (reenc : ReencryptedCiphertext Point)

variable {D : Primitives Point} {R : Type} [RngCore R]

/-- The call ends in a panic, in a build without overflow checks. -/
def Call.Panics (usizeBits : Nat) : Call D R → Prop
  | .decodePublic g => StellarRecrypt.decodePublic g = panic
  | .decodeSeed s => StellarRecrypt.decodeSeed s = panic
  | .ed25519PublicToX25519Public edPub =>
      StellarRecrypt.ed25519PublicToX25519Public Point edPub = panic
  | .preFromBytes bytes => (PrePublicKey.fromBytes bytes : Outcome (PrePublicKey Point)) = panic
  | .preFromStellarSeed seed info => PrePublicKey.fromStellarSeed D seed info = panic
  | .preFromStellarSecretStrkey s info => PrePublicKey.fromStellarSecretStrkey D s info = panic
  | .stellarFromStrkey g =>
      (StellarPublicKey.fromStrkey g : Outcome (StellarPublicKey Point)) = panic
  | .stellarFromEd25519Bytes ed25519 =>
      (StellarPublicKey.fromEd25519Bytes ed25519 : Outcome (StellarPublicKey Point)) = panic
  | .secretFromStrkey s info => StellarSecretKey.fromStrkey D s info = panic
  | .secretFromSeed seed info => StellarSecretKey.fromSeed D seed info = panic
  | .secretGenerate rng info => (StellarSecretKey.generate D rng info).1 = panic
  | .stellarPublicKey sk => sk.stellarPublicKey = panic
  | .pairGenerate rng info => (StellarKeyPair.generate D rng info).1 = panic
  | .pairFromSecret sk => StellarKeyPair.fromSecret sk = panic
  | .pairFromSecretStrkey s info => StellarKeyPair.fromSecretStrkey D s info = panic
  | .capsuleFromBytes bytes => Capsule.fromBytes D bytes = panic
  | .ciphertextFromBytes bytes => Ciphertext.fromBytes D usizeBits bytes = panic
  | .rekeyFromBytes bytes =>
      (ReencryptionKey.fromBytes bytes : Outcome (ReencryptionKey Point)) = panic
  | .reencryptedFromBytes bytes => ReencryptedCiphertext.fromBytes D usizeBits bytes = panic
  | .alicePrePublic k => k.alicePrePublic = panic
  | .bobStellarPublic k => k.bobStellarPublic = panic
  | .encrypt rng pk m => ∃ rng', StellarRecrypt.encrypt D rng pk m = some (panic, rng')
  | .decrypt sk ct => StellarRecrypt.decrypt sk ct = panic
  | .rekeyGen rng sk pk => ∃ rng', StellarRecrypt.rekeyGen rng sk pk = some (panic, rng')
  | .reencrypt k ct => StellarRecrypt.reencrypt D k ct = panic
  | .decryptReencrypted sk reenc => StellarRecrypt.decryptReencrypted sk reenc = panic
  | .decryptWithStrkey aliceS info ct => StellarRecrypt.decryptWithStrkey D aliceS info ct = panic
  | .rekeyGenStrkey rng aliceS info bobG =>
      ∃ rng', StellarRecrypt.rekeyGenStrkey D rng aliceS info bobG = some (panic, rng')
  | .decryptReencryptedWithStrkey bobS reenc =>
      StellarRecrypt.decryptReencryptedWithStrkey D bobS reenc = panic

/-- The fresh seed of the call derives the PRE scalar zero. -/
def Call.DrawsZero (call : Call D R) : Prop :=
  ∃ (rng : R) (info : List UInt8),
    (call = .secretGenerate rng info ∨ call = .pairGenerate rng info) ∧
      derivePreScalarWithInfo D (RngCore.fillBytes 32 rng).1 info = 0

/-! ## Keys -/

theorem StellarSecretKey.fromSeed_ne_panic (seed : Bytes 32) (info : List UInt8) :
    fromSeed D seed info ≠ panic := by
  unfold fromSeed
  dsimp only
  split
  · exact err_ne_panic _
  · exact ok_ne_panic _

theorem StellarSecretKey.fromStrkey_ne_panic (s : List Char) (info : List UInt8) :
    fromStrkey D s info ≠ panic :=
  bind_ne_panic (decodeKind_ne_panic _ _ _ _) fun seed _ => fromSeed_ne_panic seed info

theorem StellarPublicKey.fromStrkey_ne_panic (g : List Char) :
    (fromStrkey g : Outcome (StellarPublicKey Point)) ≠ panic :=
  bind_ne_panic (decodeKind_ne_panic _ _ _ _) fun ed25519 _ => fromEd25519Bytes_ne_panic ed25519

theorem PrePublicKey.fromStellarSeed_ne_panic (seed : Bytes 32) (info : List UInt8) :
    fromStellarSeed D seed info ≠ panic := by
  rw [fromStellarSeed]
  split
  · exact err_ne_panic _
  · exact ok_ne_panic _

/-- `fromSecret` passes through the `expect` of `stellar_public_key`, which holds. -/
theorem StellarKeyPair.fromSecret_ne_panic (sk : StellarSecretKey D) : fromSecret sk ≠ panic := by
  rcases exists_fromSecret sk with ⟨kp, hkp, _⟩
  rw [hkp]
  exact ok_ne_panic kp

/-- The `expect` of `generate` fails exactly on a seed that derives no key. -/
theorem StellarSecretKey.generate_eq_panic_iff {rng : R} {info : List UInt8} :
    (generate D rng info).1 = panic ↔
      derivePreScalarWithInfo D (RngCore.fillBytes 32 rng).1 info = 0 := by
  have hgenerate : (generate D rng info).1 =
      expect (fromSeed D (RngCore.fillBytes 32 rng).1 info) := rfl
  rw [hgenerate]
  constructor
  · intro hpanic
    by_contra hne
    rcases exists_fromSeed_iff.2 hne with ⟨sk, hsk⟩
    rw [hsk] at hpanic
    exact absurd hpanic (ok_ne_panic sk)
  · intro hzero
    have hnone : ∀ sk, fromSeed D (RngCore.fillBytes 32 rng).1 info ≠ .ok sk := fun sk hsk =>
      exists_fromSeed_iff.1 ⟨sk, hsk⟩ hzero
    rcases exists_err_of_ne_panic (fromSeed_ne_panic _ _) hnone with ⟨e, he⟩
    rw [he]
    rfl

theorem StellarKeyPair.generate_eq_panic_iff {rng : R} {info : List UInt8} :
    (generate D rng info).1 = panic ↔
      derivePreScalarWithInfo D (RngCore.fillBytes 32 rng).1 info = 0 := by
  have hgenerate : (generate D rng info).1 =
      ((StellarSecretKey.generate D rng info).1 >>= fromSecret) := rfl
  rw [hgenerate, bind_eq_panic_iff_left fromSecret_ne_panic,
    StellarSecretKey.generate_eq_panic_iff]

/-! ## Ciphertexts -/

theorem openWith_ne_panic (P : Point) (c : Capsule Point) (payload : List UInt8) :
    openWith D P c payload ≠ panic := by
  rcases open_eq_ok_or (D := D) (kdfFromPoint D P encryptContext) payload c.toBytes.toList with
    ⟨m, hm⟩ | herr
  · intro h
    exact ok_ne_panic m (hm.symm.trans h)
  · intro h
    exact err_ne_panic _ (herr.symm.trans h)

theorem decrypt_ne_panic (sk : StellarSecretKey D) (ct : Ciphertext Point) :
    decrypt sk ct ≠ panic := by
  rw [decrypt_eq]
  split
  · exact err_ne_panic _
  · exact openWith_ne_panic _ _ _

theorem encrypt_ne_panic {rng rng' : R} {pk : PrePublicKey Point} {m : List UInt8} :
    encrypt D rng pk m ≠ some (panic, rng') := by
  intro h
  rw [encrypt_eq] at h
  rcases Option.bind_eq_some_iff.1 h with ⟨⟨r, rng₁⟩, _, h⟩
  rcases Option.bind_eq_some_iff.1 h with ⟨⟨u, rng₂⟩, _, h⟩
  have hseal := congrArg Prod.fst (Option.some_inj.1 h)
  -- the AEAD either seals the payload or reports its own error
  rw [Dem.seal] at hseal
  dsimp only at hseal
  split at hseal
  · cases hseal
  · cases hseal

theorem rekeyGen_ne_panic {rng rng' : R} {sk : StellarSecretKey D} {pk : StellarPublicKey Point} :
    rekeyGen rng sk pk ≠ some (panic, rng') := by
  intro h
  rcases rekeyGen_eq_some_iff.1 h with ⟨x, _, hx⟩
  exact ok_ne_panic _ hx.symm

theorem reencrypt_ne_panic (k : ReencryptionKey Point) (ct : Ciphertext Point) :
    reencrypt D k ct ≠ panic := by
  rw [reencrypt_eq]
  split
  · exact err_ne_panic _
  · exact ok_ne_panic _

theorem decryptReencrypted_ne_panic (sk : StellarSecretKey D)
    (reenc : ReencryptedCiphertext Point) : decryptReencrypted sk reenc ≠ panic := by
  rw [decryptReencrypted_eq]
  split
  · exact err_ne_panic _
  refine bind_ne_panic (PrePublicKey.fromBytes_ne_panic _) fun pk _ => ?_
  split
  · exact err_ne_panic _
  · exact openWith_ne_panic _ _ _

theorem rekeyGenStrkey_ne_panic {rng rng' : R} {aliceS bobG : List Char} {info : List UInt8} :
    rekeyGenStrkey D rng aliceS info bobG ≠ some (panic, rng') := by
  intro h
  have hkeys : (do
      let alice ← StellarSecretKey.fromStrkey D aliceS info
      let bob ← StellarPublicKey.fromStrkey bobG
      return (alice, bob) : Outcome (StellarSecretKey D × StellarPublicKey Point)) ≠ panic := by
    refine bind_ne_panic (StellarSecretKey.fromStrkey_ne_panic aliceS info) fun alice _ => ?_
    exact bind_ne_panic (StellarPublicKey.fromStrkey_ne_panic bobG) fun bob _ => ok_ne_panic _
  rw [rekeyGenStrkey] at h
  split at h
  · rename_i fault hfault
    cases h
    exact hkeys hfault
  · exact rekeyGen_ne_panic h

/-! ## Every call -/

/-- A call that generates no key returns. -/
theorem Call.not_panics {usizeBits : Nat} (h : 33 ≤ usizeBits) {call : Call D R}
    (hsecret : ∀ rng info, call ≠ .secretGenerate rng info)
    (hpair : ∀ rng info, call ≠ .pairGenerate rng info) : ¬ call.Panics usizeBits := by
  have hsecretStrkey := StellarSecretKey.fromStrkey_ne_panic (D := D)
  cases call with
  | decodePublic g => exact decodeKind_ne_panic _ _ _ _
  | decodeSeed s => exact decodeKind_ne_panic _ _ _ _
  | ed25519PublicToX25519Public edPub =>
      exact bind_ne_panic (okOr_ne_panic _ _) fun P _ => ok_ne_panic _
  | preFromBytes bytes => exact PrePublicKey.fromBytes_ne_panic bytes
  | preFromStellarSeed seed info => exact PrePublicKey.fromStellarSeed_ne_panic seed info
  | preFromStellarSecretStrkey s info =>
      exact bind_ne_panic (decodeKind_ne_panic _ _ _ _) fun seed _ =>
        PrePublicKey.fromStellarSeed_ne_panic seed info
  | stellarFromStrkey g => exact StellarPublicKey.fromStrkey_ne_panic g
  | stellarFromEd25519Bytes ed25519 => exact StellarPublicKey.fromEd25519Bytes_ne_panic ed25519
  | secretFromStrkey s info => exact hsecretStrkey s info
  | secretFromSeed seed info => exact StellarSecretKey.fromSeed_ne_panic seed info
  | secretGenerate rng info => exact absurd rfl (hsecret rng info)
  | stellarPublicKey sk =>
      intro hpanic
      exact ok_ne_panic _ (sk.stellarPublicKey_eq.symm.trans hpanic)
  | pairGenerate rng info => exact absurd rfl (hpair rng info)
  | pairFromSecret sk => exact StellarKeyPair.fromSecret_ne_panic sk
  | pairFromSecretStrkey s info =>
      exact bind_ne_panic (hsecretStrkey s info) fun sk _ => StellarKeyPair.fromSecret_ne_panic sk
  | capsuleFromBytes bytes => exact Capsule.fromBytes_ne_panic bytes
  | ciphertextFromBytes bytes => exact Ciphertext.fromBytes_ne_panic h bytes
  | rekeyFromBytes bytes => exact ReencryptionKey.fromBytes_ne_panic bytes
  | reencryptedFromBytes bytes => exact ReencryptedCiphertext.fromBytes_ne_panic h bytes
  | alicePrePublic k => exact PrePublicKey.fromBytes_ne_panic _
  | bobStellarPublic k => exact StellarPublicKey.fromEd25519Bytes_ne_panic _
  | encrypt rng pk m =>
      rintro ⟨rng', hpanic⟩
      exact encrypt_ne_panic hpanic
  | decrypt sk ct => exact decrypt_ne_panic sk ct
  | rekeyGen rng sk pk =>
      rintro ⟨rng', hpanic⟩
      exact rekeyGen_ne_panic hpanic
  | reencrypt k ct => exact reencrypt_ne_panic k ct
  | decryptReencrypted sk reenc => exact decryptReencrypted_ne_panic sk reenc
  | decryptWithStrkey aliceS info ct =>
      exact bind_ne_panic (hsecretStrkey aliceS info) fun sk _ => decrypt_ne_panic sk ct
  | rekeyGenStrkey rng aliceS info bobG =>
      rintro ⟨rng', hpanic⟩
      exact rekeyGenStrkey_ne_panic hpanic
  | decryptReencryptedWithStrkey bobS reenc =>
      exact bind_ne_panic (hsecretStrkey bobS []) fun sk _ => decryptReencrypted_ne_panic sk reenc

/-- A call that generates a key generates it from one source and one info. -/
theorem Call.drawsZero_iff {rng : R} {info : List UInt8} {call : Call D R}
    (hcall : call = .secretGenerate rng info ∨ call = .pairGenerate rng info) :
    call.DrawsZero ↔ derivePreScalarWithInfo D (RngCore.fillBytes 32 rng).1 info = 0 := by
  constructor
  · rintro ⟨rng', info', hcall', hzero⟩
    -- the two descriptions of the call are of one kind and have the same inputs
    rcases hcall with rfl | rfl
    · rcases hcall' with heq | heq
      · cases heq
        exact hzero
      · cases heq
    · rcases hcall' with heq | heq
      · cases heq
      · cases heq
        exact hzero
  · intro hzero
    exact ⟨rng, info, hcall, hzero⟩

/-- Whatever the inputs, a call panics exactly when it generates a key from a seed whose PRE scalar
is zero. -/
theorem call_panics_iff {usizeBits : Nat} (h : 33 ≤ usizeBits) (call : Call D R) :
    call.Panics usizeBits ↔ call.DrawsZero := by
  by_cases hsecret : ∃ rng info, call = .secretGenerate rng info
  · rcases hsecret with ⟨rng, info, rfl⟩
    exact StellarSecretKey.generate_eq_panic_iff.trans (Call.drawsZero_iff (Or.inl rfl)).symm
  by_cases hpair : ∃ rng info, call = .pairGenerate rng info
  · rcases hpair with ⟨rng, info, rfl⟩
    exact StellarKeyPair.generate_eq_panic_iff.trans (Call.drawsZero_iff (Or.inr rfl)).symm
  · have hreturns : ¬ call.Panics usizeBits :=
      Call.not_panics h (fun rng info heq => hsecret ⟨rng, info, heq⟩)
        fun rng info heq => hpair ⟨rng, info, heq⟩
    refine iff_of_false hreturns ?_
    rintro ⟨rng, info, heq | heq, _⟩
    · exact hsecret ⟨rng, info, heq⟩
    · exact hpair ⟨rng, info, heq⟩

/-- A pair generated on 64 bits from the source that repeats `1`. -/
theorem call_panics_iff_pairGenerate :
    (Call.pairGenerate Sample.rng [] : Call Sample.primitives Sample.ConstantRng).Panics 64 ↔
      (Call.pairGenerate Sample.rng [] : Call Sample.primitives Sample.ConstantRng).DrawsZero :=
  call_panics_iff (by norm_num) _

end StellarRecrypt
