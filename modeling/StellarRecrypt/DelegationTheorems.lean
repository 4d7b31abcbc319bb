import StellarRecrypt.Sample
import StellarRecrypt.WireTheorems

/-!
# DelegationTheorems — the two ways to a plaintext

Alice decrypts with `pre_sk`; Bob decrypts what the proxy redirected to him.  On the ciphertexts of
`encrypt` the two always agree.  On the ciphertexts the decoder accepts they agree as far as `d·rk`
and `pre_sk` act alike on `E + V`.
-/

namespace StellarRecrypt

open ByteString
open PrimeOrder
open EdwardsCurve
open Outcome
open RngCore

variable {Point : Type} [EdwardsCurve Point] {D : Primitives Point}
variable {R : Type} [RngCore R]

/-! ## Honest ciphertexts -/

/-- Delegation is correct from end to end: what `encrypt` returns, Alice decrypts; and whatever
random stream the delegation uses, it is generated unless its drawing loop never ends, it
re-encrypts the ciphertext, and Bob's check passes, his point is Alice's and he decrypts too. -/
theorem delegation_correct (hD : LawfulAead D) {alice bob : StellarSecretKey D} {rng rng₁ : R}
    {m : List UInt8} {ct : Ciphertext Point}
    (hct : encrypt D rng alice.prePublicKey m = some (.ok ct, rng₁)) :
    decrypt alice ct = .ok m ∧
      ∃ bobPk, bob.stellarPublicKey = .ok bobPk ∧ ∀ rng₂ : R,
        (rekeyGen rng₂ alice bobPk = none ↔ ∀ n, drawnScalar n rng₂ = 0) ∧
        ∀ result rng₃, rekeyGen rng₂ alice bobPk = some (result, rng₃) →
          ∃ rekey reenc, result = .ok rekey ∧ reencrypt D rekey ct = .ok reenc ∧
            Consistent bob reenc alice.prePublicKey ∧
            delegateeShared bob reenc = ownerShared alice ct.capsule ∧
            decryptReencrypted bob reenc = .ok m := by
  rcases encrypt_correct hD hct with ⟨hverify, htorsion, hopen⟩
  refine ⟨?_, bob.account, bob.stellarPublicKey_eq, fun rng₂ => ⟨?_, ?_⟩⟩
  · rw [decrypt_of_verify hverify, hopen]
  · rw [rekeyGen_eq, Option.map_eq_none_iff, randomNonzeroScalar_eq_none_iff]
  · intro result rng₃ hrekey
    rcases rekeyGen_eq_some_iff.1 hrekey with ⟨x, _, rfl⟩
    -- an honest capsule has no torsion, so Bob's point is Alice's
    have hshared := delegateeShared_redirect alice bob x ct htorsion
    refine ⟨_, _, rfl, reencrypt_of_verify hverify, consistent_redirect alice bob x ct hverify,
      hshared, ?_⟩
    rw [decryptReencrypted_redirect alice bob x ct hverify, hshared, hopen]

/-- A one-byte plaintext, from Alice to Bob. -/
theorem delegation_correct_one_byte :
    decrypt Sample.alice (Sample.ciphertext Sample.alice.prePublicKey [7]) = .ok [7] ∧
      ∃ bobPk, Sample.bob.stellarPublicKey = .ok bobPk ∧ ∀ rng₂ : Sample.ConstantRng,
        (rekeyGen rng₂ Sample.alice bobPk = none ↔ ∀ n, drawnScalar n rng₂ = 0) ∧
        ∀ result rng₃, rekeyGen rng₂ Sample.alice bobPk = some (result, rng₃) →
          ∃ rekey reenc, result = .ok rekey ∧
            reencrypt Sample.primitives rekey (Sample.ciphertext Sample.alice.prePublicKey [7]) =
              .ok reenc ∧
            Consistent Sample.bob reenc Sample.alice.prePublicKey ∧
            delegateeShared Sample.bob reenc =
              ownerShared Sample.alice (Sample.ciphertext Sample.alice.prePublicKey [7]).capsule ∧
            decryptReencrypted Sample.bob reenc = .ok [7] :=
  delegation_correct Sample.lawfulAead (Sample.encrypt_rng Sample.alice.prePublicKey (by decide))

/-! ## Accepted ciphertexts -/

/-- Both paths return the same plaintexts. -/
def PathsAgree (alice bob : StellarSecretKey D) (rekey : ReencryptionKey Point)
    (ct : Ciphertext Point) : Prop :=
  ∀ m, (reencrypt D rekey ct >>= decryptReencrypted bob) = .ok m ↔ decrypt alice ct = .ok m

/-- Multiplying by `rk` and then by `d` acts on `E + V` as multiplying by `pre_sk`. -/
def ActsAsOwner (alice bob : StellarSecretKey D) (rekey : ReencryptionKey Point)
    (ct : Ciphertext Point) : Prop :=
  (hashToD D rekey.precursor bob.account.point (bob.signingScalar • rekey.precursor)).val *
      rekey.rk.val ≡ alice.preSk.val [MOD addOrderOf (ct.capsule.pointE + ct.capsule.pointV)]

/-- A key derivation for payloads and an AEAD. -/
structure DemFunctions where
  kdf : (ikm info : List UInt8) → (n : Nat) → Bytes n
  encrypt : Bytes 32 → Bytes 24 → (msg aad : List UInt8) → Option (List UInt8)
  decrypt : Bytes 32 → Bytes 24 → (msg aad : List UInt8) → Option (List UInt8)

/-- The same curve, hash and derivation of `pre_sk`, with other functions under the payload. -/
def Primitives.withDem (D : Primitives Point) (F : DemFunctions) : Primitives Point :=
  { D with
    hkdfSha256 := fun salt ikm info n =>
      if salt = ascii "StellarRecrypt-PRE-v1" then F.kdf ikm info n
      else D.hkdfSha256 salt ikm info n
    aeadEncrypt := F.encrypt
    aeadDecrypt := F.decrypt }

theorem hkdfSha256_withDem (F : DemFunctions) (salt ikm info : List UInt8) (n : Nat) :
    (D.withDem F).hkdfSha256 salt ikm info n =
      if salt = ascii "StellarRecrypt-PRE-v1" then F.kdf ikm info n
      else D.hkdfSha256 salt ikm info n := rfl

theorem derivePreScalar_withDem (F : DemFunctions) (seed : Bytes 32) (info : List UInt8) :
    derivePreScalarWithInfo (D.withDem F) seed info = derivePreScalarWithInfo D seed info := by
  have hsalt : salt ≠ ascii "StellarRecrypt-PRE-v1" := by
    decide
  rw [derivePreScalarWithInfo, hkdfSha256_withDem, if_neg hsalt, derivePreScalarWithInfo]

theorem kdfFromPoint_withDem (F : DemFunctions) (P : Point) (context : List UInt8) :
    kdfFromPoint (D.withDem F) P context = F.kdf (compress P).toList context keyLen := by
  rw [kdfFromPoint, hkdfSha256_withDem, if_pos rfl]

/-- A secret key keeps its scalars. -/
def StellarSecretKey.withDem (sk : StellarSecretKey D) (F : DemFunctions) :
    StellarSecretKey (D.withDem F) where
  seed := sk.seed
  preSk := sk.preSk
  signingScalar := sk.signingScalar
  x25519Private := sk.x25519Private
  preSk_eq := by
    rcases sk.preSk_eq with ⟨info, hinfo⟩
    exact ⟨info, hinfo.trans (derivePreScalar_withDem F sk.seed info).symm⟩
  preSk_ne_zero := sk.preSk_ne_zero
  signingScalar_eq := sk.signingScalar_eq
  x25519Private_eq := sk.x25519Private_eq

section Accepted

variable {alice bob : StellarSecretKey D} {x : Scalar} {ct : Ciphertext Point}

theorem actsAsOwner_iff : ActsAsOwner alice bob (delegate alice bob.account x) ct ↔
    delegateeShared bob (redirect (delegate alice bob.account x) ct) =
      ownerShared alice ct.capsule := by
  rw [delegateeShared_redirect_eq_iff, ← recoveredScalar_redirect alice bob x ct]
  rfl

theorem pathsAgree_iff (hct : ct.capsule.verify D = true) :
    PathsAgree alice bob (delegate alice bob.account x) ct ↔
      ∀ m, openWith D (delegateeShared bob (redirect (delegate alice bob.account x) ct))
          ct.capsule ct.payload = .ok m ↔
        openWith D (ownerShared alice ct.capsule) ct.capsule ct.payload = .ok m := by
  simp only [PathsAgree, reencrypt_of_verify hct, ok_bind,
    decryptReencrypted_redirect alice bob x ct hct, decrypt_of_verify hct]

/-- A payload without room for a nonce and a tag opens under no key. -/
theorem openWith_short {payload : List UInt8} (h : payload.length < 40) (shared : Point)
    (c : Capsule Point) : openWith D shared c payload = err .decryptionFailed :=
  if_pos h

/-- Where `d·rk` acts as `pre_sk`, the paths agree for every key derivation and every AEAD. -/
theorem pathsAgree_of_actsAsOwner (hct : ct.capsule.verify D = true)
    (h : ActsAsOwner alice bob (delegate alice bob.account x) ct ∨ ct.payload.length < 40) :
    PathsAgree alice bob (delegate alice bob.account x) ct := by
  rw [pathsAgree_iff hct]
  intro m
  rcases h with hacts | hshort
  · rw [actsAsOwner_iff.1 hacts]
  · rw [openWith_short hshort, openWith_short hshort]

/-- Functions that open a payload under the key of one point only. -/
def demOfPoint (P : Point) : DemFunctions where
  kdf := fun ikm _ n => Bytes.replicate n (if ikm = (compress P).toList then 1 else 0)
  encrypt := fun key _ msg _ =>
    if key = Bytes.replicate 32 1 then some (msg ++ List.replicate 16 0) else none
  decrypt := fun key _ ct _ =>
    if key = Bytes.replicate 32 1 then some (ct.take (ct.length - 16)) else none

theorem lawfulAead_demOfPoint (P : Point) : LawfulAead (D.withDem (demOfPoint P)) where
  decrypt_encrypt := by
    intro key nonce msg aad ct h
    change (if key = Bytes.replicate 32 1 then some (msg ++ List.replicate 16 0) else none) =
      some ct at h
    show (if key = Bytes.replicate 32 1 then some (ct.take (ct.length - 16)) else none) = some msg
    split at h
    · rename_i hkey
      cases h
      rw [if_pos hkey, List.length_append, List.length_replicate, Nat.add_sub_cancel,
        List.take_left]
    · cases h
  length_encrypt := by
    intro key nonce msg aad ct h
    change (if key = Bytes.replicate 32 1 then some (msg ++ List.replicate 16 0) else none) =
      some ct at h
    split at h
    · cases h
      rw [List.length_append, List.length_replicate]
    · cases h

/-- They open every payload that is long enough, under that key only. -/
theorem exists_openWith_demOfPoint_iff {P Q : Point} {c : Capsule Point} {payload : List UInt8}
    (h : 40 ≤ payload.length) :
    (∃ m, openWith (D.withDem (demOfPoint P)) Q c payload = .ok m) ↔ Q = P := by
  rcases exists_block_append (n := 24) (l := payload) (by omega) with ⟨nonce, ct, rfl⟩
  rw [List.length_append, nonce.length_eq] at h
  -- the key tells the encodings of points apart, and encoding is injective
  have hkey : (demOfPoint P).kdf (compress Q).toList encryptContext keyLen = Bytes.replicate 32 1 ↔
      Q = P := by
    constructor
    · intro hkey
      by_contra hne
      have hbytes : (compress Q).toList ≠ (compress P).toList := fun heq =>
        hne (compress_injective (Bytes.ext heq))
      change Bytes.replicate keyLen (if (compress Q).toList = (compress P).toList then 1 else 0) =
        Bytes.replicate 32 1 at hkey
      rw [if_neg hbytes] at hkey
      exact absurd hkey (by decide)
    · rintro rfl
      exact congrArg (Bytes.replicate keyLen) (if_pos rfl)
  rw [openWith, kdfFromPoint_withDem, open_append _ _ (by omega), ← hkey]
  change (∃ m, okOr (if _ = Bytes.replicate 32 1 then some (ct.take (ct.length - 16)) else none)
    .decryptionFailed = .ok m) ↔ _
  split
  · rename_i heq
    exact ⟨fun _ => heq, fun _ => ⟨_, rfl⟩⟩
  · rename_i hne
    constructor
    · rintro ⟨m, hm⟩
      exact absurd hm (err_ne_ok _ _)
    · intro heq
      exact absurd heq hne

end Accepted

/-- For an accepted ciphertext the two paths agree, whatever the key derivation and the AEAD of the
payload, exactly when `d·rk` acts as `pre_sk` on `E + V` or the payload is too short to open. -/
theorem paths_agree_iff {alice bob : StellarSecretKey D} {bobPk : StellarPublicKey Point}
    {rng rng' : R} {rekey : ReencryptionKey Point} {bytes : List UInt8} {ct : Ciphertext Point}
    (hct : Ciphertext.fromBytes D 64 bytes = .ok ct) (hbob : bob.stellarPublicKey = .ok bobPk)
    (hrekey : rekeyGen rng alice bobPk = some (.ok rekey, rng')) :
    ((∀ F, PathsAgree (alice.withDem F) (bob.withDem F) rekey ct) ↔
        ActsAsOwner alice bob rekey ct ∨ ct.payload.length < 40) ∧
      ((∀ F, LawfulAead (D.withDem F) → PathsAgree (alice.withDem F) (bob.withDem F) rekey ct) ↔
        ActsAsOwner alice bob rekey ct ∨ ct.payload.length < 40) ∧
      (ActsAsOwner alice bob rekey ct ∨ ct.payload.length < 40 →
        PathsAgree alice bob rekey ct) := by
  rcases (Ciphertext.fromBytes_eq_ok_iff (by norm_num)).1 hct with ⟨_, _, _, hcapsule, _⟩
  have hverify := Capsule.verify_of_fromBytes hcapsule
  rw [bob.stellarPublicKey_eq] at hbob
  obtain rfl : bob.account = bobPk := Except.ok.inj hbob
  rcases rekeyGen_eq_some_iff.1 hrekey with ⟨x, _, hx⟩
  obtain rfl : rekey = delegate alice bob.account x := Except.ok.inj hx
  -- the condition does not mention the functions under the payload
  have hsufficient : ActsAsOwner alice bob (delegate alice bob.account x) ct ∨
        ct.payload.length < 40 →
      ∀ F, PathsAgree (alice.withDem F) (bob.withDem F) (delegate alice bob.account x) ct :=
    fun h F => pathsAgree_of_actsAsOwner (D := D.withDem F) hverify h
  have hnecessary : (∀ F, LawfulAead (D.withDem F) →
        PathsAgree (alice.withDem F) (bob.withDem F) (delegate alice bob.account x) ct) →
      ActsAsOwner alice bob (delegate alice bob.account x) ct ∨ ct.payload.length < 40 := by
    intro hall
    by_cases hlen : ct.payload.length < 40
    · exact Or.inr hlen
    left
    -- an AEAD that opens the payload under the key of Alice's point only
    have hagree := hall (demOfPoint (ownerShared alice ct.capsule)) (lawfulAead_demOfPoint _)
    have hiff := (pathsAgree_iff (D := D.withDem _) hverify).1 hagree
    have halice := (exists_openWith_demOfPoint_iff (D := D) (c := ct.capsule)
      (Nat.le_of_not_lt hlen)).2 (rfl : ownerShared alice ct.capsule = ownerShared alice ct.capsule)
    rcases halice with ⟨m, hm⟩
    exact actsAsOwner_iff.2
      ((exists_openWith_demOfPoint_iff (Nat.le_of_not_lt hlen)).1 ⟨m, (hiff m).2 hm⟩)
  refine ⟨⟨fun hall => hnecessary fun F _ => hall F, hsufficient⟩,
    ⟨hnecessary, fun h F _ => hsufficient h F⟩, pathsAgree_of_actsAsOwner hverify⟩

theorem Sample.fromBytes_ciphertext :
    Ciphertext.fromBytes Sample.primitives 64
        (Sample.ciphertext Sample.alice.prePublicKey [7]).toBytes =
      .ok (Sample.ciphertext Sample.alice.prePublicKey [7]) := by
  refine (Ciphertext.fromBytes_toBytes_iff (by norm_num)).2
    ⟨Sample.verify_ciphertext Sample.alice.prePublicKey [7], ?_⟩
  rw [Sample.length_ciphertext _ (by decide)]
  decide

/-- The honest ciphertext of one byte: the paths agree. -/
theorem paths_agree_one_byte :
    PathsAgree Sample.alice Sample.bob (delegate Sample.alice Sample.bob.account 1)
      (Sample.ciphertext Sample.alice.prePublicKey [7]) :=
  (paths_agree_iff Sample.fromBytes_ciphertext Sample.bob.stellarPublicKey_eq
      (Sample.rekeyGen_rng Sample.alice Sample.bob.account)).2.2
    (Or.inl (actsAsOwner_iff.2 (delegateeShared_redirect Sample.alice Sample.bob 1 _
      (encrypt_correct Sample.lawfulAead
        (Sample.encrypt_rng Sample.alice.prePublicKey (by decide))).2.1)))

/-- An honest delegation of an accepted ciphertext is re-encrypted, and Bob's integrity check passes
whatever `E` and `V` are: what he can still end with is the failure of the AEAD. -/
theorem delegation_never_rejected {alice bob : StellarSecretKey D} {usizeBits : Nat}
    {bytes : List UInt8} {ct : Ciphertext Point}
    (hct : Ciphertext.fromBytes D usizeBits bytes = .ok ct) :
    ∃ bobPk, bob.stellarPublicKey = .ok bobPk ∧ ∀ rng : R,
      (rekeyGen rng alice bobPk = none ↔ ∀ n, drawnScalar n rng = 0) ∧
      ∀ result rng', rekeyGen rng alice bobPk = some (result, rng') →
        ∃ rekey reenc, result = .ok rekey ∧ reencrypt D rekey ct = .ok reenc ∧
          decryptReencrypted bob reenc =
            openWith D (delegateeShared bob reenc) ct.capsule ct.payload ∧
          ((∃ m, decryptReencrypted bob reenc = .ok m) ∨
            decryptReencrypted bob reenc = err .decryptionFailed) := by
  have hverify := Ciphertext.verify_of_fromBytes hct
  refine ⟨bob.account, bob.stellarPublicKey_eq, fun rng => ⟨?_, ?_⟩⟩
  · rw [rekeyGen_eq, Option.map_eq_none_iff, randomNonzeroScalar_eq_none_iff]
  · intro result rng' hrekey
    rcases rekeyGen_eq_some_iff.1 hrekey with ⟨x, _, rfl⟩
    -- the capsule equation makes the check pass, torsion or not
    have hopen := decryptReencrypted_redirect alice bob x ct hverify
    refine ⟨_, _, rfl, reencrypt_of_verify hverify, hopen, ?_⟩
    rw [hopen]
    exact open_eq_ok_or _ _ _

/-- The ciphertext of one byte, encoded and read back. -/
theorem delegation_never_rejected_one_byte :
    ∃ bobPk, Sample.bob.stellarPublicKey = .ok bobPk ∧ ∀ rng : Sample.ConstantRng,
      (rekeyGen rng Sample.alice bobPk = none ↔ ∀ n, drawnScalar n rng = 0) ∧
      ∀ result rng', rekeyGen rng Sample.alice bobPk = some (result, rng') →
        ∃ rekey reenc, result = .ok rekey ∧
          reencrypt Sample.primitives rekey
              (Sample.ciphertext Sample.alice.prePublicKey [7]) = .ok reenc ∧
          decryptReencrypted Sample.bob reenc =
            openWith Sample.primitives (delegateeShared Sample.bob reenc)
              (Sample.ciphertext Sample.alice.prePublicKey [7]).capsule
              (Sample.ciphertext Sample.alice.prePublicKey [7]).payload ∧
          ((∃ m, decryptReencrypted Sample.bob reenc = .ok m) ∨
            decryptReencrypted Sample.bob reenc = err .decryptionFailed) :=
  delegation_never_rejected Sample.fromBytes_ciphertext

/-! ## A ciphertext the two paths disagree on -/

namespace Sample

/-- A capsule of the point of order two. -/
def torsionCapsule : Capsule Ed25519.Point :=
  { pointE := Ed25519.twoTorsion, pointV := 0, signature := 0 }

theorem smul_twoTorsion (s : Scalar) :
    s • Ed25519.twoTorsion = if s.val % 2 = 0 then 0 else Ed25519.twoTorsion :=
  Ed25519.nsmul_twoTorsion s.val

theorem verify_torsionCapsule : torsionCapsule.verify primitives = true := by
  have heven : (hashCapsulePoints primitives Ed25519.twoTorsion 0).val % 2 = 0 := by
    decide +kernel
  have hlhs : (0 : Scalar) • (basepoint : Ed25519.Point) = 0 := by
    rw [smul_eq_val_nsmul, ZMod.val_zero, zero_nsmul]
  have hrhs : hashCapsulePoints primitives Ed25519.twoTorsion 0 • Ed25519.twoTorsion = 0 := by
    rw [smul_twoTorsion, if_pos heven]
  exact verify_iff.2 (hlhs.trans (hrhs.symm.trans (zero_add _).symm))

/-- The payload key of the point of order two. -/
theorem kdf_twoTorsion : kdfFromPoint primitives Ed25519.twoTorsion encryptContext =
    ⟨[66, 219, 17, 125, 111, 200, 118, 186, 210, 205, 233, 104, 51, 241, 63, 116, 16, 0, 199, 248,
      201, 195, 56, 90, 127, 240, 209, 87, 232, 5, 208, 39], rfl⟩ := by
  decide +kernel

/-- The payload key of the identity. -/
theorem kdf_zero : kdfFromPoint primitives (0 : Ed25519.Point) encryptContext =
    ⟨[214, 195, 128, 222, 61, 222, 32, 3, 73, 119, 123, 202, 2, 228, 146, 223, 105, 247, 70, 74,
      76, 222, 138, 67, 1, 189, 69, 93, 173, 217, 222, 148], rfl⟩ := by
  decide +kernel

/-- A payload for the point of order two, on that capsule. -/
def torsionCiphertext : Ciphertext Ed25519.Point :=
  { capsule := torsionCapsule
    payload := payload (kdfFromPoint primitives Ed25519.twoTorsion encryptContext) [7]
      torsionCapsule.toBytes.toList }

theorem ownerShared_torsion : ownerShared alice torsionCapsule = Ed25519.twoTorsion := by
  have hodd : ¬ alice.preSk.val % 2 = 0 := by
    decide +kernel
  have hsum : torsionCapsule.pointE + torsionCapsule.pointV = Ed25519.twoTorsion :=
    add_zero _
  rw [ownerShared, hsum, smul_twoTorsion, if_neg hodd]

/-- The proxy's points are both the identity, because `rk` is even. -/
theorem delegateeShared_torsion :
    delegateeShared bob (redirect (delegate alice bob.account 1) torsionCiphertext) = 0 := by
  have hval : (delegate alice bob.account 1).rk.val % 2 = 0 := by
    rw [rk_bob, ZMod.val_natCast_of_lt (by norm_num [rkNat, groupOrder])]
    decide
  have hE : (delegate alice bob.account 1).rk • Ed25519.twoTorsion = 0 := by
    rw [smul_twoTorsion, if_pos hval]
  have hV : (delegate alice bob.account 1).rk • (0 : Ed25519.Point) = 0 :=
    nsmul_zero _
  have hsum : (redirect (delegate alice bob.account 1) torsionCiphertext).pointEPrime +
      (redirect (delegate alice bob.account 1) torsionCiphertext).pointVPrime = 0 :=
    (congrArg₂ (· + ·) hE hV).trans (add_zero _)
  exact delegateeShared_eq_zero hsum

theorem open_torsion : openWith primitives 0 torsionCapsule torsionCiphertext.payload =
    err .decryptionFailed := by
  refine open_payload_eq_err (by decide) ?_
  rw [kdf_twoTorsion, kdf_zero]
  decide +kernel

theorem fromBytes_torsionCiphertext :
    Ciphertext.fromBytes primitives 64 torsionCiphertext.toBytes = .ok torsionCiphertext := by
  refine (Ciphertext.fromBytes_toBytes_iff (by norm_num)).2 ⟨verify_torsionCapsule, ?_⟩
  show (payload _ [7] _).length < 2 ^ 32
  rw [length_payload _ (by decide)]
  norm_num

end Sample

/-- A ciphertext the decoder accepts, whose `E` has order two: Alice decrypts it, Bob does not. -/
theorem paths_disagree_on_torsion :
    Ciphertext.fromBytes Sample.primitives 64 Sample.torsionCiphertext.toBytes =
        .ok Sample.torsionCiphertext ∧
      Sample.bob.stellarPublicKey = .ok Sample.bob.account ∧
      rekeyGen Sample.rng Sample.alice Sample.bob.account =
        some (.ok (delegate Sample.alice Sample.bob.account 1), Sample.rng) ∧
      decrypt Sample.alice Sample.torsionCiphertext = .ok [7] ∧
      (reencrypt Sample.primitives (delegate Sample.alice Sample.bob.account 1)
          Sample.torsionCiphertext >>= decryptReencrypted Sample.bob) = err .decryptionFailed := by
  have hverify : Sample.torsionCiphertext.capsule.verify Sample.primitives = true :=
    Sample.verify_torsionCapsule
  have halice : decrypt Sample.alice Sample.torsionCiphertext = .ok [7] := by
    have hopen := Sample.open_payload
      (kdfFromPoint Sample.primitives Ed25519.twoTorsion encryptContext)
      (by decide : ChaChaPoly.Fits [(7 : UInt8)].length) Sample.torsionCapsule.toBytes.toList
    exact (decrypt_of_verify hverify).trans
      ((congrArg (fun P => openWith _ P _ _) Sample.ownerShared_torsion).trans hopen)
  have hbob := decryptReencrypted_redirect Sample.alice Sample.bob 1 Sample.torsionCiphertext
    hverify
  rw [Sample.delegateeShared_torsion] at hbob
  refine ⟨Sample.fromBytes_torsionCiphertext, Sample.bob.stellarPublicKey_eq,
    Sample.rekeyGen_rng _ _, halice, ?_⟩
  rw [reencrypt_of_verify hverify, ok_bind]
  exact hbob.trans Sample.open_torsion

end StellarRecrypt
