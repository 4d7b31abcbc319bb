import StellarRecrypt.DomainSeparation
import StellarRecrypt.Honest

/-!
# Isolation — which keys depend on which hashes

SHA-512 is called on seeds, on the points of a capsule and on the points of a delegation;
HKDF-SHA256 derives PRE scalars under one salt and payload keys under another.  The inputs of two
uses never meet, so each use can be given other answers while the rest of the crate computes what
it did.  This is the sense in which Alice's PRE keys are isolated from her account and one context,
a seed with an info, from another.
-/

namespace StellarRecrypt

open ByteString
open Delimited
open EdwardsCurve
open Outcome
open RngCore

variable {Point : Type} [EdwardsCurve Point] {D : Primitives Point}

/-! ## The inputs of the hash -/

/-- What `hash_capsule_points` hashes. -/
def capsuleTranscript (e v : Point) : List UInt8 :=
  ascii "StellarRecrypt/capsule" ++ (compress e).toList ++ (compress v).toList

/-- What `hash_to_d` hashes. -/
def rekeyTranscript (precursor bobPk dh : Point) : List UInt8 :=
  ascii "StellarRecrypt/rekey-d" ++ (compress precursor).toList ++ (compress bobPk).toList ++
    (compress dh).toList

/-- The scalar, and `1` instead of `0`. -/
def orOne (s : Scalar) : Scalar :=
  if s = 0 then 1 else s

theorem hashToD_eq (D : Primitives Point) (precursor bobPk dh : Point) :
    hashToD D precursor bobPk dh =
      orOne (Scalar.fromBytesModOrderWide (D.sha512 (rekeyTranscript precursor bobPk dh))) := rfl

theorem length_capsuleTranscript (e v : Point) : (capsuleTranscript e v).length = 86 := by
  rw [capsuleTranscript, List.length_append, List.length_append, Bytes.length_eq, Bytes.length_eq]
  rfl

theorem length_rekeyTranscript (precursor bobPk dh : Point) :
    (rekeyTranscript precursor bobPk dh).length = 118 := by
  rw [rekeyTranscript, List.length_append, List.length_append, List.length_append, Bytes.length_eq,
    Bytes.length_eq, Bytes.length_eq]
  rfl

/-! ## Other hashes -/

/-- The same curve, KDF and AEAD with another hash. -/
def Primitives.withHash (D : Primitives Point) (sha512 : List UInt8 → Bytes 64) :
    Primitives Point :=
  { D with
    sha512 := sha512
    verifyingKey := fun seed =>
      compress (clampInteger (leNat (lowerHalf (sha512 seed.toList)).toList) • (basepoint : Point))
    verifyingKey_eq := fun _ => rfl }

/-- The secret of the same seed and PRE scalar; its account is derived with the other hash. -/
def StellarSecretKey.withHash (sk : StellarSecretKey D) (sha512 : List UInt8 → Bytes 64) :
    StellarSecretKey (D.withHash sha512) where
  seed := sk.seed
  preSk := sk.preSk
  signingScalar := ed25519SeedToScalar (D.withHash sha512) sk.seed
  x25519Private := ed25519SeedToX25519Private (D.withHash sha512) sk.seed
  preSk_eq := sk.preSk_eq
  preSk_ne_zero := sk.preSk_ne_zero
  signingScalar_eq := rfl
  x25519Private_eq := rfl

/-- The hash answers on capsules as before. -/
def SameOnCapsules (D : Primitives Point) (sha512 : List UInt8 → Bytes 64) : Prop :=
  ∀ e v : Point, sha512 (capsuleTranscript e v) = D.sha512 (capsuleTranscript e v)

section WithHash

variable {sha512 : List UInt8 → Bytes 64} {R : Type} [RngCore R]

theorem fromSeed_withHash {seed : Bytes 32} {info : List UInt8} {sk : StellarSecretKey D}
    (h : StellarSecretKey.fromSeed D seed info = .ok sk) :
    StellarSecretKey.fromSeed (D.withHash sha512) seed info = .ok (sk.withHash sha512) := by
  rcases StellarSecretKey.fromSeed_eq_ok_iff.1 h with ⟨hseed, hpre⟩
  exact StellarSecretKey.fromSeed_eq_ok_iff.2 ⟨hseed, hpre⟩

theorem hashCapsulePoints_withHash (h : SameOnCapsules D sha512) :
    hashCapsulePoints (D.withHash sha512) = hashCapsulePoints D :=
  funext₂ fun e v => congrArg Scalar.fromBytesModOrderWide (h e v)

theorem verify_withHash (h : SameOnCapsules D sha512) (c : Capsule Point) :
    c.verify (D.withHash sha512) = c.verify D := by
  rw [Capsule.verify, Capsule.verify, hashCapsulePoints_withHash h]

theorem encrypt_withHash (h : SameOnCapsules D sha512) (rng : R) (pk : PrePublicKey Point)
    (m : List UInt8) : encrypt (D.withHash sha512) rng pk m = encrypt D rng pk m := by
  have hcapsule : encapsulate (D.withHash sha512) = (encapsulate D : _ → _ → Capsule Point) := by
    funext r u
    rw [encapsulate, encapsulate, hashCapsulePoints_withHash h]
  rw [encrypt_eq, encrypt_eq, hcapsule]
  rfl

theorem decrypt_withHash (h : SameOnCapsules D sha512) (sk : StellarSecretKey D)
    (ct : Ciphertext Point) : decrypt (sk.withHash sha512) ct = decrypt sk ct := by
  rw [decrypt_eq, decrypt_eq, verify_withHash h]
  rfl

theorem reencrypt_withHash (h : SameOnCapsules D sha512) (k : ReencryptionKey Point)
    (ct : Ciphertext Point) : reencrypt (D.withHash sha512) k ct = reencrypt D k ct := by
  rw [reencrypt_eq, reencrypt_eq, verify_withHash h]

theorem hashToD_withHash {precursor bobPk dh : Point}
    (h : sha512 (rekeyTranscript precursor bobPk dh) =
      D.sha512 (rekeyTranscript precursor bobPk dh)) :
    hashToD (D.withHash sha512) precursor bobPk dh = hashToD D precursor bobPk dh := by
  rw [hashToD_eq, hashToD_eq]
  exact congrArg (fun digest => orOne (Scalar.fromBytesModOrderWide digest)) h

theorem delegate_withHash (sk : StellarSecretKey D) {pk : StellarPublicKey Point} {x : Scalar}
    (h : sha512 (rekeyTranscript (x • basepoint) pk.point (x • pk.point)) =
      D.sha512 (rekeyTranscript (x • basepoint) pk.point (x • pk.point))) :
    delegate (sk.withHash sha512) pk x = delegate sk pk x := by
  rw [delegate, delegate, hashToD_withHash h]
  rfl

end WithHash

/-! ## Alice and her account -/

/-- The hash with another digest for one string. -/
def Primitives.rehash (D : Primitives Point) (msg : List UInt8) (digest : Bytes 64) :
    List UInt8 → Bytes 64 :=
  Function.update D.sha512 msg digest

theorem rehash_of_ne {msg msg' : List UInt8} {digest : Bytes 64} (h : msg' ≠ msg) :
    D.rehash msg digest msg' = D.sha512 msg' := by
  rw [Primitives.rehash, Function.update_of_ne h]

theorem rehash_self (msg : List UInt8) (digest : Bytes 64) :
    D.rehash msg digest msg = digest := by
  rw [Primitives.rehash, Function.update_self]

theorem rehash_of_length_ne {msg msg' : List UInt8} {digest : Bytes 64}
    (h : msg'.length ≠ msg.length) : D.rehash msg digest msg' = D.sha512 msg' := by
  refine rehash_of_ne ?_
  rintro rfl
  exact h rfl

theorem sameOnCapsules_rehash {msg : List UInt8} (h : msg.length ≠ 86) (digest : Bytes 64) :
    SameOnCapsules D (D.rehash msg digest) := fun e v =>
  rehash_of_length_ne (by rw [length_capsuleTranscript]; exact h.symm)

/-- Whatever digest Alice's seed has, and so whatever account: her PRE key, her decryptions, her
delegations, encryption and re-encryption are the same. -/
theorem owner_independent_of_account (alice : StellarSecretKey D) (digest : Bytes 64) :
    (∀ info, StellarSecretKey.fromSeed D alice.seed info = .ok alice →
        StellarSecretKey.fromSeed (D.withHash (D.rehash alice.seed.toList digest)) alice.seed info =
          .ok (alice.withHash (D.rehash alice.seed.toList digest))) ∧
      (alice.withHash (D.rehash alice.seed.toList digest)).signingScalar =
        (clampInteger (leNat (lowerHalf digest).toList) : Scalar) ∧
      (alice.withHash (D.rehash alice.seed.toList digest)).prePublicKey = alice.prePublicKey ∧
      (∀ ct, decrypt (alice.withHash (D.rehash alice.seed.toList digest)) ct = decrypt alice ct) ∧
      (∀ (R : Type) [RngCore R] (rng : R) (pk : StellarPublicKey Point),
        rekeyGen rng (alice.withHash (D.rehash alice.seed.toList digest)) pk =
          rekeyGen rng alice pk) ∧
      (∀ (R : Type) [RngCore R] (rng : R) (pk : PrePublicKey Point) (m : List UInt8),
        encrypt (D.withHash (D.rehash alice.seed.toList digest)) rng pk m =
          encrypt D rng pk m) ∧
      ∀ (k : ReencryptionKey Point) (ct : Ciphertext Point),
        reencrypt (D.withHash (D.rehash alice.seed.toList digest)) k ct = reencrypt D k ct := by
  have hseed : alice.seed.toList.length = 32 := alice.seed.length_eq
  -- a seed is shorter than what is hashed for capsules and for delegations
  have hcapsules : SameOnCapsules D (D.rehash alice.seed.toList digest) :=
    sameOnCapsules_rehash (by omega) digest
  refine ⟨fun info h => fromSeed_withHash h, ?_, rfl, decrypt_withHash hcapsules alice, ?_,
    fun R _ => encrypt_withHash hcapsules, reencrypt_withHash hcapsules⟩
  · show ed25519SeedToScalar _ _ = _
    rw [ed25519SeedToScalar_eq]
    dsimp only [Primitives.withHash]
    rw [rehash_self]
  · intro R _ rng pk
    rw [rekeyGen_eq, rekeyGen_eq]
    refine congrArg (Option.map · _) (funext fun drawn => ?_)
    rw [delegate_withHash]
    exact rehash_of_length_ne (by rw [length_rekeyTranscript]; omega)

/-! ## Bob and his contexts -/

/-- The same curve, hash and AEAD, and the same payload keys, with another derivation of PRE
scalars. -/
def Primitives.withPreKdf (D : Primitives Point)
    (kdf : (ikm info : List UInt8) → (n : Nat) → Bytes n) : Primitives Point :=
  { D with
    hkdfSha256 := fun s ikm info n =>
      if s = salt then kdf ikm info n else D.hkdfSha256 s ikm info n }

section WithPreKdf

variable {kdf : (ikm info : List UInt8) → (n : Nat) → Bytes n}

theorem hkdfSha256_withPreKdf (s ikm info : List UInt8) (n : Nat) :
    (D.withPreKdf kdf).hkdfSha256 s ikm info n =
      if s = salt then kdf ikm info n else D.hkdfSha256 s ikm info n := rfl

theorem derivePreScalar_withPreKdf (seed : Bytes 32) (info : List UInt8) :
    derivePreScalarWithInfo (D.withPreKdf kdf) seed info =
      Scalar.fromBytesModOrderWide (kdf seed.toList info 64) := by
  rw [derivePreScalarWithInfo, hkdfSha256_withPreKdf, if_pos rfl]

/-- Payload keys are derived under another salt. -/
theorem kdfFromPoint_withPreKdf (P : Point) (context : List UInt8) :
    kdfFromPoint (D.withPreKdf kdf) P context = kdfFromPoint D P context := by
  have hsalt : ascii "StellarRecrypt-PRE-v1" ≠ salt := by
    decide
  rw [kdfFromPoint, hkdfSha256_withPreKdf, if_neg hsalt, kdfFromPoint]

theorem openWith_withPreKdf (P : Point) (c : Capsule Point) (payload : List UInt8) :
    openWith (D.withPreKdf kdf) P c payload = openWith D P c payload := by
  rw [openWith, kdfFromPoint_withPreKdf]
  rfl

theorem encrypt_withPreKdf {R : Type} [RngCore R] (rng : R) (pk : PrePublicKey Point)
    (m : List UInt8) : encrypt (D.withPreKdf kdf) rng pk m = encrypt D rng pk m := by
  rw [encrypt_eq, encrypt_eq]
  simp only [kdfFromPoint_withPreKdf]
  rfl

theorem account_withPreKdf {bob : StellarSecretKey D} {bob' : StellarSecretKey (D.withPreKdf kdf)}
    (hseed : bob'.seed = bob.seed) :
    bob'.signingScalar = bob.signingScalar ∧ bob'.account = bob.account := by
  have hsigning : bob'.signingScalar = bob.signingScalar := by
    rw [bob'.signingScalar_eq, bob.signingScalar_eq, hseed]
    rfl
  exact ⟨hsigning, StellarPublicKey.eq_of_ed25519
    (congrArg (fun s : Scalar => compress (s • (basepoint : Point))) hsigning)⟩

/-- What was re-encrypted is decrypted with the signing scalar. -/
theorem decryptReencrypted_withPreKdf {bob : StellarSecretKey D}
    {bob' : StellarSecretKey (D.withPreKdf kdf)} (hseed : bob'.seed = bob.seed)
    (reenc : ReencryptedCiphertext Point) :
    decryptReencrypted bob' reenc = decryptReencrypted bob reenc := by
  rcases account_withPreKdf hseed with ⟨hsigning, haccount⟩
  have hd : recoveredScalar bob' reenc = recoveredScalar bob reenc := by
    rw [recoveredScalar, recoveredScalar, haccount, hsigning]
    rfl
  have hshared : delegateeShared bob' reenc = delegateeShared bob reenc := by
    rw [delegateeShared, delegateeShared, hd]
  have hconsistent : ∀ pk, Consistent bob' reenc pk ↔ Consistent bob reenc pk := by
    intro pk
    rw [Consistent, Consistent, hd]
    exact Iff.rfl
  rw [decryptReencrypted_eq, decryptReencrypted_eq, haccount]
  simp only [hconsistent, hshared, openWith_withPreKdf]

/-- Whatever scalars HKDF derives from seeds, and whatever the info of his secret: a delegatee with
one seed has one account and reads the same from every re-encrypted ciphertext. -/
theorem delegatee_independent_of_info {bob : StellarSecretKey D}
    {bob' : StellarSecretKey (D.withPreKdf kdf)} (hseed : bob'.seed = bob.seed) :
    bob'.account = bob.account ∧
      ∀ reenc, decryptReencrypted bob' reenc = decryptReencrypted bob reenc :=
  ⟨(account_withPreKdf hseed).2, decryptReencrypted_withPreKdf hseed⟩

end WithPreKdf

/-- Bob's seed where every PRE scalar is `1`. -/
def Sample.bobOne :
    StellarSecretKey (Sample.primitives.withPreKdf fun _ _ n => toLeBytes n 1) where
  seed := Sample.bob.seed
  preSk := 1
  signingScalar := ed25519SeedToScalar Sample.primitives Sample.bob.seed
  x25519Private := ed25519SeedToX25519Private Sample.primitives Sample.bob.seed
  preSk_eq := by
    refine ⟨[], ?_⟩
    have hone : leNat (toLeBytes 64 1).toList = 1 := leNat_toLeBytes_of_lt (by norm_num)
    rw [derivePreScalar_withPreKdf, Scalar.fromBytesModOrderWide, hone, Nat.cast_one]
  preSk_ne_zero := one_ne_zero
  signingScalar_eq := rfl
  x25519Private_eq := rfl

theorem delegatee_independent_of_info_one :
    Sample.bobOne.account = Sample.bob.account ∧
      ∀ reenc, decryptReencrypted Sample.bobOne reenc = decryptReencrypted Sample.bob reenc :=
  delegatee_independent_of_info rfl

/-! ## One context and another -/

/-- Two secrets, possibly of different hash functions, that no function of the crate tells apart. -/
structure StellarSecretKey.ActsAs {D D' : Primitives Point} (sk' : StellarSecretKey D')
    (sk : StellarSecretKey D) : Prop where
  toStrkey_eq : sk'.toStrkey = sk.toStrkey
  x25519Private_eq : sk'.x25519Private = sk.x25519Private
  prePublicKey_eq : sk'.prePublicKey = sk.prePublicKey
  stellarPublicKey_eq : sk'.stellarPublicKey = sk.stellarPublicKey
  decrypt_eq : ∀ ct, decrypt sk' ct = decrypt sk ct
  rekeyGen_eq : ∀ {R : Type} [RngCore R] (rng : R) (pk : StellarPublicKey Point),
    rekeyGen rng sk' pk = rekeyGen rng sk pk
  decryptReencrypted_eq : ∀ reenc, decryptReencrypted sk' reenc = decryptReencrypted sk reenc

theorem StellarSecretKey.prePublicKey_eq_of_preSk {D D' : Primitives Point}
    {sk' : StellarSecretKey D'} {sk : StellarSecretKey D} (h : sk'.preSk = sk.preSk) :
    sk'.prePublicKey = sk.prePublicKey :=
  PrePublicKey.eq_of_bytes (congrArg (fun a : Scalar => compress (a • (basepoint : Point))) h)

/-- Two calls that build a secret: they fail alike, or the secrets act alike. -/
def SameSecret {D D' : Primitives Point} (built' : Outcome (StellarSecretKey D'))
    (built : Outcome (StellarSecretKey D)) : Prop :=
  (∃ fault, built' = .error fault ∧ built = .error fault) ∨
    ∃ sk' sk, built' = .ok sk' ∧ built = .ok sk ∧ sk'.ActsAs sk

section SameSecret

variable {kdf : (ikm info : List UInt8) → (n : Nat) → Bytes n}
variable {seed : Bytes 32} {info : List UInt8} {s : List Char}

theorem actsAs_withPreKdf {sk : StellarSecretKey D} {sk' : StellarSecretKey (D.withPreKdf kdf)}
    (hseed : sk'.seed = sk.seed) (hpre : sk'.preSk = sk.preSk) : sk'.ActsAs sk where
  toStrkey_eq := by
    rw [StellarSecretKey.toStrkey, StellarSecretKey.toStrkey, hseed]
  x25519Private_eq := by
    rw [sk'.x25519Private_eq, sk.x25519Private_eq, hseed]
    rfl
  prePublicKey_eq := StellarSecretKey.prePublicKey_eq_of_preSk hpre
  stellarPublicKey_eq := by
    rw [sk'.stellarPublicKey_eq, sk.stellarPublicKey_eq, (account_withPreKdf hseed).2]
  decrypt_eq := by
    intro ct
    have hshared : ownerShared sk' ct.capsule = ownerShared sk ct.capsule := by
      rw [ownerShared, ownerShared, hpre]
    rw [decrypt_eq, decrypt_eq, hshared, openWith_withPreKdf]
    rfl
  rekeyGen_eq := by
    intro R _ rng pk
    have hdelegate : delegate sk' pk = delegate sk pk := by
      funext x
      rw [delegate, delegate, hpre, StellarSecretKey.prePublicKey_eq_of_preSk hpre]
      rfl
    rw [rekeyGen_eq, rekeyGen_eq, hdelegate]
  decryptReencrypted_eq := decryptReencrypted_withPreKdf hseed

/-- Where both derive one PRE scalar, `from_seed` builds the same secret. -/
theorem sameSecret_fromSeed (h : derivePreScalarWithInfo (D.withPreKdf kdf) seed info =
      derivePreScalarWithInfo D seed info) :
    SameSecret (StellarSecretKey.fromSeed (D.withPreKdf kdf) seed info)
      (StellarSecretKey.fromSeed D seed info) := by
  by_cases hzero : derivePreScalarWithInfo D seed info = 0
  · exact Or.inl ⟨_, StellarSecretKey.fromSeed_eq_err (h.trans hzero),
      StellarSecretKey.fromSeed_eq_err hzero⟩
  · rcases StellarSecretKey.exists_fromSeed_iff.2 hzero with ⟨sk, hsk⟩
    rcases StellarSecretKey.exists_fromSeed_iff.2 (h.trans_ne hzero) with ⟨sk', hsk'⟩
    rcases StellarSecretKey.fromSeed_eq_ok_iff.1 hsk with ⟨hseed, hpre⟩
    rcases StellarSecretKey.fromSeed_eq_ok_iff.1 hsk' with ⟨hseed', hpre'⟩
    exact Or.inr ⟨sk', sk, hsk', hsk, actsAs_withPreKdf (hseed'.trans hseed.symm)
      (hpre'.trans (h.trans hpre.symm))⟩

theorem sameSecret_fromStrkey (h : ∀ seed, decodeSeed s = .ok seed →
      derivePreScalarWithInfo (D.withPreKdf kdf) seed info = derivePreScalarWithInfo D seed info) :
    SameSecret (StellarSecretKey.fromStrkey (D.withPreKdf kdf) s info)
      (StellarSecretKey.fromStrkey D s info) := by
  rw [StellarSecretKey.fromStrkey, StellarSecretKey.fromStrkey]
  cases hdecode : decodeSeed s with
  | error fault => exact Or.inl ⟨fault, rfl, rfl⟩
  | ok seed => exact sameSecret_fromSeed (h seed hdecode)

end SameSecret

/-- What is done with a secret next ends the same, if it ends the same on secrets that act alike. -/
theorem SameSecret.bind_eq {D D' : Primitives Point} {A : Type}
    {built' : Outcome (StellarSecretKey D')} {built : Outcome (StellarSecretKey D)}
    (h : SameSecret built' built) {f' : StellarSecretKey D' → Outcome A}
    {f : StellarSecretKey D → Outcome A} (hf : ∀ {sk' sk}, sk'.ActsAs sk → f' sk' = f sk) :
    (built' >>= f') = (built >>= f) := by
  rcases h with ⟨fault, hfault', hfault⟩ | ⟨sk', sk, hsk', hsk, hacts⟩
  · rw [hfault', hfault]
    rfl
  · rw [hsk', hsk, ok_bind, ok_bind, hf hacts]

theorem SameSecret.rekeyGenStrkey_eq {D D' : Primitives Point} {R : Type} [RngCore R]
    {aliceS : List Char} {info : List UInt8}
    (h : SameSecret (StellarSecretKey.fromStrkey D' aliceS info)
      (StellarSecretKey.fromStrkey D aliceS info)) (rng : R) (bobG : List Char) :
    rekeyGenStrkey D' rng aliceS info bobG = rekeyGenStrkey D rng aliceS info bobG := by
  simp only [rekeyGenStrkey]
  rcases h with ⟨fault, hfault', hfault⟩ | ⟨sk', sk, hsk', hsk, hacts⟩
  · rw [hfault', hfault]
    rfl
  · rw [hsk', hsk]
    -- Bob's key is decoded the same way on both sides
    cases (StellarPublicKey.fromStrkey bobG : Outcome (StellarPublicKey Point)) with
    | error fault => rfl
    | ok bob => exact hacts.rekeyGen_eq rng bob

/-- HKDF with another PRE scalar for one seed and info. -/
def Primitives.rederive (D : Primitives Point) (seed : Bytes 32) (info : List UInt8) (t : Scalar) :
    Primitives Point :=
  D.withPreKdf fun ikm i n =>
    if ikm = seed.toList ∧ i = info then toLeBytes n t.val else D.hkdfSha256 salt ikm i n

theorem derivePreScalar_rederive_self (seed : Bytes 32) (info : List UInt8) (t : Scalar) :
    derivePreScalarWithInfo (D.rederive seed info t) seed info = t := by
  rw [Primitives.rederive, derivePreScalar_withPreKdf, if_pos ⟨rfl, rfl⟩]
  exact TapeRng.fromBytesModOrderWide_scalarBytes t

theorem derivePreScalar_rederive_of_ne {seed seed' : Bytes 32} {info info' : List UInt8}
    (h : seed' ≠ seed ∨ info' ≠ info) (t : Scalar) :
    derivePreScalarWithInfo (D.rederive seed info t) seed' info' =
      derivePreScalarWithInfo D seed' info' := by
  have hother : ¬ (seed'.toList = seed.toList ∧ info' = info) := by
    rintro ⟨hseed, hinfo⟩
    rcases h with hne | hne
    · exact hne (Bytes.ext hseed)
    · exact hne hinfo
  rw [Primitives.rederive, derivePreScalar_withPreKdf, if_neg hother, derivePreScalarWithInfo]

/-- The PRE key of one context can be that of any nonzero scalar, on the same account, while every
secret of another seed or info is built or rejected as before and acts as before, and encryption,
re-encryption and the strkey functions of other contexts return what they did. -/
theorem contexts_isolated (D : Primitives Point) (seed : Bytes 32) (info : List UInt8) {t : Scalar}
    (ht : t ≠ 0) :
    (∃ sk, StellarSecretKey.fromSeed (D.rederive seed info t) seed info = .ok sk ∧
        sk.prePublicKey.point = t • basepoint ∧
        sk.account.ed25519 = ed25519PublicFromSeed D seed) ∧
      (∀ seed' info', seed' ≠ seed ∨ info' ≠ info →
        SameSecret (StellarSecretKey.fromSeed (D.rederive seed info t) seed' info')
          (StellarSecretKey.fromSeed D seed' info')) ∧
      (∀ s info', decodeSeed s ≠ .ok seed ∨ info' ≠ info →
        (∀ ct, decryptWithStrkey (D.rederive seed info t) s info' ct =
          decryptWithStrkey D s info' ct) ∧
        ∀ (R : Type) [RngCore R] (rng : R) (bobG : List Char),
          rekeyGenStrkey (D.rederive seed info t) rng s info' bobG =
            rekeyGenStrkey D rng s info' bobG) ∧
      (∀ s, decodeSeed s ≠ .ok seed ∨ info ≠ [] → ∀ reenc,
        decryptReencryptedWithStrkey (D.rederive seed info t) s reenc =
          decryptReencryptedWithStrkey D s reenc) ∧
      (∀ (R : Type) [RngCore R] (rng : R) (pk : PrePublicKey Point) (m : List UInt8),
        encrypt (D.rederive seed info t) rng pk m = encrypt D rng pk m) ∧
      ∀ (k : ReencryptionKey Point) (ct : Ciphertext Point),
        reencrypt (D.rederive seed info t) k ct = reencrypt D k ct := by
  -- a strkey of another seed, or any strkey under another info, is a secret of another context
  have hstrkey : ∀ s info', decodeSeed s ≠ .ok seed ∨ info' ≠ info →
      SameSecret (StellarSecretKey.fromStrkey (D.rederive seed info t) s info')
        (StellarSecretKey.fromStrkey D s info') := by
    intro s info' hother
    refine sameSecret_fromStrkey fun seed' hseed' => derivePreScalar_rederive_of_ne ?_ t
    rcases hother with hne | hne
    · exact Or.inl fun heq => hne (heq ▸ hseed')
    · exact Or.inr hne
  refine ⟨?_, fun seed' info' hother => sameSecret_fromSeed
    (derivePreScalar_rederive_of_ne hother t), fun s info' hother => ⟨fun ct => ?_, fun R _ => ?_⟩,
    fun s hother reenc => ?_, fun R _ => encrypt_withPreKdf, fun k ct => rfl⟩
  · have hderive : derivePreScalarWithInfo (D.rederive seed info t) seed info ≠ 0 :=
      (derivePreScalar_rederive_self seed info t).trans_ne ht
    rcases StellarSecretKey.exists_fromSeed_iff.2 hderive with ⟨sk, hsk⟩
    rcases StellarSecretKey.fromSeed_eq_ok_iff.1 hsk with ⟨hseed, hpre⟩
    refine ⟨sk, hsk, ?_, ?_⟩
    · rw [sk.point_prePublicKey, hpre, derivePreScalar_rederive_self]
    · rw [ed25519PublicFromSeed_eq]
      show compress (sk.signingScalar • (basepoint : Point)) = _
      rw [sk.signingScalar_eq, hseed]
      rfl
  · exact (hstrkey s info' hother).bind_eq fun hacts => hacts.decrypt_eq ct
  · exact (hstrkey s info' hother).rekeyGenStrkey_eq
  · exact (hstrkey s [] (hother.imp_right Ne.symm)).bind_eq fun hacts =>
      hacts.decryptReencrypted_eq reenc

/-- Bob's PRE scalar with the info `x` becomes `1`, and his secret with an empty info stays. -/
theorem contexts_isolated_bob :
    (∃ sk, StellarSecretKey.fromSeed (Sample.primitives.rederive (toLeBytes 32 2) (ascii "x") 1)
        (toLeBytes 32 2) (ascii "x") = .ok sk ∧
      sk.prePublicKey.point = (1 : Scalar) • basepoint ∧
      sk.account.ed25519 = ed25519PublicFromSeed Sample.primitives (toLeBytes 32 2)) ∧
    SameSecret (StellarSecretKey.fromSeed
        (Sample.primitives.rederive (toLeBytes 32 2) (ascii "x") 1) (toLeBytes 32 2) [])
      (StellarSecretKey.fromSeed Sample.primitives (toLeBytes 32 2) []) := by
  rcases contexts_isolated Sample.primitives (toLeBytes 32 2) (ascii "x") one_ne_zero with
    ⟨hself, hothers, _⟩
  exact ⟨hself, hothers _ _ (Or.inr (by decide))⟩

/-! ## Infos with a recipient -/

/-- A field without a pad. -/
def PadFree (arg : List UInt8) : Prop :=
  infoPad ∉ arg

theorem PadFree.unwrapStructured {arg : List UInt8} (h : PadFree arg) :
    unwrapStructured arg = arg := by
  refine unwrapStructured_of_not fun hstructured => h ?_
  rcases isStructured_iff.1 hstructured with ⟨rest, rfl⟩
  exact List.mem_append_right _ List.mem_cons_self

/-- A purpose without a pad ends at the first pad of the joined fields. -/
theorem PadFree.join_inj {a a' : List UInt8} (ha : PadFree a) (ha' : PadFree a')
    {b b' : List UInt8} : join infoPad a b = join infoPad a' b' ↔ a = a' ∧ b = b' := by
  have hshift : ∀ {a a' b b' : List UInt8}, PadFree a' → ¬ Shifted infoPad a b a' b' := by
    rintro a a' b b' hfree ⟨c, rfl, _⟩
    exact hfree (List.mem_append_right _ List.mem_cons_self)
  rw [join_eq_join_iff]
  constructor
  · rintro (h | h | h)
    · exact h
    · exact absurd h (hshift ha')
    · exact absurd h (hshift ha)
  · exact Or.inl

/-- Unwrapping loses nothing of a 32-byte field, since what it removes shows in the length. -/
theorem unwrapStructured_block_inj {k k' : Bytes 32} :
    unwrapStructured k.toList = unwrapStructured k'.toList ↔ k = k' := by
  constructor
  · intro h
    have hlen : ∀ {b : Bytes 32} {rest : List UInt8}, b.toList = infoPrefix ++ infoPad :: rest →
        rest.length < 32 := by
      intro b rest hb
      have hlength := congrArg List.length hb
      rw [b.length_eq, List.length_append, List.length_cons] at hlength
      omega
    by_cases hk : isStructured k.toList = true
    · rcases isStructured_iff.1 hk with ⟨rest, hrest⟩
      by_cases hk' : isStructured k'.toList = true
      · rcases isStructured_iff.1 hk' with ⟨rest', hrest'⟩
        rw [hrest, hrest', unwrapStructured_append, unwrapStructured_append] at h
        exact Bytes.ext (by rw [hrest, hrest', h])
      · rw [hrest, unwrapStructured_append, unwrapStructured_of_not hk'] at h
        exact absurd (h ▸ k'.length_eq) (hlen hrest).ne
    · by_cases hk' : isStructured k'.toList = true
      · rcases isStructured_iff.1 hk' with ⟨rest', hrest'⟩
        rw [hrest', unwrapStructured_append, unwrapStructured_of_not hk] at h
        exact absurd (h ▸ k.length_eq) (hlen hrest').ne
      · rw [unwrapStructured_of_not hk, unwrapStructured_of_not hk'] at h
        exact Bytes.ext h
  · rintro rfl
    rfl

/-- One info for each purpose without a zero byte and each account, also for an account whose bytes
start like an info. -/
theorem recipientInfo_inj {purpose purpose' : List UInt8} (hp : PadFree purpose)
    (hp' : PadFree purpose') (k k' : Bytes 32) :
    structuredInfo purpose k.toList = structuredInfo purpose' k'.toList ↔
      purpose = purpose' ∧ k = k' := by
  rw [structuredInfo_eq_iff, hp.unwrapStructured, hp'.unwrapStructured, hp.join_inj hp',
    unwrapStructured_block_inj]

/-- The purpose `rekey` and two accounts. -/
theorem recipientInfo_inj_rekey :
    structuredInfo (ascii "rekey") (toLeBytes 32 1).toList =
        structuredInfo (ascii "rekey") (toLeBytes 32 2).toList ↔
      ascii "rekey" = ascii "rekey" ∧ toLeBytes 32 1 = toLeBytes 32 2 :=
  recipientInfo_inj (by unfold PadFree; decide) (by unfold PadFree; decide) _ _

end StellarRecrypt
