import StellarRecrypt.Isolation

/-!
# Collusion — what a re-encryption key is worth

`rk` is `pre_sk` divided by a hash that only Alice and the delegatee can compute.  To a proxy alone
it can be any nonzero scalar: another digest for that one string turns it into any other, and
nothing else changes.  Together with the delegatee it is `pre_sk` itself, and so every ciphertext
and every delegation of that context.
-/

namespace StellarRecrypt

open ByteString
open EdwardsCurve
open Outcome
open RngCore

variable {Point : Type} [EdwardsCurve Point] {D : Primitives Point}
variable {R : Type} [RngCore R]

/-! ## The proxy alone -/

section Simulation

variable {msg : List UInt8} {digest : Bytes 64}

/-- A change of the hash outside the seeds leaves the accounts alone. -/
theorem account_withHash (h : msg.length ≠ 32) (sk : StellarSecretKey D) :
    (sk.withHash (D.rehash msg digest)).account = sk.account := by
  have hseed : D.rehash msg digest sk.seed.toList = D.sha512 sk.seed.toList :=
    rehash_of_length_ne (by rw [sk.seed.length_eq]; exact h.symm)
  have hsigning : (sk.withHash (D.rehash msg digest)).signingScalar = sk.signingScalar := by
    rw [sk.signingScalar_eq]
    show ed25519SeedToScalar _ _ = _
    rw [ed25519SeedToScalar_eq, ed25519SeedToScalar_eq]
    dsimp only [Primitives.withHash]
    rw [hseed]
  exact StellarPublicKey.eq_of_ed25519
    (congrArg (fun s : Scalar => compress (s • (basepoint : Point))) hsigning)

/-- The delegation under the reprogrammed hash. -/
theorem delegate_rehash (alice : StellarSecretKey D) (pk : StellarPublicKey Point) (x : Scalar) :
    delegate (alice.withHash
        (D.rehash (rekeyTranscript (x • basepoint) pk.point (x • pk.point)) digest)) pk x =
      { delegate alice pk x with
        rk := alice.preSk * Scalar.invert (orOne (Scalar.fromBytesModOrderWide digest)) } := by
  have hd : hashToD (D.withHash
      (D.rehash (rekeyTranscript (x • basepoint) pk.point (x • pk.point)) digest))
      (x • basepoint) pk.point (x • pk.point) =
      orOne (Scalar.fromBytesModOrderWide digest) := by
    rw [hashToD_eq]
    dsimp only [Primitives.withHash]
    rw [rehash_self]
  rw [delegate, delegate, hd]
  rfl

/-- The scalar of a re-encryption key can be any other nonzero scalar `t`: some digest for the
string that holds the Diffie–Hellman point of the delegation makes `rekey_gen` return the same key
with `t` in it, and every key, encryption, decryption and re-encryption stays what it is. -/
theorem rekey_simulatable {rng rng' : R} {alice : StellarSecretKey D} {pk : StellarPublicKey Point}
    {k : ReencryptionKey Point} (hk : rekeyGen rng alice pk = some (.ok k, rng')) {t : Scalar}
    (ht : t ≠ 0) :
    ∃ (x : Scalar) (digest : Bytes 64) (D' : Primitives Point) (alice' : StellarSecretKey D'),
      k.precursor = x • basepoint ∧
      D' = D.withHash (D.rehash (rekeyTranscript (x • basepoint) pk.point (x • pk.point)) digest) ∧
      rekeyGen rng alice' pk = some (.ok { k with rk := t }, rng') ∧
      alice'.prePublicKey = alice.prePublicKey ∧ alice'.account = alice.account ∧
      (∀ ct, decrypt alice' ct = decrypt alice ct) ∧
      (∀ (S : Type) [RngCore S] (rng : S) (pk : PrePublicKey Point) (m : List UInt8),
        encrypt D' rng pk m = encrypt D rng pk m) ∧
      ∀ (k : ReencryptionKey Point) (ct : Ciphertext Point),
        reencrypt D' k ct = reencrypt D k ct := by
  rcases rekeyGen_eq_some_iff.1 hk with ⟨x, hx, hdelegate⟩
  obtain rfl : k = delegate alice pk x := Except.ok.inj hdelegate
  have hd : alice.preSk * Scalar.invert t ≠ 0 :=
    mul_ne_zero alice.preSk_ne_zero (inv_ne_zero ht)
  -- the digest that reduces to `pre_sk / t`
  have hdigest : orOne (Scalar.fromBytesModOrderWide
      (TapeRng.scalarBytes (alice.preSk * Scalar.invert t))) = alice.preSk * Scalar.invert t := by
    rw [TapeRng.fromBytesModOrderWide_scalarBytes, orOne, if_neg hd]
  have hlen : (rekeyTranscript (x • basepoint) pk.point (x • pk.point)).length = 118 :=
    length_rekeyTranscript _ _ _
  have hcapsules := sameOnCapsules_rehash (D := D) (by rw [hlen]; norm_num)
    (TapeRng.scalarBytes (alice.preSk * Scalar.invert t))
  refine ⟨x, TapeRng.scalarBytes (alice.preSk * Scalar.invert t), _, alice.withHash _, rfl, rfl,
    ?_, rfl, account_withHash (by rw [hlen]; norm_num) alice, decrypt_withHash hcapsules alice,
    fun S _ => encrypt_withHash hcapsules, reencrypt_withHash hcapsules⟩
  refine rekeyGen_eq_some_iff.2 ⟨x, hx, ?_⟩
  have hpre : alice.preSk ≠ 0 := alice.preSk_ne_zero
  have hquotient : alice.preSk * Scalar.invert (alice.preSk * Scalar.invert t) = t := by
    unfold Scalar.invert
    field_simp
  rw [delegate_rehash, hdigest, hquotient]

end Simulation

/-- Alice's delegation to Bob, with the scalar `2` instead of her own. -/
theorem rekey_simulatable_two :
    ∃ (x : Scalar) (digest : Bytes 64) (D' : Primitives Ed25519.Point)
      (alice' : StellarSecretKey D'),
      (delegate Sample.alice Sample.bob.account 1).precursor = x • basepoint ∧
      D' = Sample.primitives.withHash (Sample.primitives.rehash
        (rekeyTranscript (x • basepoint) Sample.bob.account.point (x • Sample.bob.account.point))
        digest) ∧
      rekeyGen Sample.rng alice' Sample.bob.account =
        some (.ok { delegate Sample.alice Sample.bob.account 1 with rk := 2 }, Sample.rng) ∧
      alice'.prePublicKey = Sample.alice.prePublicKey ∧ alice'.account = Sample.alice.account ∧
      (∀ ct, decrypt alice' ct = decrypt Sample.alice ct) ∧
      (∀ (S : Type) [RngCore S] (rng : S) (pk : PrePublicKey Ed25519.Point) (m : List UInt8),
        encrypt D' rng pk m = encrypt Sample.primitives rng pk m) ∧
      ∀ (k : ReencryptionKey Ed25519.Point) (ct : Ciphertext Ed25519.Point),
        reencrypt D' k ct = reencrypt Sample.primitives k ct :=
  rekey_simulatable (Sample.rekeyGen_rng Sample.alice Sample.bob.account)
    (by decide +kernel : (2 : Scalar) ≠ 0)

/-! ## The proxy and the delegatee -/

/-- What the two compute: the delegatee's scalar `d` times the proxy's `rk`. -/
def colluded (bob : StellarSecretKey D) (k : ReencryptionKey Point) : Scalar :=
  hashToD D k.precursor bob.account.point (bob.signingScalar • k.precursor) * k.rk

theorem colluded_delegate (alice bob : StellarSecretKey D) (x : Scalar) :
    colluded bob (delegate alice bob.account x) = alice.preSk := by
  have hd : hashToD D (x • basepoint) bob.account.point (bob.signingScalar • x • basepoint) =
      delegationScalar bob x := by
    have hdh : bob.signingScalar • x • (basepoint : Point) = x • bob.account.point := by
      rw [StellarSecretKey.point_account, smul_smul_basepoint, smul_smul_basepoint, mul_comm]
    rw [delegationScalar, hdh]
  have hne := delegationScalar_ne_zero bob x
  rw [colluded, rk_delegate]
  dsimp only [delegate]
  rw [hd, Scalar.invert]
  field_simp

/-- A delegatee and the holder of a re-encryption key that `rekey_gen` returned for him recover
Alice's PRE scalar.  With it they read every ciphertext she can read, sent before or after and
never re-encrypted, and delegate in her place to anyone. -/
theorem collusion_recovers_preSk {rng rng' : R} {alice bob : StellarSecretKey D}
    {k : ReencryptionKey Point} (hk : rekeyGen rng alice bob.account = some (.ok k, rng')) :
    colluded bob k = alice.preSk ∧
      (∀ ct m, decrypt alice ct = .ok m ↔ ct.capsule.verify D = true ∧
        openWith D (colluded bob k • (ct.capsule.pointE + ct.capsule.pointV)) ct.capsule
          ct.payload = .ok m) ∧
      ∀ (pk : StellarPublicKey Point) (y : Scalar),
        delegate alice pk y =
          { rk := colluded bob k *
              Scalar.invert (hashToD D (y • (basepoint : Point)) pk.point (y • pk.point))
            precursor := y • basepoint
            bobEd25519 := pk.ed25519
            alicePrePk := k.alicePrePk } := by
  rcases rekeyGen_eq_some_iff.1 hk with ⟨x, _, hdelegate⟩
  obtain rfl : k = delegate alice bob.account x := Except.ok.inj hdelegate
  have hrecovered := colluded_delegate alice bob x
  refine ⟨hrecovered, fun ct m => ?_, fun pk y => ?_⟩
  · rw [hrecovered, decrypt_eq]
    by_cases hverify : ct.capsule.verify D = true
    · rw [if_neg (not_not.2 hverify)]
      exact (and_iff_right hverify).symm
    · rw [if_pos hverify]
      exact iff_of_false (err_ne_ok _ _) fun h => hverify h.1
  · rw [hrecovered]
    rfl

/-- Bob and the holder of Alice's delegation to him. -/
theorem collusion_recovers_preSk_alice :
    colluded Sample.bob (delegate Sample.alice Sample.bob.account 1) = Sample.alice.preSk ∧
      (∀ ct m, decrypt Sample.alice ct = .ok m ↔ ct.capsule.verify Sample.primitives = true ∧
        openWith Sample.primitives
          (colluded Sample.bob (delegate Sample.alice Sample.bob.account 1) •
            (ct.capsule.pointE + ct.capsule.pointV)) ct.capsule ct.payload = .ok m) ∧
      ∀ (pk : StellarPublicKey Ed25519.Point) (y : Scalar),
        delegate Sample.alice pk y =
          { rk := colluded Sample.bob (delegate Sample.alice Sample.bob.account 1) *
              Scalar.invert (hashToD Sample.primitives (y • (basepoint : Ed25519.Point)) pk.point
                (y • pk.point))
            precursor := y • basepoint
            bobEd25519 := pk.ed25519
            alicePrePk := (delegate Sample.alice Sample.bob.account 1).alicePrePk } :=
  collusion_recovers_preSk (Sample.rekeyGen_rng Sample.alice Sample.bob.account)

end StellarRecrypt
