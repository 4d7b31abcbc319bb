import StellarRecrypt.ConsistencyTheorems
import StellarRecrypt.KeyTheorems
import StellarRecrypt.Sample
import StellarRecrypt.Serialization

/-!
# Api — whatever a caller does with the crate

The fields of `Capsule` and of `ReencryptionKey` are private, so a caller only holds the ones some
function of the crate returned.  `World` is what a caller holds, `Step` is one successful call that
returns such a value; everything else a call takes (byte strings, strkeys, points, keys, payloads,
random sources, the public fields of the two ciphertext types) is the caller's choice.  What every
run keeps is what makes the checks of `decrypt` and `reencrypt` succeed on held values.

A caller may also erase a secret or a held re-encryption key in place, with the `zeroize` both types
derive, and go on using it.  That call returns nothing and is no step: after it the value is not one
that the crate returned, and the statements are not about it.
-/

namespace StellarRecrypt

open ByteString
open EdwardsCurve
open Outcome

variable {Point : Type} [EdwardsCurve Point] {D : Primitives Point} {usizeBits : Nat}

/-! ## Runs -/

/-- The opaque values a caller holds. -/
structure World (Point : Type) where
  capsules : List (Capsule Point)
  rekeys : List (ReencryptionKey Point)

namespace World

def start : World Point := { capsules := [], rekeys := [] }

def addCapsule (w : World Point) (c : Capsule Point) : World Point :=
  { w with capsules := c :: w.capsules }

def addRekey (w : World Point) (k : ReencryptionKey Point) : World Point :=
  { w with rekeys := k :: w.rekeys }

end World

/-- One call that returns an opaque value: `encrypt`, `reencrypt`, `rekey_gen`, its strkey variant
and the four `from_bytes`.  Cloning returns a held value again. -/
inductive Step (D : Primitives Point) (usizeBits : Nat) : World Point → World Point → Prop where
  | encrypt {w : World Point} {R : Type} [RngCore R] {rng rng' : R} {pk : PrePublicKey Point}
      {m : List UInt8} {ct : Ciphertext Point} :
      encrypt D rng pk m = some (.ok ct, rng') → Step D usizeBits w (w.addCapsule ct.capsule)
  | capsuleFromBytes {w : World Point} {bytes : List UInt8} {c : Capsule Point} :
      Capsule.fromBytes D bytes = .ok c → Step D usizeBits w (w.addCapsule c)
  | ciphertextFromBytes {w : World Point} {bytes : List UInt8} {ct : Ciphertext Point} :
      Ciphertext.fromBytes D usizeBits bytes = .ok ct →
        Step D usizeBits w (w.addCapsule ct.capsule)
  | reencrypt {w : World Point} {k : ReencryptionKey Point} {ct : Ciphertext Point}
      {reenc : ReencryptedCiphertext Point} :
      k ∈ w.rekeys → ct.capsule ∈ w.capsules → reencrypt D k ct = .ok reenc →
        Step D usizeBits w (w.addCapsule reenc.originalCapsule)
  | reencryptedFromBytes {w : World Point} {bytes : List UInt8}
      {reenc : ReencryptedCiphertext Point} :
      ReencryptedCiphertext.fromBytes D usizeBits bytes = .ok reenc →
        Step D usizeBits w (w.addCapsule reenc.originalCapsule)
  | rekeyGen {w : World Point} {R : Type} [RngCore R] {rng rng' : R} {sk : StellarSecretKey D}
      {pk : StellarPublicKey Point} {k : ReencryptionKey Point} :
      rekeyGen rng sk pk = some (.ok k, rng') → Step D usizeBits w (w.addRekey k)
  | rekeyGenStrkey {w : World Point} {R : Type} [RngCore R] {rng rng' : R} {aliceS bobG : List Char}
      {info : List UInt8} {k : ReencryptionKey Point} :
      rekeyGenStrkey D rng aliceS info bobG = some (.ok k, rng') →
        Step D usizeBits w (w.addRekey k)
  | rekeyFromBytes {w : World Point} {bytes : List UInt8} {k : ReencryptionKey Point} :
      ReencryptionKey.fromBytes bytes = .ok k → Step D usizeBits w (w.addRekey k)

/-- What a caller holds after some sequence of calls. -/
def Reachable (D : Primitives Point) (usizeBits : Nat) : World Point → Prop :=
  Relation.ReflTransGen (Step D usizeBits) World.start

/-! ## What every run keeps -/

/-- A nonzero scalar and two valid keys. -/
structure ReencryptionKey.Sound (k : ReencryptionKey Point) : Prop where
  rk_ne_zero : k.rk ≠ 0
  alice_valid : Nonempty (ValidPoint Point k.alicePrePk)
  bob_valid : Nonempty (ValidPoint Point k.bobEd25519)

/-- Every held capsule verifies and every held re-encryption key is sound. -/
structure World.Sound (D : Primitives Point) (w : World Point) : Prop where
  verify : ∀ c ∈ w.capsules, c.verify D = true
  rekey : ∀ k ∈ w.rekeys, k.Sound

theorem World.Sound.addCapsule {w : World Point} (hw : w.Sound D) {c : Capsule Point}
    (hc : c.verify D = true) : (w.addCapsule c).Sound D where
  verify := by
    intro c' hc'
    rcases List.mem_cons.1 hc' with rfl | hmem
    · exact hc
    · exact hw.verify c' hmem
  rekey := hw.rekey

theorem World.Sound.addRekey {w : World Point} (hw : w.Sound D) {k : ReencryptionKey Point}
    (hk : k.Sound) : (w.addRekey k).Sound D where
  verify := hw.verify
  rekey := by
    intro k' hk'
    rcases List.mem_cons.1 hk' with rfl | hmem
    · exact hk
    · exact hw.rekey k' hmem

theorem verify_of_encrypt {R : Type} [RngCore R] {rng rng' : R} {pk : PrePublicKey Point}
    {m : List UInt8} {ct : Ciphertext Point} (h : encrypt D rng pk m = some (.ok ct, rng')) :
    ct.capsule.verify D = true := by
  rcases encrypt_spec h with ⟨r, u, _, _, _, hcapsule, _⟩
  rw [hcapsule]
  exact verify_encapsulate r u

/-- The result of a re-encryption carries the capsule it was made from. -/
theorem reencrypt_eq_ok_iff {k : ReencryptionKey Point} {ct : Ciphertext Point}
    {reenc : ReencryptedCiphertext Point} :
    reencrypt D k ct = .ok reenc ↔ ct.capsule.verify D = true ∧ reenc = redirect k ct := by
  rw [reencrypt_eq]
  split
  · rename_i hverify
    simp [hverify]
  · rename_i hverify
    simp [not_not.1 hverify, eq_comm]

/-- The capsule inside an accepted re-encrypted ciphertext verifies, whatever the width of
`usize`. -/
theorem ReencryptedCiphertext.verify_of_fromBytes {bytes : List UInt8}
    {r : ReencryptedCiphertext Point} (h : fromBytes D usizeBits bytes = .ok r) :
    r.originalCapsule.verify D = true := by
  rw [fromBytes] at h
  dsimp only at h
  split at h
  · exact absurd h (err_ne_ok _ _)
  -- three points, then the capsule
  rcases bind_eq_ok_iff.1 h with ⟨_, _, h⟩
  rcases bind_eq_ok_iff.1 h with ⟨_, _, h⟩
  rcases bind_eq_ok_iff.1 h with ⟨_, _, h⟩
  rcases bind_eq_ok_iff.1 h with ⟨_, _, h⟩
  rcases bind_eq_ok_iff.1 h with ⟨_, _, h⟩
  rcases bind_eq_ok_iff.1 h with ⟨_, _, h⟩
  rcases bind_eq_ok_iff.1 h with ⟨_, _, h⟩
  rcases bind_eq_ok_iff.1 h with ⟨capsule, hcapsule, h⟩
  -- two keys and the length field
  rcases bind_eq_ok_iff.1 h with ⟨_, _, h⟩
  rcases bind_eq_ok_iff.1 h with ⟨_, _, h⟩
  rcases bind_eq_ok_iff.1 h with ⟨_, _, h⟩
  rcases bind_eq_ok_iff.1 h with ⟨_, _, h⟩
  rcases bind_eq_ok_iff.1 h with ⟨_, _, h⟩
  rcases bind_eq_ok_iff.1 h with ⟨_, _, h⟩
  rcases bind_eq_ok_iff.1 h with ⟨_, _, h⟩
  split at h
  · exact absurd h (err_ne_ok _ _)
  rcases bind_eq_ok_iff.1 h with ⟨_, _, h⟩
  cases h
  exact Capsule.verify_of_fromBytes hcapsule

theorem sound_of_rekeyGen {R : Type} [RngCore R] {rng rng' : R} {sk : StellarSecretKey D}
    {pk : StellarPublicKey Point} {k : ReencryptionKey Point}
    (h : rekeyGen rng sk pk = some (.ok k, rng')) : k.Sound := by
  rcases rekeyGen_eq_some_iff.1 h with ⟨x, _, hk⟩
  obtain rfl : k = delegate sk pk x := Except.ok.inj hk
  rcases delegate_invariant sk pk x with ⟨hrk, halice, hbob⟩
  exact ⟨hrk, halice, hbob⟩

/-- The strkey variant returns what the typed one does, once both strings decode. -/
theorem exists_rekeyGen_of_rekeyGenStrkey {R : Type} [RngCore R] {rng rng' : R}
    {aliceS bobG : List Char} {info : List UInt8} {k : ReencryptionKey Point}
    (h : rekeyGenStrkey D rng aliceS info bobG = some (.ok k, rng')) :
    ∃ (alice : StellarSecretKey D) (bob : StellarPublicKey Point),
      rekeyGen rng alice bob = some (.ok k, rng') := by
  rw [rekeyGenStrkey] at h
  split at h
  · cases h
  · rename_i alice bob _
    exact ⟨alice, bob, h⟩

theorem sound_of_fromBytes {bytes : List UInt8} {k : ReencryptionKey Point}
    (h : ReencryptionKey.fromBytes bytes = .ok k) : k.Sound := by
  rcases ReencryptionKey.fromBytes_eq_ok_iff.1 h with ⟨_, _, _, _, hrk, _, halice, hbob⟩
  exact ⟨hrk, halice, hbob⟩

theorem sound_step {w w' : World Point} (hw : w.Sound D) (h : Step D usizeBits w w') :
    w'.Sound D := by
  cases h with
  | encrypt hct => exact hw.addCapsule (verify_of_encrypt hct)
  | capsuleFromBytes hc => exact hw.addCapsule (Capsule.verify_of_fromBytes hc)
  | ciphertextFromBytes hct => exact hw.addCapsule (Ciphertext.verify_of_fromBytes hct)
  | reencrypt _ hheld hreenc =>
      rcases reencrypt_eq_ok_iff.1 hreenc with ⟨hverify, rfl⟩
      exact hw.addCapsule hverify
  | reencryptedFromBytes hr => exact hw.addCapsule (ReencryptedCiphertext.verify_of_fromBytes hr)
  | rekeyGen hk => exact hw.addRekey (sound_of_rekeyGen hk)
  | rekeyGenStrkey hk =>
      rcases exists_rekeyGen_of_rekeyGenStrkey hk with ⟨alice, bob, hk⟩
      exact hw.addRekey (sound_of_rekeyGen hk)
  | rekeyFromBytes hk => exact hw.addRekey (sound_of_fromBytes hk)

theorem sound_of_reachable {w : World Point} (h : Reachable D usizeBits w) : w.Sound D := by
  induction h with
  | refl => exact ⟨fun _ hc => (List.not_mem_nil hc).elim, fun _ hk => (List.not_mem_nil hk).elim⟩
  | tail _ hstep ih => exact sound_step ih hstep

/-! ## What a caller can rely on -/

theorem ReencryptionKey.Sound.fromBytes_toBytes {k : ReencryptionKey Point} (hk : k.Sound) :
    fromBytes k.toBytes.toList = .ok k :=
  fromBytes_toBytes_iff.2 ⟨hk.rk_ne_zero, hk.alice_valid, hk.bob_valid⟩

/-- Both accessors of a sound re-encryption key return the key that is bound in it. -/
theorem ReencryptionKey.Sound.exists_keys {k : ReencryptionKey Point} (hk : k.Sound) :
    (∃ a, k.alicePrePublic = .ok a ∧ a.bytes = k.alicePrePk) ∧
      ∃ b, k.bobStellarPublic = .ok b ∧ b.ed25519 = k.bobEd25519 := by
  constructor
  · rcases PrePublicKey.exists_fromBytes_iff.2 hk.alice_valid with ⟨a, ha⟩
    exact ⟨a, ha, PrePublicKey.fromBytes_eq_ok_iff.1 ha⟩
  · rcases StellarPublicKey.exists_fromEd25519Bytes_iff.2 hk.bob_valid with ⟨b, hb⟩
    exact ⟨b, hb, StellarPublicKey.fromEd25519Bytes_eq_ok_iff.1 hb⟩

theorem decrypt_ne_capsuleValidationFailed {sk : StellarSecretKey D} {ct : Ciphertext Point}
    (hct : ct.capsule.verify D = true) : decrypt sk ct ≠ err .capsuleValidationFailed := by
  rw [decrypt_of_verify hct]
  exact openWith_ne_capsuleValidationFailed _ _ _

/-- After any calls, with whatever inputs: a held re-encryption key and a ciphertext around a held
capsule always re-encrypt, both accessors of the key succeed, key and capsule survive their
encoding, and no secret reports the capsule as invalid. -/
theorem held_values_never_rejected {w : World Point} (hw : Reachable D usizeBits w)
    {k : ReencryptionKey Point} (hk : k ∈ w.rekeys) {ct : Ciphertext Point}
    (hct : ct.capsule ∈ w.capsules) :
    reencrypt D k ct = .ok (redirect k ct) ∧
      (∃ a, k.alicePrePublic = .ok a ∧ a.bytes = k.alicePrePk) ∧
      (∃ b, k.bobStellarPublic = .ok b ∧ b.ed25519 = k.bobEd25519) ∧
      ReencryptionKey.fromBytes k.toBytes.toList = .ok k ∧
      Capsule.fromBytes D ct.capsule.toBytes.toList = .ok ct.capsule ∧
      ∀ sk : StellarSecretKey D, decrypt sk ct ≠ err .capsuleValidationFailed := by
  have hsound := sound_of_reachable hw
  have hverify := hsound.verify _ hct
  have hkey := hsound.rekey k hk
  rcases hkey.exists_keys with ⟨halice, hbob⟩
  exact ⟨reencrypt_of_verify hverify, halice, hbob, hkey.fromBytes_toBytes,
    Capsule.fromBytes_toBytes_iff.2 hverify, fun _ => decrypt_ne_capsuleValidationFailed hverify⟩

/-- The invariant is exact: a run can hold any capsule that verifies and any sound re-encryption
key, and no other. -/
theorem reachable_values_iff (D : Primitives Point) (usizeBits : Nat) :
    (∀ c : Capsule Point,
        (∃ w, Reachable D usizeBits w ∧ c ∈ w.capsules) ↔ c.verify D = true) ∧
      ∀ k : ReencryptionKey Point,
        (∃ w, Reachable D usizeBits w ∧ k ∈ w.rekeys) ↔ k.Sound := by
  constructor
  · intro c
    constructor
    · rintro ⟨w, hw, hc⟩
      exact (sound_of_reachable hw).verify c hc
    · intro hc
      -- one call of `from_bytes` on its own encoding
      have hstep : Step D usizeBits World.start (World.start.addCapsule c) :=
        .capsuleFromBytes (Capsule.fromBytes_toBytes_iff.2 hc)
      exact ⟨_, .single hstep, List.mem_cons_self⟩
  · intro k
    constructor
    · rintro ⟨w, hw, hk⟩
      exact (sound_of_reachable hw).rekey k hk
    · intro hk
      have hstep : Step D usizeBits World.start (World.start.addRekey k) :=
        .rekeyFromBytes hk.fromBytes_toBytes
      exact ⟨_, .single hstep, List.mem_cons_self⟩

namespace Sample

/-- A run of two calls: a ciphertext for Alice, then her delegation to Bob. -/
theorem reachable_two_calls : Reachable primitives 64
    ((World.start.addCapsule (ciphertext alice.prePublicKey [7]).capsule).addRekey
      (delegate alice bob.account 1)) := by
  have hct : Step primitives 64 World.start
      (World.start.addCapsule (ciphertext alice.prePublicKey [7]).capsule) :=
    .encrypt (encrypt_rng alice.prePublicKey (by decide))
  exact (Relation.ReflTransGen.single hct).tail (.rekeyGen (rekeyGen_rng alice bob.account))

end Sample

/-- Alice's ciphertext and her delegation. -/
theorem held_values_never_rejected_two_calls :
    reencrypt Sample.primitives (delegate Sample.alice Sample.bob.account 1)
        (Sample.ciphertext Sample.alice.prePublicKey [7]) = .ok Sample.redirected ∧
      (∃ a, (delegate Sample.alice Sample.bob.account 1).alicePrePublic = .ok a ∧
        a.bytes = (delegate Sample.alice Sample.bob.account 1).alicePrePk) ∧
      (∃ b, (delegate Sample.alice Sample.bob.account 1).bobStellarPublic = .ok b ∧
        b.ed25519 = (delegate Sample.alice Sample.bob.account 1).bobEd25519) ∧
      ReencryptionKey.fromBytes (delegate Sample.alice Sample.bob.account 1).toBytes.toList =
        .ok (delegate Sample.alice Sample.bob.account 1) ∧
      Capsule.fromBytes Sample.primitives
          (Sample.ciphertext Sample.alice.prePublicKey [7]).capsule.toBytes.toList =
        .ok (Sample.ciphertext Sample.alice.prePublicKey [7]).capsule ∧
      ∀ sk : StellarSecretKey Sample.primitives,
        decrypt sk (Sample.ciphertext Sample.alice.prePublicKey [7]) ≠
          err .capsuleValidationFailed :=
  held_values_never_rejected Sample.reachable_two_calls List.mem_cons_self List.mem_cons_self

end StellarRecrypt
