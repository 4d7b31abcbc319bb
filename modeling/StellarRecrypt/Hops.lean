import StellarRecrypt.Api

/-!
# Hops — delegation with every value encoded on its way

Alice, the sender, the proxy and Bob exchange byte strings.  Between two of them a value is encoded
and decoded again, and a decoded ciphertext is re-encrypted, encoded and decoded once more.
-/

namespace StellarRecrypt

open ByteString
open EdwardsCurve
open Outcome

variable {Point : Type} [EdwardsCurve Point] {D : Primitives Point}

/-! ## One delegation -/

/-- The proxy and Bob: both inputs of the proxy arrive as bytes, and so does its output. -/
def delegated (bob : StellarSecretKey D) (rekeyBytes ctBytes : List UInt8) :
    Outcome (List UInt8) := do
  let rekey ← ReencryptionKey.fromBytes rekeyBytes
  let ct ← Ciphertext.fromBytes D 64 ctBytes
  let reenc ← reencrypt D rekey ct
  let received ← ReencryptedCiphertext.fromBytes D 64 reenc.toBytes
  decryptReencrypted bob received

/-- The payload of a decoded ciphertext fits in its length field. -/
theorem Ciphertext.length_payload_of_fromBytes {bytes : List UInt8} {ct : Ciphertext Point}
    (h : fromBytes D 64 bytes = .ok ct) : ct.payload.length < 2 ^ 32 := by
  rcases (fromBytes_eq_ok_iff (by norm_num)).1 h with ⟨_, n, _, _, hlen⟩
  rw [hlen]
  exact n.leNat_lt

/-- For every ciphertext the decoder accepts and every sound key, the hops change nothing. -/
theorem delegated_eq {bob : StellarSecretKey D} {k : ReencryptionKey Point} (hk : k.Sound)
    {ctBytes : List UInt8} {ct : Ciphertext Point}
    (hct : Ciphertext.fromBytes D 64 ctBytes = .ok ct) :
    delegated bob k.toBytes.toList ctBytes = decryptReencrypted bob (redirect k ct) := by
  have hverify := Ciphertext.verify_of_fromBytes hct
  -- re-encryption keeps the capsule and the payload, so its result survives its encoding
  have hreenc : ReencryptedCiphertext.fromBytes D 64 (redirect k ct).toBytes =
      .ok (redirect k ct) :=
    (ReencryptedCiphertext.fromBytes_toBytes_iff (by norm_num)).2
      ⟨hverify, Ciphertext.length_payload_of_fromBytes hct⟩
  rw [delegated, hk.fromBytes_toBytes, ok_bind, hct, ok_bind, reencrypt_of_verify hverify, ok_bind,
    hreenc, ok_bind]

/-- A ciphertext the decoder refuses stops the delegation with the decoder's error. -/
theorem delegated_of_fromBytes_eq_err {bob : StellarSecretKey D} {k : ReencryptionKey Point}
    (hk : k.Sound) {ctBytes : List UInt8} {e : Error}
    (hct : Ciphertext.fromBytes D 64 ctBytes = err e) :
    delegated bob k.toBytes.toList ctBytes = err e := by
  rw [delegated, hk.fromBytes_toBytes, ok_bind, hct, err_bind]

/-! ## From the sender to Bob -/

section Honest

variable {R S : Type} [RngCore R] [RngCore S]

/-- What Alice sends to the proxy and what the sender sends, both as bytes, reach Bob as the
plaintext when its length fits in the wire format; a longer one is stopped by the proxy, whose
decoder finds another length than the one announced. -/
theorem delegation_over_the_wire (hD : LawfulAead D) {alice bob : StellarSecretKey D}
    {rng rng₁ : R} {rng₂ rng₃ : S} {m : List UInt8} {ct : Ciphertext Point}
    {k : ReencryptionKey Point} (hct : encrypt D rng alice.prePublicKey m = some (.ok ct, rng₁))
    (hk : rekeyGen rng₂ alice bob.account = some (.ok k, rng₃)) :
    delegated bob k.toBytes.toList ct.toBytes =
      if m.length + 40 < 2 ^ 32 then .ok m else err (.encoding "ciphertext length mismatch") := by
  have hsound := sound_of_rekeyGen hk
  rcases encrypt_invariant hD hct with ⟨hverify, hlen⟩
  split
  · rename_i hfits
    have hdecoded : Ciphertext.fromBytes D 64 ct.toBytes = .ok ct :=
      (Ciphertext.fromBytes_toBytes_iff (by norm_num)).2 ⟨hverify, by rwa [hlen]⟩
    rw [delegated_eq hsound hdecoded]
    rcases rekeyGen_eq_some_iff.1 hk with ⟨x, _, hx⟩
    obtain rfl : k = delegate alice bob.account x := Except.ok.inj hx
    rcases encrypt_correct hD hct with ⟨_, htorsion, hopen⟩
    rw [decryptReencrypted_redirect alice bob x ct hverify,
      delegateeShared_redirect alice bob x ct htorsion, hopen]
  · rename_i hlong
    exact delegated_of_fromBytes_eq_err hsound
      (Ciphertext.fromBytes_toBytes_eq_err hverify (by rw [hlen]; exact Nat.le_of_not_lt hlong))

/-- One byte from Alice's sender to Bob. -/
theorem delegation_over_the_wire_one_byte :
    delegated Sample.bob (delegate Sample.alice Sample.bob.account 1).toBytes.toList
        (Sample.ciphertext Sample.alice.prePublicKey [7]).toBytes =
      if [(7 : UInt8)].length + 40 < 2 ^ 32 then .ok [7]
      else err (.encoding "ciphertext length mismatch") :=
  delegation_over_the_wire Sample.lawfulAead
    (Sample.encrypt_rng Sample.alice.prePublicKey (by decide))
    (Sample.rekeyGen_rng Sample.alice Sample.bob.account)

end Honest

end StellarRecrypt
