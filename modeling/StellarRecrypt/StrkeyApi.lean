import StellarRecrypt.Sample
import StellarRecrypt.StrkeyTheorems

/-!
# StrkeyApi — the variants that take keys as text

The strkey functions decode their keys and call the typed functions.  A secret read back from its
strkey with the info it was built with is the same secret; Bob's is read back with an empty info,
which changes his PRE scalar only, and that scalar has no part in decrypting what was re-encrypted.
-/

namespace StellarRecrypt

open ByteString
open EdwardsCurve
open Outcome

variable {Point : Type} [EdwardsCurve Point] {D : Primitives Point}
variable {R : Type} [RngCore R]

/-! ## Reading keys back -/

/-- A secret's strkey and its info determine the secret. -/
theorem StellarSecretKey.fromStrkey_toStrkey {sk : StellarSecretKey D} {seed : Bytes 32}
    {info info' : List UInt8} (h : fromSeed D seed info = .ok sk) :
    fromStrkey D sk.toStrkey info' = fromSeed D seed info' := by
  rw [fromStrkey, toStrkey, decodeSeed_encodeSeed, ok_bind, (fromSeed_eq_ok_iff.1 h).1]

theorem StellarPublicKey.fromStrkey_toStrkey (k : StellarPublicKey Point) :
    fromStrkey k.toStrkey = .ok k := by
  rw [fromStrkey, toStrkey, decodePublic_encodePublic, ok_bind, fromEd25519Bytes_eq_ok_iff]

/-! ## What Bob's side reads -/

/-- Secrets of one seed have one signing scalar and one account. -/
theorem StellarSecretKey.account_eq_of_seed_eq {bob bob' : StellarSecretKey D}
    (h : bob.seed = bob'.seed) :
    bob.signingScalar = bob'.signingScalar ∧ bob.account = bob'.account := by
  have hscalar : bob.signingScalar = bob'.signingScalar := by
    rw [bob.signingScalar_eq, bob'.signingScalar_eq, h]
  refine ⟨hscalar, StellarPublicKey.eq_of_ed25519 ?_⟩
  show compress (bob.signingScalar • (basepoint : Point)) =
    compress (bob'.signingScalar • (basepoint : Point))
  rw [hscalar]

/-- Decrypting what was re-encrypted reads nothing of the PRE scalar. -/
theorem decryptReencrypted_eq_of_seed_eq {bob bob' : StellarSecretKey D}
    (h : bob.seed = bob'.seed) (reenc : ReencryptedCiphertext Point) :
    decryptReencrypted bob reenc = decryptReencrypted bob' reenc := by
  rcases StellarSecretKey.account_eq_of_seed_eq h with ⟨hscalar, haccount⟩
  rw [decryptReencrypted, decryptReencrypted, bob.stellarPublicKey_eq, bob'.stellarPublicKey_eq,
    haccount, hscalar]

/-! ## Refinement -/

/-- The strkey functions return what the typed functions return on the keys the strkeys were written
from, and the info of Bob's secret has no influence on what he decrypts. -/
theorem strkey_api_refines {aliceSeed bobSeed : Bytes 32} {info bobInfo : List UInt8}
    {alice bob : StellarSecretKey D}
    (halice : StellarSecretKey.fromSeed D aliceSeed info = .ok alice)
    (hbob : StellarSecretKey.fromSeed D bobSeed bobInfo = .ok bob)
    (hempty : ∃ bob₀, StellarSecretKey.fromSeed D bobSeed [] = .ok bob₀) :
    (∀ ct, decryptWithStrkey D alice.toStrkey info ct = decrypt alice ct) ∧
      (∃ bobPk, bob.stellarPublicKey = .ok bobPk ∧ ∀ rng : R,
        rekeyGenStrkey D rng alice.toStrkey info bobPk.toStrkey = rekeyGen rng alice bobPk) ∧
      (∀ reenc, decryptReencryptedWithStrkey D bob.toStrkey reenc = decryptReencrypted bob reenc) ∧
      ∀ bobInfo' bob', StellarSecretKey.fromSeed D bobSeed bobInfo' = .ok bob' →
        ∀ reenc, decryptReencrypted bob' reenc = decryptReencrypted bob reenc := by
  have hreadAlice : StellarSecretKey.fromStrkey D alice.toStrkey info = .ok alice :=
    (StellarSecretKey.fromStrkey_toStrkey halice).trans halice
  have hseed := (StellarSecretKey.fromSeed_eq_ok_iff.1 hbob).1
  refine ⟨fun ct => ?_, ⟨bob.account, bob.stellarPublicKey_eq, fun rng => ?_⟩, fun reenc => ?_, ?_⟩
  · rw [decryptWithStrkey, hreadAlice, ok_bind]
  · simp only [rekeyGenStrkey, hreadAlice, StellarPublicKey.fromStrkey_toStrkey, ok_bind]
    rfl
  · -- the secret read back has Bob's seed and another PRE scalar
    rcases hempty with ⟨bob₀, hbob₀⟩
    have hseed₀ := (StellarSecretKey.fromSeed_eq_ok_iff.1 hbob₀).1
    rw [decryptReencryptedWithStrkey, StellarSecretKey.fromStrkey_toStrkey hbob, hbob₀, ok_bind]
    exact decryptReencrypted_eq_of_seed_eq (hseed₀.trans hseed.symm) reenc
  · intro bobInfo' bob' hbob' reenc
    have hseed' := (StellarSecretKey.fromSeed_eq_ok_iff.1 hbob').1
    exact decryptReencrypted_eq_of_seed_eq (hseed'.trans hseed.symm) reenc

namespace Sample

theorem preScalar_bobPeer :
    (5941786256565071022751882838294518977949690076318351666219139966620032703986 : Scalar) =
      derivePreScalarWithInfo primitives (toLeBytes 32 2) (ascii "x") := by
  decide +kernel

/-- Bob's seed with the info `x`. -/
def bobPeer : StellarSecretKey primitives :=
  { bob with
    preSk := 5941786256565071022751882838294518977949690076318351666219139966620032703986
    preSk_eq := ⟨_, preScalar_bobPeer⟩
    preSk_ne_zero := by decide +kernel }

theorem fromSeed_bobPeer :
    StellarSecretKey.fromSeed primitives (toLeBytes 32 2) (ascii "x") = .ok bobPeer :=
  StellarSecretKey.fromSeed_eq_ok_iff.2 ⟨rfl, preScalar_bobPeer⟩

end Sample

/-- The ciphertext of one byte, Alice with an empty info and Bob with the info `x`: his strkey, his
secret and his secret with an empty info read the same. -/
theorem strkey_api_refines_peer :
    decryptWithStrkey Sample.primitives Sample.alice.toStrkey []
        (Sample.ciphertext Sample.alice.prePublicKey [7]) =
      decrypt Sample.alice (Sample.ciphertext Sample.alice.prePublicKey [7]) ∧
    decryptReencryptedWithStrkey Sample.primitives Sample.bobPeer.toStrkey Sample.redirected =
      decryptReencrypted Sample.bobPeer Sample.redirected ∧
    decryptReencrypted Sample.bob Sample.redirected =
      decryptReencrypted Sample.bobPeer Sample.redirected := by
  rcases strkey_api_refines (R := Sample.ConstantRng) Sample.fromSeed_alice
    Sample.fromSeed_bobPeer ⟨Sample.bob, Sample.fromSeed_bob⟩ with ⟨hdecrypt, _, hread, hinfo⟩
  exact ⟨hdecrypt _, hread _, hinfo [] Sample.bob Sample.fromSeed_bob _⟩

end StellarRecrypt
