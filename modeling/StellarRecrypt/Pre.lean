import StellarRecrypt.Dem
import StellarRecrypt.Wire

/-!
# Pre — encrypt, delegate, re-encrypt, decrypt

The API of `pre.rs`.  A function that draws random bytes takes the state of the source and returns
the next one; it has no result when its drawing loop does not end, which is the case only when the
source gives nothing but zero scalars.
-/

namespace StellarRecrypt

open ByteString
open EdwardsCurve
open Outcome
open RngCore

/-! ## Random scalars -/

/-- `loop { fill_bytes; from_bytes_mod_order_wide; if s != 0 return s }`. -/
def RngCore.randomNonzeroScalar {R : Type} [source : RngCore R] (rng : R) : Option (Scalar × R) :=
  let drawn := RngCore.fillBytes 64 rng
  let s := Scalar.fromBytesModOrderWide drawn.1
  -- a zero scalar is thrown away and the loop goes round again
  if s ≠ 0 then some (s, drawn.2) else source |>.randomNonzeroScalar drawn.2
partial_fixpoint

variable {Point : Type} [EdwardsCurve Point] {D : Primitives Point}
variable {R : Type} [RngCore R]

/-! ## The owner -/

/-- The context of every key derived from a shared point. -/
def encryptContext : List UInt8 := ascii "encrypt"

variable (D) in
def encrypt (rng : R) (recipientPrePk : PrePublicKey Point) (plaintext : List UInt8) :
    Option (Outcome (Ciphertext Point) × R) := do
  let (r, rng) ← randomNonzeroScalar rng
  let (u, rng) ← randomNonzeroScalar rng
  let pointE := r • (basepoint : Point)
  let pointV := u • (basepoint : Point)
  let h := hashCapsulePoints D pointE pointV
  let signature := u + r * h
  let shared := (r + u) • recipientPrePk.point
  let capsule : Capsule Point := { pointE := pointE, pointV := pointV, signature := signature }
  let aad := capsule.toBytes
  let key := kdfFromPoint D shared encryptContext
  let (payload, rng) := Dem.seal D rng key plaintext aad.toList
  return (payload.map fun payload => { capsule := capsule, payload := payload }, rng)

def decrypt (aliceSk : StellarSecretKey D) (ct : Ciphertext Point) : Outcome (List UInt8) :=
  if ¬ ct.capsule.verify D then err .capsuleValidationFailed
  else
    let shared := aliceSk.preSk • (ct.capsule.pointE + ct.capsule.pointV)
    let aad := ct.capsule.toBytes
    let key := kdfFromPoint D shared encryptContext
    Dem.open D key ct.payload aad.toList

/-! ## Delegation -/

def rekeyGen (rng : R) (aliceSk : StellarSecretKey D) (bobPk : StellarPublicKey Point) :
    Option (Outcome (ReencryptionKey Point) × R) := do
  let alicePrePk := aliceSk.prePublicKey
  let (x, rng) ← randomNonzeroScalar rng
  let precursor := x • (basepoint : Point)
  let dh := x • bobPk.point
  let d := hashToD D precursor bobPk.point dh
  let dInv := Scalar.invert d
  let rk := aliceSk.preSk * dInv
  return (.ok { rk := rk, precursor := precursor, bobEd25519 := bobPk.ed25519,
                alicePrePk := alicePrePk.toBytes }, rng)

variable (D) in
def reencrypt (rekey : ReencryptionKey Point) (ct : Ciphertext Point) :
    Outcome (ReencryptedCiphertext Point) :=
  if ¬ ct.capsule.verify D then err .capsuleValidationFailed
  else
    let ePrime := rekey.rk • ct.capsule.pointE
    let vPrime := rekey.rk • ct.capsule.pointV
    .ok { pointEPrime := ePrime, pointVPrime := vPrime, precursor := rekey.precursor,
          originalCapsule := ct.capsule, payload := ct.payload, alicePrePk := rekey.alicePrePk,
          bobEd25519 := rekey.bobEd25519 }

/-! ## The delegatee -/

def decryptReencrypted (bobSk : StellarSecretKey D) (reenc : ReencryptedCiphertext Point) :
    Outcome (List UInt8) := do
  let bobPk ← bobSk.stellarPublicKey
  if bobPk.ed25519 ≠ reenc.bobEd25519 then err .decryptionFailed
  else
    let dh := bobSk.signingScalar • reenc.precursor
    let d := hashToD D reenc.precursor bobPk.point dh
    let shared := d • (reenc.pointEPrime + reenc.pointVPrime)
    -- Alice's key is parsed after `d` and the shared point, before the check
    let alicePrePk : PrePublicKey Point ← PrePublicKey.fromBytes reenc.alicePrePk
    let h := hashCapsulePoints D reenc.originalCapsule.pointE reenc.originalCapsule.pointV
    let dInv := Scalar.invert d
    let lhs := (reenc.originalCapsule.signature * dInv) • alicePrePk.point
    let rhs := h • reenc.pointEPrime + reenc.pointVPrime
    if lhs ≠ rhs then err .capsuleValidationFailed
    else
      let aad := reenc.originalCapsule.toBytes
      let key := kdfFromPoint D shared encryptContext
      Dem.open D key reenc.payload aad.toList

/-! ## Strkey variants -/

variable (D) in
def decryptWithStrkey (aliceS : List Char) (info : List UInt8) (ct : Ciphertext Point) :
    Outcome (List UInt8) := do
  let sk ← StellarSecretKey.fromStrkey D aliceS info
  decrypt sk ct

variable (D) in
def rekeyGenStrkey (rng : R) (aliceS : List Char) (info : List UInt8) (bobG : List Char) :
    Option (Outcome (ReencryptionKey Point) × R) :=
  -- both keys are decoded before anything is drawn
  let keys : Outcome (StellarSecretKey D × StellarPublicKey Point) := do
    let alice ← StellarSecretKey.fromStrkey D aliceS info
    let bob ← StellarPublicKey.fromStrkey bobG
    return (alice, bob)
  match keys with
  | .error fault => some (.error fault, rng)
  | .ok (alice, bob) => rekeyGen rng alice bob

variable (D) in
def decryptReencryptedWithStrkey (bobS : List Char) (reenc : ReencryptedCiphertext Point) :
    Outcome (List UInt8) := do
  -- Bob's PRE scalar is not used, so the info is empty
  let bob ← StellarSecretKey.fromStrkey D bobS []
  decryptReencrypted bob reenc

/-! ## The drawing loop -/

/-- The source after `n` draws of 64 bytes. -/
def afterDraws (n : Nat) (rng : R) : R :=
  (fun rng => (RngCore.fillBytes 64 rng).2)^[n] rng

/-- The scalar of draw number `n`. -/
def drawnScalar (n : Nat) (rng : R) : Scalar :=
  Scalar.fromBytesModOrderWide (RngCore.fillBytes 64 (afterDraws n rng)).1

/-- The loop returns a nonzero scalar of the stream. -/
theorem randomNonzeroScalar_spec {rng rng' : R} {s : Scalar}
    (h : randomNonzeroScalar rng = some (s, rng')) :
    s ≠ 0 ∧ ∃ n, s = drawnScalar n rng := by
  -- what one round returns, assuming it of the rounds after it
  refine randomNonzeroScalar.partial_correctness
    (fun rng result => result.1 ≠ 0 ∧ ∃ n, result.1 = drawnScalar n rng) ?_ rng (s, rng') h
  intro loop ih rng result hresult
  dsimp only at hresult
  split at hresult
  · rename_i hne
    cases hresult
    exact ⟨hne, 0, rfl⟩
  · rcases ih _ _ hresult with ⟨hne, n, hn⟩
    exact ⟨hne, n + 1, hn⟩

/-- The loop runs forever exactly on a stream of zero scalars. -/
theorem randomNonzeroScalar_eq_none_iff {rng : R} :
    randomNonzeroScalar rng = none ↔ ∀ n, drawnScalar n rng = 0 := by
  constructor
  · intro h n
    -- a draw further on is the first draw of the source after one round
    induction n generalizing rng with
    | zero =>
        rw [randomNonzeroScalar] at h
        split at h
        · cases h
        · rename_i hzero
          exact not_not.1 hzero
    | succ n ih =>
        rw [randomNonzeroScalar] at h
        split at h
        · cases h
        · exact ih h
  · intro h
    cases hrun : randomNonzeroScalar rng with
    | none => rfl
    | some result =>
        rcases result with ⟨s, rng'⟩
        rcases randomNonzeroScalar_spec hrun with ⟨hne, n, hn⟩
        exact absurd (hn.trans (h n)) hne

/-! ## What each operation returns -/

variable (D) in
/-- The capsule of the two drawn scalars. -/
def encapsulate (r u : Scalar) : Capsule Point :=
  { pointE := r • basepoint
    pointV := u • basepoint
    signature := u + r * hashCapsulePoints D (r • (basepoint : Point)) (u • (basepoint : Point)) }

/-- The re-encryption key of the drawn scalar. -/
def delegate (aliceSk : StellarSecretKey D) (bobPk : StellarPublicKey Point) (x : Scalar) :
    ReencryptionKey Point :=
  { rk := aliceSk.preSk *
      Scalar.invert (hashToD D (x • (basepoint : Point)) bobPk.point (x • bobPk.point))
    precursor := x • basepoint
    bobEd25519 := bobPk.ed25519
    alicePrePk := aliceSk.prePublicKey.bytes }

/-- The re-encryption of an accepted ciphertext. -/
def redirect (rekey : ReencryptionKey Point) (ct : Ciphertext Point) :
    ReencryptedCiphertext Point :=
  { pointEPrime := rekey.rk • ct.capsule.pointE
    pointVPrime := rekey.rk • ct.capsule.pointV
    precursor := rekey.precursor
    originalCapsule := ct.capsule
    payload := ct.payload
    alicePrePk := rekey.alicePrePk
    bobEd25519 := rekey.bobEd25519 }

/-- The point Alice derives from a capsule. -/
def ownerShared (aliceSk : StellarSecretKey D) (c : Capsule Point) : Point :=
  aliceSk.preSk • (c.pointE + c.pointV)

/-- The scalar `d` Bob recomputes. -/
def recoveredScalar (bobSk : StellarSecretKey D) (reenc : ReencryptedCiphertext Point) : Scalar :=
  hashToD D reenc.precursor bobSk.account.point (bobSk.signingScalar • reenc.precursor)

/-- The point Bob derives. -/
def delegateeShared (bobSk : StellarSecretKey D) (reenc : ReencryptedCiphertext Point) : Point :=
  recoveredScalar bobSk reenc • (reenc.pointEPrime + reenc.pointVPrime)

variable (D) in
/-- The hash of the original capsule. -/
def Capsule.challenge (c : Capsule Point) : Scalar :=
  hashCapsulePoints D c.pointE c.pointV

/-- Bob's consistency check, `lhs == rhs`, against a PRE key. -/
def Consistent (bobSk : StellarSecretKey D) (reenc : ReencryptedCiphertext Point)
    (alicePrePk : PrePublicKey Point) : Prop :=
  (reenc.originalCapsule.signature * Scalar.invert (recoveredScalar bobSk reenc)) •
      alicePrePk.point =
    reenc.originalCapsule.challenge D • reenc.pointEPrime + reenc.pointVPrime

instance (bobSk : StellarSecretKey D) (reenc : ReencryptedCiphertext Point)
    (alicePrePk : PrePublicKey Point) : Decidable (Consistent bobSk reenc alicePrePk) := by
  unfold Consistent
  infer_instance

/-- The payload under the DEM key of a shared point, bound to a capsule. -/
def openWith (D : Primitives Point) (shared : Point) (c : Capsule Point) (payload : List UInt8) :
    Outcome (List UInt8) :=
  Dem.open D (kdfFromPoint D shared encryptContext) payload c.toBytes.toList

theorem encrypt_eq (rng : R) (pk : PrePublicKey Point) (m : List UInt8) :
    encrypt D rng pk m = (do
      let (r, rng) ← randomNonzeroScalar rng
      let (u, rng) ← randomNonzeroScalar rng
      let capsule := encapsulate D r u
      let sealed := Dem.seal D rng (kdfFromPoint D ((r + u) • pk.point) encryptContext) m
        capsule.toBytes.toList
      return (sealed.1.map fun payload => { capsule := capsule, payload := payload }, sealed.2)) :=
  rfl

theorem encrypt_spec {rng rng' : R} {pk : PrePublicKey Point} {m : List UInt8}
    {ct : Ciphertext Point} (h : encrypt D rng pk m = some (.ok ct, rng')) :
    ∃ (r u : Scalar) (rng₂ : R), r ≠ 0 ∧ u ≠ 0 ∧ ct.capsule = encapsulate D r u ∧
      (Dem.seal D rng₂ (kdfFromPoint D ((r + u) • pk.point) encryptContext) m
        ct.capsule.toBytes.toList).1 = .ok ct.payload := by
  rw [encrypt_eq] at h
  rcases Option.bind_eq_some_iff.1 h with ⟨⟨r, rng₁⟩, hr, h⟩
  rcases Option.bind_eq_some_iff.1 h with ⟨⟨u, rng₂⟩, hu, h⟩
  refine ⟨r, u, rng₂, (randomNonzeroScalar_spec hr).1, (randomNonzeroScalar_spec hu).1, ?_⟩
  have hct := congrArg Prod.fst (Option.some_inj.1 h)
  dsimp only at hct
  -- a failed seal returns no ciphertext
  cases hpayload : (Dem.seal D rng₂ (kdfFromPoint D ((r + u) • pk.point) encryptContext) m
      (encapsulate D r u).toBytes.toList).1 with
  | error fault =>
      rw [hpayload] at hct
      cases hct
  | ok payload =>
      rw [hpayload] at hct
      cases hct
      exact ⟨rfl, hpayload⟩

theorem decrypt_eq (aliceSk : StellarSecretKey D) (ct : Ciphertext Point) :
    decrypt aliceSk ct =
      if ¬ ct.capsule.verify D then err .capsuleValidationFailed
      else openWith D (ownerShared aliceSk ct.capsule) ct.capsule ct.payload := rfl

theorem rekeyGen_eq (rng : R) (aliceSk : StellarSecretKey D) (bobPk : StellarPublicKey Point) :
    rekeyGen rng aliceSk bobPk =
      (randomNonzeroScalar rng).map fun drawn =>
        (.ok (delegate aliceSk bobPk drawn.1), drawn.2) := by
  rw [rekeyGen]
  cases randomNonzeroScalar rng <;> rfl

theorem rekeyGen_eq_some_iff {rng rng' : R} {aliceSk : StellarSecretKey D}
    {bobPk : StellarPublicKey Point} {result : Outcome (ReencryptionKey Point)} :
    rekeyGen rng aliceSk bobPk = some (result, rng') ↔
      ∃ x, randomNonzeroScalar rng = some (x, rng') ∧ result = .ok (delegate aliceSk bobPk x) := by
  rw [rekeyGen_eq, Option.map_eq_some_iff]
  constructor
  · rintro ⟨⟨x, rng₁⟩, hx, h⟩
    cases h
    exact ⟨x, hx, rfl⟩
  · rintro ⟨x, hx, rfl⟩
    exact ⟨(x, rng'), hx, rfl⟩

theorem reencrypt_eq (rekey : ReencryptionKey Point) (ct : Ciphertext Point) :
    reencrypt D rekey ct =
      if ¬ ct.capsule.verify D then err .capsuleValidationFailed
      else .ok (redirect rekey ct) := rfl

theorem decryptReencrypted_eq (bobSk : StellarSecretKey D)
    (reenc : ReencryptedCiphertext Point) :
    decryptReencrypted bobSk reenc =
      if bobSk.account.ed25519 ≠ reenc.bobEd25519 then err .decryptionFailed
      else (do
        let alicePrePk : PrePublicKey Point ← PrePublicKey.fromBytes reenc.alicePrePk
        if ¬ Consistent bobSk reenc alicePrePk then err .capsuleValidationFailed
        else openWith D (delegateeShared bobSk reenc) reenc.originalCapsule reenc.payload) := by
  rw [decryptReencrypted, bobSk.stellarPublicKey_eq, ok_bind]
  rfl

end StellarRecrypt
