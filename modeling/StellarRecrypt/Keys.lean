import StellarRecrypt.Convert
import StellarRecrypt.Kdf
import StellarRecrypt.Strkey

/-!
# Keys — key types and their invariants

`keys.rs`.  The fields of the key types are private in the source, so a key is always the result of
one of its constructors.  Here the invariants the constructors establish are fields of the types:
a public key decompresses to a torsion-free point that is not the identity, and the scalars of a
secret key are the two scalars of its seed.
-/

namespace StellarRecrypt

open ByteString
open PrimeOrder
open EdwardsCurve
open Outcome

/-! ## The validation both kinds of public key share -/

/-- A point an encoding stands for, of the prime-order subgroup and not the identity. -/
structure ValidPoint (Point : Type) [EdwardsCurve Point] (bytes : Bytes 32) where
  point : Point
  decompress_eq : decompress bytes = some point
  point_ne_zero : point ≠ 0
  torsionFree : TorsionFree groupOrder point

/-- `decompress`, then `is_identity` and `is_torsion_free`. -/
def validPoint (Point : Type) [EdwardsCurve Point] (bytes : Bytes 32) :
    Outcome (ValidPoint Point bytes) :=
  match h : (decompress bytes : Option Point) with
  | none => err .invalidPublicKey
  | some point =>
      if hinvalid : point = 0 ∨ ¬ TorsionFree groupOrder point then err .invalidPublicKey
      else .ok
        { point := point
          decompress_eq := h
          point_ne_zero := fun h0 => hinvalid (Or.inl h0)
          torsionFree := not_not.1 fun hf => hinvalid (Or.inr hf) }

variable {Point : Type} [EdwardsCurve Point]

theorem ValidPoint.eq {bytes : Bytes 32} (k l : ValidPoint Point bytes) : k = l := by
  rcases k with ⟨P, hP, _, _⟩
  rcases l with ⟨Q, hQ, _, _⟩
  obtain rfl : P = Q := Option.some_inj.1 (hP.symm.trans hQ)
  rfl

/-- The validation returns the valid point of an encoding that has one. -/
theorem validPoint_eq_ok {bytes : Bytes 32} (k : ValidPoint Point bytes) :
    validPoint Point bytes = .ok k := by
  have hvalid : ¬ (k.point = 0 ∨ ¬ TorsionFree groupOrder k.point) := by
    rintro (h0 | hf)
    · exact k.point_ne_zero h0
    · exact hf k.torsionFree
  unfold validPoint
  split
  · rename_i hnone
    rw [k.decompress_eq] at hnone
    cases hnone
  · rename_i P hP
    obtain rfl : k.point = P := Option.some_inj.1 (k.decompress_eq.symm.trans hP)
    rw [dif_neg hvalid]

/-- Otherwise it returns `InvalidPublicKey`. -/
theorem validPoint_eq_err {bytes : Bytes 32} (h : ValidPoint Point bytes → False) :
    validPoint Point bytes = err .invalidPublicKey := by
  unfold validPoint
  split
  · rfl
  · split
    · rfl
    · rename_i P hP hvalid
      rw [not_or, not_not] at hvalid
      exact (h ⟨P, hP, hvalid.1, hvalid.2⟩).elim

theorem validPoint_ne_panic (bytes : Bytes 32) : validPoint Point bytes ≠ panic := by
  by_cases h : Nonempty (ValidPoint Point bytes)
  · rcases h with ⟨valid⟩
    rw [validPoint_eq_ok valid]
    exact ok_ne_panic _
  · rw [validPoint_eq_err fun valid => h ⟨valid⟩]
    exact err_ne_panic _

/-! ## Public keys -/

/-- `PrePublicKey`. -/
structure PrePublicKey (Point : Type) [EdwardsCurve Point] where
  bytes : Bytes 32
  valid : ValidPoint Point bytes

/-- `StellarPublicKey`. -/
structure StellarPublicKey (Point : Type) [EdwardsCurve Point] where
  ed25519 : Bytes 32
  valid : ValidPoint Point ed25519
  x25519 : Bytes 32
  x25519_eq : ed25519PublicToX25519Public Point ed25519 = .ok x25519

variable {D : Primitives Point}

namespace PrePublicKey

/-- The field `point`. -/
def point (k : PrePublicKey Point) : Point :=
  k.valid.point

def fromBytes (bytes : Bytes 32) : Outcome (PrePublicKey Point) := do
  let valid ← validPoint Point bytes
  return { bytes := bytes, valid := valid }

def toBytes (k : PrePublicKey Point) : Bytes 32 :=
  k.bytes

/-- The bytes determine the key. -/
theorem eq_of_bytes {k l : PrePublicKey Point} (h : k.bytes = l.bytes) : k = l := by
  rcases k with ⟨bytes, valid⟩
  rcases l with ⟨bytes', valid'⟩
  obtain rfl : bytes = bytes' := h
  rw [valid.eq valid']

theorem fromBytes_eq_ok_iff {bytes : Bytes 32} {k : PrePublicKey Point} :
    fromBytes bytes = .ok k ↔ k.bytes = bytes := by
  constructor
  · intro h
    rcases bind_eq_ok_iff.1 h with ⟨valid, _, hk⟩
    cases hk
    rfl
  · rintro rfl
    rw [fromBytes, validPoint_eq_ok k.valid]
    rfl

/-- The accepted encodings. -/
theorem exists_fromBytes_iff {bytes : Bytes 32} :
    (∃ k : PrePublicKey Point, fromBytes bytes = .ok k) ↔ Nonempty (ValidPoint Point bytes) := by
  constructor
  · rintro ⟨k, hk⟩
    rw [fromBytes_eq_ok_iff] at hk
    exact ⟨hk ▸ k.valid⟩
  · rintro ⟨valid⟩
    exact ⟨⟨bytes, valid⟩, fromBytes_eq_ok_iff.2 rfl⟩

theorem fromBytes_ne_panic (bytes : Bytes 32) :
    (fromBytes bytes : Outcome (PrePublicKey Point)) ≠ panic :=
  bind_ne_panic (validPoint_ne_panic bytes) fun _ _ => ok_ne_panic _

/-- A torsion-free point that is not the identity is the point of a key. -/
def ofPoint (P : Point) (h0 : P ≠ 0) (hf : TorsionFree groupOrder P) : PrePublicKey Point :=
  { bytes := compress P
    valid :=
      { point := P
        decompress_eq := decompress_compress P
        point_ne_zero := h0
        torsionFree := hf } }

/-- The public key of a nonzero scalar. -/
def ofScalar (a : Scalar) (ha : a ≠ 0) : PrePublicKey Point :=
  ofPoint (a • basepoint) (fun h => ha (smul_basepoint_eq_zero_iff.1 h))
    (torsionFree_smul_basepoint a)

variable (D) in
def fromStellarSeed (seed : Bytes 32) (info : List UInt8) : Outcome (PrePublicKey Point) :=
  let preSk := derivePreScalarWithInfo D seed info
  -- only the PRE scalar is tested; no signing scalar is derived here
  if h : preSk = 0 then err .invalidPrivateKey else .ok (ofScalar preSk h)

variable (D) in
def fromStellarSecretStrkey (s : List Char) (info : List UInt8) : Outcome (PrePublicKey Point) := do
  let seed ← decodeSeed s
  fromStellarSeed D seed info

end PrePublicKey

namespace StellarPublicKey

/-- The field `point`. -/
def point (k : StellarPublicKey Point) : Point :=
  k.valid.point

def fromEd25519Bytes (ed25519 : Bytes 32) : Outcome (StellarPublicKey Point) := do
  -- the point is validated first, so the conversion below cannot fail on it
  let valid ← validPoint Point ed25519
  match hx : ed25519PublicToX25519Public Point ed25519 with
  | .error e => .error e
  | .ok x25519 => .ok { ed25519 := ed25519, valid := valid, x25519 := x25519, x25519_eq := hx }

def fromStrkey (g : List Char) : Outcome (StellarPublicKey Point) := do
  let ed25519 ← decodePublic g
  fromEd25519Bytes ed25519

def toStrkey (k : StellarPublicKey Point) : List Char :=
  encodePublic k.ed25519

theorem eq_of_ed25519 {k l : StellarPublicKey Point} (h : k.ed25519 = l.ed25519) : k = l := by
  rcases k with ⟨bytes, valid, x, hx⟩
  rcases l with ⟨bytes', valid', x', hx'⟩
  obtain rfl : bytes = bytes' := h
  -- the Montgomery key is a function of the encoding, and so is the point
  obtain rfl : x = x' := Except.ok.inj (hx.symm.trans hx')
  rw [valid.eq valid']

theorem fromEd25519Bytes_eq_ok_iff {ed25519 : Bytes 32} {k : StellarPublicKey Point} :
    fromEd25519Bytes ed25519 = .ok k ↔ k.ed25519 = ed25519 := by
  constructor
  · intro h
    rcases bind_eq_ok_iff.1 h with ⟨valid, _, hk⟩
    split at hk
    · cases hk
    · cases hk
      rfl
  · rintro rfl
    rw [fromEd25519Bytes, validPoint_eq_ok k.valid, ok_bind]
    split
    · rename_i e hx
      rw [k.x25519_eq] at hx
      cases hx
    · exact congrArg Except.ok (eq_of_ed25519 rfl)

theorem ed25519PublicToX25519Public_of_decompress {bytes : Bytes 32} {P : Point}
    (h : decompress bytes = some P) :
    ed25519PublicToX25519Public Point bytes = .ok (toMontgomery P) := by
  rw [ed25519PublicToX25519Public, h, okOr_some, ok_bind]
  rfl

/-- The accepted encodings are those of Alice's public keys. -/
theorem exists_fromEd25519Bytes_iff {bytes : Bytes 32} :
    (∃ k : StellarPublicKey Point, fromEd25519Bytes bytes = .ok k) ↔
      Nonempty (ValidPoint Point bytes) := by
  constructor
  · rintro ⟨k, hk⟩
    rw [fromEd25519Bytes_eq_ok_iff] at hk
    exact ⟨hk ▸ k.valid⟩
  · rintro ⟨valid⟩
    exact ⟨⟨bytes, valid, _, ed25519PublicToX25519Public_of_decompress valid.decompress_eq⟩,
      fromEd25519Bytes_eq_ok_iff.2 rfl⟩

theorem fromEd25519Bytes_eq_err {bytes : Bytes 32} (h : ValidPoint Point bytes → False) :
    (fromEd25519Bytes bytes : Outcome (StellarPublicKey Point)) = err .invalidPublicKey := by
  rw [fromEd25519Bytes, validPoint_eq_err h, err_bind]

theorem fromEd25519Bytes_ne_panic (bytes : Bytes 32) :
    (fromEd25519Bytes bytes : Outcome (StellarPublicKey Point)) ≠ panic := by
  by_cases h : Nonempty (ValidPoint Point bytes)
  · rcases exists_fromEd25519Bytes_iff.2 h with ⟨k, hk⟩
    rw [hk]
    exact ok_ne_panic k
  · rw [fromEd25519Bytes_eq_err fun valid => h ⟨valid⟩]
    exact err_ne_panic _

/-- A torsion-free point that is not the identity is the point of a key. -/
def ofPoint (P : Point) (h0 : P ≠ 0) (hf : TorsionFree groupOrder P) : StellarPublicKey Point :=
  { ed25519 := compress P
    valid :=
      { point := P
        decompress_eq := decompress_compress P
        point_ne_zero := h0
        torsionFree := hf }
    x25519 := toMontgomery P
    x25519_eq := ed25519PublicToX25519Public_of_decompress (decompress_compress P) }

end StellarPublicKey

/-! ## Secret keys -/

/-- `StellarSecretKey`. -/
structure StellarSecretKey {Point : Type} [EdwardsCurve Point] (D : Primitives Point) where
  seed : Bytes 32
  preSk : Scalar
  signingScalar : Scalar
  x25519Private : Bytes 32
  preSk_eq : ∃ info, preSk = derivePreScalarWithInfo D seed info
  preSk_ne_zero : preSk ≠ 0
  signingScalar_eq : signingScalar = ed25519SeedToScalar D seed
  x25519Private_eq : x25519Private = ed25519SeedToX25519Private D seed

namespace StellarSecretKey

variable (D) in
def fromSeed (seed : Bytes 32) (info : List UInt8) : Outcome (StellarSecretKey D) :=
  let preSk := derivePreScalarWithInfo D seed info
  let signingScalar := ed25519SeedToScalar D seed
  if h : preSk = 0 ∨ signingScalar = 0 then err .invalidPrivateKey
  else .ok
    { seed := seed
      preSk := preSk
      signingScalar := signingScalar
      x25519Private := ed25519SeedToX25519Private D seed
      preSk_eq := ⟨info, rfl⟩
      preSk_ne_zero := fun h0 => h (Or.inl h0)
      signingScalar_eq := rfl
      x25519Private_eq := rfl }

variable (D) in
def fromStrkey (s : List Char) (info : List UInt8) : Outcome (StellarSecretKey D) := do
  let seed ← decodeSeed s
  fromSeed D seed info

variable (D) in
def generate {R : Type} [RngCore R] (rng : R) (info : List UInt8) :
    Outcome (StellarSecretKey D) × R :=
  let (seed, rng) := RngCore.fillBytes 32 rng
  (expect (fromSeed D seed info), rng)

def toStrkey (sk : StellarSecretKey D) : List Char :=
  encodeSeed sk.seed

def stellarPublicKey (sk : StellarSecretKey D) : Outcome (StellarPublicKey Point) :=
  let ed := ed25519PublicFromSeed D sk.seed
  expect (StellarPublicKey.fromEd25519Bytes ed)

def prePublicKey (sk : StellarSecretKey D) : PrePublicKey Point :=
  PrePublicKey.ofScalar sk.preSk sk.preSk_ne_zero

@[simp] theorem point_prePublicKey (sk : StellarSecretKey D) :
    sk.prePublicKey.point = sk.preSk • basepoint := rfl

theorem fromSeed_eq_ok_iff {seed : Bytes 32} {info : List UInt8} {sk : StellarSecretKey D} :
    fromSeed D seed info = .ok sk ↔
      sk.seed = seed ∧ sk.preSk = derivePreScalarWithInfo D seed info := by
  constructor
  · intro h
    unfold fromSeed at h
    dsimp only at h
    split at h
    · exact absurd h (err_ne_ok _ _)
    · cases h
      exact ⟨rfl, rfl⟩
  · rintro ⟨rfl, hpre⟩
    have hvalid : ¬ (derivePreScalarWithInfo D sk.seed info = 0 ∨
        ed25519SeedToScalar D sk.seed = 0) := by
      rintro (h0 | h0)
      · exact sk.preSk_ne_zero (hpre.trans h0)
      · exact ed25519SeedToScalar_ne_zero D sk.seed h0
    unfold fromSeed
    rw [dif_neg hvalid]
    rcases sk with ⟨seed, pre, signing, x, _, _, hsigning, hx⟩
    simp only [← hpre, ← hsigning, ← hx]

/-- Every secret key is built by `from_seed`. -/
theorem exists_fromSeed (sk : StellarSecretKey D) : ∃ info, fromSeed D sk.seed info = .ok sk := by
  rcases sk.preSk_eq with ⟨info, hinfo⟩
  exact ⟨info, fromSeed_eq_ok_iff.2 ⟨rfl, hinfo⟩⟩

theorem signingScalar_ne_zero (sk : StellarSecretKey D) : sk.signingScalar ≠ 0 := by
  rw [sk.signingScalar_eq]
  exact ed25519SeedToScalar_ne_zero D sk.seed

/-- The account key of a secret, as `stellar_public_key` returns it. -/
def account (sk : StellarSecretKey D) : StellarPublicKey Point :=
  StellarPublicKey.ofPoint (sk.signingScalar • basepoint)
    (fun h => sk.signingScalar_ne_zero (smul_basepoint_eq_zero_iff.1 h))
    (torsionFree_smul_basepoint sk.signingScalar)

@[simp] theorem point_account (sk : StellarSecretKey D) :
    sk.account.point = sk.signingScalar • basepoint := rfl

/-- `stellar_public_key` does not hit its `expect`. -/
theorem stellarPublicKey_eq (sk : StellarSecretKey D) : sk.stellarPublicKey = .ok sk.account := by
  rw [stellarPublicKey, expect_eq_ok_iff, StellarPublicKey.fromEd25519Bytes_eq_ok_iff,
    ed25519PublicFromSeed_eq, ← sk.signingScalar_eq]
  rfl

end StellarSecretKey

/-! ## Key pairs -/

/-- `StellarKeyPair`. -/
structure StellarKeyPair {Point : Type} [EdwardsCurve Point] (D : Primitives Point) where
  secret : StellarSecretKey D
  stellarPublic : StellarPublicKey Point
  prePublic : PrePublicKey Point

namespace StellarKeyPair

def fromSecret (secret : StellarSecretKey D) : Outcome (StellarKeyPair D) := do
  let stellarPublic ← secret.stellarPublicKey
  let prePublic := secret.prePublicKey
  return { secret := secret, stellarPublic := stellarPublic, prePublic := prePublic }

variable (D) in
def generate {R : Type} [RngCore R] (rng : R) (info : List UInt8) :
    Outcome (StellarKeyPair D) × R :=
  let (secret, rng) := StellarSecretKey.generate D rng info
  (secret >>= fromSecret, rng)

variable (D) in
def fromSecretStrkey (s : List Char) (info : List UInt8) : Outcome (StellarKeyPair D) := do
  let secret ← StellarSecretKey.fromStrkey D s info
  fromSecret secret

def validatePreConsistency (kp : StellarKeyPair D) : Bool :=
  let derived := kp.secret.preSk • (basepoint : Point)
  compress derived == kp.prePublic.bytes

def validateStellarConsistency (kp : StellarKeyPair D) : Bool :=
  let derived := kp.secret.signingScalar • (basepoint : Point)
  compress derived == kp.stellarPublic.ed25519

end StellarKeyPair

end StellarRecrypt
