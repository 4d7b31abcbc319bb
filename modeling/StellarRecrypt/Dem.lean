import StellarRecrypt.Error
import StellarRecrypt.Primitives

/-!
# Dem — sealing the payload

`dem.rs`: the DEM key of a shared point, and the AEAD with its nonce in front.  Erasing a key leaves
no trace in the result of a call, so `zeroize_key` is not modelled.
-/

namespace StellarRecrypt

open ByteString
open EdwardsCurve
open Outcome

variable {Point : Type} [EdwardsCurve Point] (D : Primitives Point)

/-- `NONCE_LEN`. -/
abbrev nonceLen : Nat := 24

/-- `KEY_LEN`. -/
abbrev keyLen : Nat := 32

def kdfFromPoint (shared : Point) (context : List UInt8) : Bytes keyLen :=
  let ikm := compress shared
  D.hkdfSha256 (ascii "StellarRecrypt-PRE-v1") ikm.toList context keyLen

def Dem.seal {R : Type} [RngCore R] (rng : R) (key : Bytes keyLen) (plaintext aad : List UInt8) :
    Outcome (List UInt8) × R :=
  let (nonceBytes, rng) := RngCore.fillBytes nonceLen rng
  match D.aeadEncrypt key nonceBytes plaintext aad with
  | none => (err (.crypto "AEAD encrypt failed"), rng)
  | some ct => (.ok (nonceBytes.toList ++ ct), rng)

def Dem.open (key : Bytes keyLen) (sealed aad : List UInt8) : Outcome (List UInt8) :=
  -- no room for a nonce and a tag
  if sealed.length < nonceLen + 16 then err .decryptionFailed
  else do
    let nonceBytes ← copyFromSlice nonceLen (sealed.take nonceLen)
    let ct := sealed.drop nonceLen
    okOr (D.aeadDecrypt key nonceBytes ct aad) .decryptionFailed

variable {D}

/-- `open` after its length check. -/
theorem open_append (key : Bytes keyLen) (nonce : Bytes nonceLen) {ct : List UInt8}
    (hct : 16 ≤ ct.length) (aad : List UInt8) :
    Dem.open D key (nonce.toList ++ ct) aad =
      okOr (D.aeadDecrypt key nonce ct aad) .decryptionFailed := by
  have hlen : ¬ (nonce.toList ++ ct).length < nonceLen + 16 := by
    rw [List.length_append, nonce.length_eq]
    omega
  have htake : (nonce.toList ++ ct).take nonceLen = nonce.toList := by
    rw [List.take_append_of_le_length nonce.length_eq.ge, List.take_of_length_le nonce.length_eq.le]
  have hdrop : (nonce.toList ++ ct).drop nonceLen = ct := by
    rw [List.drop_append_of_le_length nonce.length_eq.ge, List.drop_eq_nil_of_le nonce.length_eq.le,
      List.nil_append]
  rw [Dem.open, if_neg hlen, htake, hdrop, copyFromSlice, Bytes.ofList?_toList]
  rfl

/-- A payload is too short, or a nonce and a ciphertext with its tag. -/
theorem open_cases (key : Bytes keyLen) (sealed aad : List UInt8) :
    Dem.open D key sealed aad = err .decryptionFailed ∨
      ∃ (nonce : Bytes nonceLen) (ct : List UInt8), sealed = nonce.toList ++ ct ∧
        Dem.open D key sealed aad = okOr (D.aeadDecrypt key nonce ct aad) .decryptionFailed := by
  by_cases hlen : sealed.length < nonceLen + 16
  · exact Or.inl (if_pos hlen)
  · right
    rcases exists_block_append (n := nonceLen) (l := sealed) (by omega) with ⟨nonce, ct, rfl⟩
    rw [List.length_append, nonce.length_eq] at hlen
    exact ⟨nonce, ct, rfl, open_append key nonce (by omega) aad⟩

/-- Opening either returns the plaintext or fails with `DecryptionFailed`. -/
theorem open_eq_ok_or (key : Bytes keyLen) (sealed aad : List UInt8) :
    (∃ plaintext, Dem.open D key sealed aad = .ok plaintext) ∨
      Dem.open D key sealed aad = err .decryptionFailed := by
  rcases open_cases (D := D) key sealed aad with h | ⟨nonce, ct, _, h⟩
  · exact Or.inr h
  · rw [h]
    -- the AEAD's answer is the only one left
    cases D.aeadDecrypt key nonce ct aad with
    | none => exact Or.inr rfl
    | some plaintext => exact Or.inl ⟨plaintext, rfl⟩

section Lawful

variable {R : Type} [RngCore R] {rng : R} {key : Bytes keyLen} {plaintext aad sealed : List UInt8}

theorem seal_eq_ok_iff : (Dem.seal D rng key plaintext aad).1 = .ok sealed ↔
    ∃ ct, D.aeadEncrypt key (RngCore.fillBytes nonceLen rng).1 plaintext aad = some ct ∧
      sealed = (RngCore.fillBytes nonceLen rng).1.toList ++ ct := by
  rw [Dem.seal]
  cases h : D.aeadEncrypt key (RngCore.fillBytes nonceLen rng).1 plaintext aad with
  | none => simp [h]
  | some ct => simp [h, eq_comm]

/-- Opening inverts sealing, under the same key and associated data. -/
theorem open_seal (hD : LawfulAead D) (h : (Dem.seal D rng key plaintext aad).1 = .ok sealed) :
    Dem.open D key sealed aad = .ok plaintext := by
  rcases seal_eq_ok_iff.1 h with ⟨ct, hct, rfl⟩
  have hlen : 16 ≤ ct.length := by
    rw [hD.length_encrypt hct]
    exact Nat.le_add_left _ _
  rw [open_append key _ hlen, hD.decrypt_encrypt hct, okOr_some]

/-- A sealed payload is a nonce, the ciphertext and a tag. -/
theorem length_seal (hD : LawfulAead D) (h : (Dem.seal D rng key plaintext aad).1 = .ok sealed) :
    sealed.length = plaintext.length + 40 := by
  rcases seal_eq_ok_iff.1 h with ⟨ct, hct, rfl⟩
  rw [List.length_append, Bytes.length_eq, hD.length_encrypt hct, nonceLen]
  omega

end Lawful

end StellarRecrypt
