import StellarRecrypt.Lib.PrefixCode
import StellarRecrypt.WireGrammar

/-!
# Framing — encodings sent back to back

Each format says in its first bytes how long it is: by its kind, or by the length field in front of
the payload.  So whatever the decoders accept, canonical or not, a cut or a continued encoding is
rejected, and a stream of accepted encodings is cut in one way only.
-/

namespace StellarRecrypt

open ByteString
open EdwardsCurve
open InformationTheory
open Outcome
open PrefixCode

variable {Point : Type} [EdwardsCurve Point] {D : Primitives Point} {usizeBits : Nat}

/-- The byte strings a decoder accepts. -/
def accepted {V : Type} (decode : List UInt8 → Outcome V) : Set (List UInt8) :=
  {bytes | ∃ v, decode bytes = .ok v}

/-- No accepted string is a proper prefix of another, and strings sent back to back are cut in one
way only. -/
def Framed {V : Type} (decode : List UInt8 → Outcome V) : Prop :=
  PrefixFree (accepted decode) ∧ UniquelyDecodable (accepted decode)

theorem framed_of_prefixFree {V : Type} {decode : List UInt8 → Outcome V} {e : Error}
    (hfree : PrefixFree (accepted decode)) (hnil : decode [] = err e) : Framed decode := by
  refine ⟨hfree, hfree.uniquelyDecodable ?_⟩
  rintro ⟨v, hv⟩
  rw [hnil] at hv
  exact err_ne_ok _ _ hv

/-- A length field after a header counts the bytes that follow it. -/
theorem length_eq_of_lengthField {l p : List UInt8} {n : Bytes 4}
    (hp : p.length = leNat n.toList) :
    l.length + 4 ≤ (l ++ n.toList ++ p).length ∧
      (l ++ n.toList ++ p).length = l.length + 4 +
        leNat (((l ++ n.toList ++ p).take (l.length + 4)).drop l.length) := by
  have hhead : (l ++ n.toList).length = l.length + 4 := by
    rw [List.length_append, n.length_eq]
  have htake : (l ++ n.toList ++ p).take (l.length + 4) = l ++ n.toList := by
    rw [← hhead, List.take_left]
  rw [htake, List.drop_left, List.length_append, hhead, hp]
  exact ⟨Nat.le_add_right _ _, rfl⟩

/-! ## The four formats -/

theorem framed_capsule (D : Primitives Point) : Framed fun bytes => Capsule.fromBytes D bytes := by
  refine framed_of_prefixFree (PrefixFree.of_length capsuleSize ?_) rfl
  rintro bytes ⟨c, hc⟩
  rcases Capsule.fromBytes_eq_ok_iff.1 hc with ⟨e, v, s, rfl, _⟩
  simp [capsuleSize]

theorem framed_rekey : Framed fun bytes =>
    (ReencryptionKey.fromBytes bytes : Outcome (ReencryptionKey Point)) := by
  refine framed_of_prefixFree (PrefixFree.of_length 128 ?_) rfl
  rintro bytes ⟨key, hkey⟩
  rcases ReencryptionKey.fromBytes_eq_ok_iff.1 hkey with ⟨k, x, rfl, _⟩
  simp

theorem framed_ciphertext (h : 33 ≤ usizeBits) (D : Primitives Point) :
    Framed fun bytes => Ciphertext.fromBytes D usizeBits bytes := by
  refine framed_of_prefixFree (PrefixFree.of_header (capsuleSize + 4)
    (fun head => capsuleSize + 4 + leNat (head.drop capsuleSize)) ?_) rfl
  rintro bytes ⟨ct, hct⟩
  rcases (Ciphertext.fromBytes_eq_ok_iff h).1 hct with ⟨c, n, rfl, _, hn⟩
  simpa only [c.length_eq] using length_eq_of_lengthField (l := c.toList) hn

theorem framed_reencrypted (h : 33 ≤ usizeBits) (D : Primitives Point) :
    Framed fun bytes => ReencryptedCiphertext.fromBytes D usizeBits bytes := by
  refine framed_of_prefixFree (PrefixFree.of_header (ReencryptedCiphertext.headerSize + 4)
    (fun head => ReencryptedCiphertext.headerSize + 4 +
      leNat (head.drop ReencryptedCiphertext.headerSize)) ?_) rfl
  rintro bytes ⟨r, hr⟩
  rcases (ReencryptedCiphertext.fromBytes_eq_ok_iff h).1 hr with ⟨b, n, rfl, hfields⟩
  simpa only [b.length_toList] using
    length_eq_of_lengthField (l := b.toList) hfields.2.2.2.2.2.2

/-- Of each format: no accepted encoding is a proper prefix of another, and accepted encodings sent
back to back are cut in one way only. -/
theorem wire_formats_framed (D : Primitives Point) :
    (Framed fun bytes => Capsule.fromBytes D bytes) ∧
      (Framed fun bytes => Ciphertext.fromBytes D 64 bytes) ∧
      (Framed fun bytes => (ReencryptionKey.fromBytes bytes : Outcome (ReencryptionKey Point))) ∧
      Framed fun bytes => ReencryptedCiphertext.fromBytes D 64 bytes := by
  have hwidth : 33 ≤ 64 := by
    norm_num
  exact ⟨framed_capsule D, framed_ciphertext hwidth D, framed_rekey,
    framed_reencrypted hwidth D⟩

end StellarRecrypt
