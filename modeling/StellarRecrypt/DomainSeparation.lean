import StellarRecrypt.Kdf

/-!
# DomainSeparation — when two contexts share their info

`structured_info` joins its two fields with one zero byte, and a field may hold zero bytes of its
own.  Two contexts share their info exactly when one is the other with the boundary moved to such a
byte; purposes of one length leave no room for that.
-/

namespace StellarRecrypt

open ByteString
open Delimited

/-- The field starts with `PREFIX`, then `0x00`. -/
def StartsStructured (arg : List UInt8) : Prop :=
  infoPrefix ++ [infoPad] <+: arg

instance (arg : List UInt8) : Decidable (StartsStructured arg) := by
  unfold StartsStructured
  infer_instance

theorem startsStructured_iff {arg : List UInt8} :
    StartsStructured arg ↔ isStructured arg = true := by
  rw [isStructured_iff]
  constructor
  · rintro ⟨rest, rfl⟩
    exact ⟨rest, by simp⟩
  · rintro ⟨rest, rfl⟩
    exact ⟨rest, by simp⟩

/-- `structured_info` separates two contexts exactly when neither of them is the other with its
boundary moved to a pad inside a field. -/
theorem structuredInfo_separates_iff {a b a' b' : List UInt8} (ha : ¬ StartsStructured a)
    (hb : ¬ StartsStructured b) (ha' : ¬ StartsStructured a') (hb' : ¬ StartsStructured b') :
    (structuredInfo a b = structuredInfo a' b' → a = a' ∧ b = b') ↔
      ¬ Shifted infoPad a b a' b' ∧ ¬ Shifted infoPad a' b' a b := by
  rw [startsStructured_iff] at ha hb ha' hb'
  rw [structuredInfo_eq_iff_shifted ha hb ha' hb']
  constructor
  · intro hseparates
    refine ⟨fun hshift => ?_, fun hshift => ?_⟩
    · -- a moved boundary changes the length of the first field
      have hlt := hshift.length_lt.1
      rw [(hseparates (Or.inr (Or.inl hshift))).1] at hlt
      exact lt_irrefl _ hlt
    · have hlt := hshift.length_lt.1
      rw [(hseparates (Or.inr (Or.inr hshift))).1] at hlt
      exact lt_irrefl _ hlt
  · rintro ⟨hnot, hnot'⟩ (heq | hshift | hshift)
    · exact heq
    · exact absurd hshift hnot
    · exact absurd hshift hnot'

/-- One purpose and two peers. -/
theorem structuredInfo_separates_peers :
    structuredInfo (ascii "rekey") [1] ≠ structuredInfo (ascii "rekey") [2] := by
  intro h
  have hsame := (structuredInfo_separates_iff (by decide) (by decide) (by decide) (by decide)).2
    ⟨fun hshift => lt_irrefl _ hshift.length_lt.1,
      fun hshift => lt_irrefl _ hshift.length_lt.1⟩ h
  exact absurd hsame.2 (by decide)

/-- The purpose `rekey\0` without a peer, and the purpose `rekey` with the peer `\0`. -/
theorem structuredInfo_collision :
    ¬ StartsStructured (ascii "rekey" ++ [0]) ∧ ¬ StartsStructured [] ∧
      ¬ StartsStructured (ascii "rekey") ∧ ¬ StartsStructured [0] ∧
      structuredInfo (ascii "rekey" ++ [0]) [] = structuredInfo (ascii "rekey") [0] ∧
      ascii "rekey" ++ [0] ≠ ascii "rekey" := by
  decide

/-- Contexts whose purposes have one length are separated. -/
theorem structuredInfo_inj_of_length_eq {a b a' b' : List UInt8} (ha : ¬ StartsStructured a)
    (hb : ¬ StartsStructured b) (ha' : ¬ StartsStructured a') (hb' : ¬ StartsStructured b')
    (hlen : a.length = a'.length) :
    structuredInfo a b = structuredInfo a' b' ↔ a = a' ∧ b = b' := by
  rw [startsStructured_iff] at ha hb ha' hb'
  rw [structuredInfo_eq_iff, unwrapStructured_of_not ha, unwrapStructured_of_not hb,
    unwrapStructured_of_not ha', unwrapStructured_of_not hb', join_inj_of_length_eq hlen]

end StellarRecrypt
