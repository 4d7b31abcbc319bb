import StellarRecrypt.Lib.Delimited
import StellarRecrypt.Primitives

/-!
# Kdf — the PRE scalar and its derivation context

`kdf.rs`: the HKDF derivation of Alice's PRE scalar, and `structured_info`, which joins two fields
into an HKDF info.  A field that is itself an output of `structured_info` loses its prefix first.
-/

namespace StellarRecrypt

open ByteString
open Delimited

variable {Point : Type} [EdwardsCurve Point] (D : Primitives Point)

/-- `SALT`. -/
def salt : List UInt8 := ascii "StellarRecrypt-v1"

/-- `INFO_PREFIX`. -/
def infoPrefix : List UInt8 := ascii "pre-encryption-scalar"

/-- `INFO_PAD`. -/
def infoPad : UInt8 := 0

def derivePreScalarWithInfo (seed : Bytes 32) (info : List UInt8) : Scalar :=
  Scalar.fromBytesModOrderWide (D.hkdfSha256 salt seed.toList info 64)

def isStructured (arg : List UInt8) : Bool :=
  decide (infoPrefix.length + 1 ≤ arg.length) && infoPrefix.isPrefixOf arg &&
    arg[infoPrefix.length]? == some infoPad

def unwrapStructured (arg : List UInt8) : List UInt8 :=
  if isStructured arg then arg.drop (infoPrefix.length + 1) else arg

def structuredInfo (argA argB : List UInt8) : List UInt8 :=
  let a := unwrapStructured argA
  let b := unwrapStructured argB
  infoPrefix ++ [infoPad] ++ a ++ [infoPad] ++ b

/-! ## The format -/

/-- A structured string is the prefix, a pad and anything. -/
theorem isStructured_iff {arg : List UInt8} :
    isStructured arg = true ↔ ∃ rest, arg = infoPrefix ++ infoPad :: rest := by
  simp only [isStructured, Bool.and_eq_true, decide_eq_true_eq, List.isPrefixOf_iff_prefix,
    beq_iff_eq]
  constructor
  · rintro ⟨⟨_, tail, rfl⟩, hpad⟩
    rw [List.getElem?_append_right le_rfl, Nat.sub_self] at hpad
    cases tail with
    | nil => simp at hpad
    | cons b rest =>
        have hb : b = infoPad := by simpa using hpad
        exact ⟨rest, by rw [hb]⟩
  · rintro ⟨rest, rfl⟩
    refine ⟨⟨by simp, List.prefix_append _ _⟩, ?_⟩
    rw [List.getElem?_append_right le_rfl, Nat.sub_self]
    rfl

/-- Unwrapping removes one prefix and its pad. -/
theorem unwrapStructured_append (rest : List UInt8) :
    unwrapStructured (infoPrefix ++ infoPad :: rest) = rest := by
  rw [unwrapStructured, if_pos (isStructured_iff.2 ⟨rest, rfl⟩), List.drop_append,
    List.drop_eq_nil_of_le (Nat.le_succ _), Nat.add_sub_cancel_left]
  rfl

theorem unwrapStructured_of_not {arg : List UInt8} (h : ¬ isStructured arg = true) :
    unwrapStructured arg = arg := by
  rw [unwrapStructured, if_neg h]

/-- An info is the prefix, a pad and the two unwrapped fields joined by a pad. -/
theorem structuredInfo_eq (a b : List UInt8) :
    structuredInfo a b =
      infoPrefix ++ infoPad :: join infoPad (unwrapStructured a) (unwrapStructured b) := by
  simp [structuredInfo, join]

theorem structuredInfo_eq_iff {a b a' b' : List UInt8} :
    structuredInfo a b = structuredInfo a' b' ↔
      join infoPad (unwrapStructured a) (unwrapStructured b) =
        join infoPad (unwrapStructured a') (unwrapStructured b') := by
  rw [structuredInfo_eq, structuredInfo_eq, List.append_cancel_left_eq, List.cons.injEq]
  simp

/-! ## Domain separation -/

/-- Two contexts share their info exactly when they are equal, or when one of them is the other
with the boundary between its fields moved to a pad inside a field. -/
theorem structuredInfo_eq_iff_shifted {a b a' b' : List UInt8} (ha : ¬ isStructured a = true)
    (hb : ¬ isStructured b = true) (ha' : ¬ isStructured a' = true)
    (hb' : ¬ isStructured b' = true) :
    structuredInfo a b = structuredInfo a' b' ↔
      (a = a' ∧ b = b') ∨ Shifted infoPad a b a' b' ∨ Shifted infoPad a' b' a b := by
  rw [structuredInfo_eq_iff, unwrapStructured_of_not ha, unwrapStructured_of_not hb,
    unwrapStructured_of_not ha', unwrapStructured_of_not hb', join_eq_join_iff]

end StellarRecrypt
