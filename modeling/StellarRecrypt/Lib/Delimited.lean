import Mathlib.Data.List.Basic

/-!
# Delimited — fields joined by one pad symbol

`join pad a b` writes `a`, a pad, `b`.  The pad may occur inside either field, so a joined string
can have several readings.  The module states all of them.  `joinAll` joins any number of fields,
and joining is associative as far as the fields are concerned.
-/

namespace Delimited

variable {α : Type} {pad : α}

/-- The first field, a pad, the second field. -/
def join (pad : α) (a b : List α) : List α :=
  a ++ pad :: b

theorem length_join (a b : List α) : (join pad a b).length = a.length + b.length + 1 := by
  simp [join, Nat.add_assoc]

/-- One reading of a joined string moves the boundary of the other to a later pad. -/
def Shifted (pad : α) (a b a' b' : List α) : Prop :=
  ∃ c, a' = join pad a c ∧ b = join pad c b'

/-- The readings of a joined string. -/
theorem join_eq_join_iff {a b a' b' : List α} :
    join pad a b = join pad a' b' ↔
      (a = a' ∧ b = b') ∨ Shifted pad a b a' b' ∨ Shifted pad a' b' a b := by
  simp only [join, Shifted]
  constructor
  · intro h
    rcases List.append_eq_append_iff.1 h with ⟨c, ha, hb⟩ | ⟨c, ha, hb⟩
    · cases c with
      | nil =>
          left
          simpa using And.intro ha.symm hb
      | cons x c =>
          right
          left
          simp only [List.cons_append, List.cons.injEq] at hb
          obtain ⟨rfl, hb⟩ := hb
          exact ⟨c, ha, hb⟩
    · cases c with
      | nil =>
          left
          simpa using And.intro ha hb.symm
      | cons x c =>
          right
          right
          simp only [List.cons_append, List.cons.injEq] at hb
          obtain ⟨rfl, hb⟩ := hb
          exact ⟨c, ha, hb⟩
  · rintro (⟨rfl, rfl⟩ | ⟨c, rfl, rfl⟩ | ⟨c, rfl, rfl⟩) <;> simp

theorem Shifted.length_lt {a b a' b' : List α} (h : Shifted pad a b a' b') :
    a.length < a'.length ∧ b'.length < b.length := by
  obtain ⟨c, rfl, rfl⟩ := h
  simp only [length_join]
  omega

/-- First fields of one length leave no other reading. -/
theorem join_inj_of_length_eq {a b a' b' : List α} (hlen : a.length = a'.length) :
    join pad a b = join pad a' b' ↔ a = a' ∧ b = b' := by
  rw [join_eq_join_iff]
  constructor
  · rintro (h | h | h)
    · exact h
    · exact absurd h.length_lt.1 (by omega)
    · exact absurd h.length_lt.1 (by omega)
  · exact Or.inl

/-! ## Any number of fields -/

/-- The fields in their order, a pad between any two neighbours. -/
def joinAll (pad : α) : List (List α) → List α
  | [] => []
  | [a] => a
  | a :: b :: rest => join pad a (joinAll pad (b :: rest))

theorem joinAll_cons {a : List α} {rest : List (List α)} (h : rest ≠ []) :
    joinAll pad (a :: rest) = join pad a (joinAll pad rest) := by
  cases rest with
  | nil => exact absurd rfl h
  | cons b rest => rfl

theorem join_assoc (a b c : List α) : join pad (join pad a b) c = join pad a (join pad b c) := by
  simp [join]

/-- Joining two joined strings joins all their fields. -/
theorem joinAll_append {l m : List (List α)} (hl : l ≠ []) (hm : m ≠ []) :
    joinAll pad (l ++ m) = join pad (joinAll pad l) (joinAll pad m) := by
  induction l with
  | nil => exact absurd rfl hl
  | cons a l ih =>
      cases l with
      | nil => exact joinAll_cons hm
      | cons b l =>
          have hrest : b :: l ≠ [] := List.cons_ne_nil b l
          have happend : b :: l ++ m ≠ [] := List.append_ne_nil_of_left_ne_nil hrest m
          calc joinAll pad (a :: (b :: l ++ m))
              = join pad a (joinAll pad (b :: l ++ m)) := joinAll_cons happend
            _ = join pad a (join pad (joinAll pad (b :: l)) (joinAll pad m)) := by
                rw [ih hrest]
            _ = join pad (joinAll pad (a :: b :: l)) (joinAll pad m) := by
                rw [← join_assoc, joinAll_cons hrest]

end Delimited
