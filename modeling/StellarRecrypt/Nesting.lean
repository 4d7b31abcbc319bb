import StellarRecrypt.DomainSeparation

/-!
# Nesting — trees of `structured_info` calls

A field of `structured_info` may be the output of another call, which then loses its prefix.  So a
tree of calls writes one prefix and the strings at its leaves from left to right; how the calls are
nested leaves no trace.
-/

namespace StellarRecrypt

open ByteString
open Delimited

/-- A call of `structured_info` whose fields are byte strings or further calls. -/
inductive InfoTree
  | leaf (arg : List UInt8)
  | call (argA argB : InfoTree)

namespace InfoTree

/-- What the calls return. -/
def eval : InfoTree → List UInt8
  | leaf arg => arg
  | call argA argB => structuredInfo argA.eval argB.eval

/-- The byte strings given to the calls, from left to right. -/
def leaves : InfoTree → List (List UInt8)
  | leaf arg => [arg]
  | call argA argB => argA.leaves ++ argB.leaves

theorem leaves_ne_nil (t : InfoTree) : t.leaves ≠ [] := by
  induction t with
  | leaf arg => exact List.cons_ne_nil _ _
  | call argA argB ihA ihB => exact List.append_ne_nil_of_left_ne_nil ihA _

end InfoTree

/-- A field without the one prefix it may start with. -/
def stripped (arg : List UInt8) : List UInt8 :=
  if StartsStructured arg then arg.drop (infoPrefix ++ [infoPad]).length else arg

theorem unwrapStructured_eq_stripped (arg : List UInt8) :
    unwrapStructured arg = stripped arg := by
  rw [stripped]
  split
  · rename_i hstarts
    rcases hstarts with ⟨rest, rfl⟩
    have hcut : (infoPrefix ++ [infoPad] ++ rest).drop (infoPrefix ++ [infoPad]).length = rest :=
      List.drop_left
    rw [hcut, List.append_assoc]
    exact unwrapStructured_append rest
  · rename_i hnot
    exact unwrapStructured_of_not fun h => hnot (startsStructured_iff.2 h)

/-- Without its prefix, a tree is its stripped leaves joined by pads: an inner call is recognised
by the prefix it wrote, whatever its fields are. -/
theorem InfoTree.unwrapStructured_eval (t : InfoTree) :
    unwrapStructured t.eval = joinAll infoPad (t.leaves.map stripped) := by
  induction t with
  | leaf arg => exact unwrapStructured_eq_stripped arg
  | call argA argB ihA ihB =>
      have hA : argA.leaves.map stripped ≠ [] := by
        simpa using argA.leaves_ne_nil
      have hB : argB.leaves.map stripped ≠ [] := by
        simpa using argB.leaves_ne_nil
      calc unwrapStructured (call argA argB).eval
          = join infoPad (unwrapStructured argA.eval) (unwrapStructured argB.eval) := by
            rw [eval, structuredInfo_eq, unwrapStructured_append]
        _ = joinAll infoPad ((call argA argB).leaves.map stripped) := by
            rw [ihA, ihB, ← joinAll_append hA hB, ← List.map_append, leaves]

/-- Nested calls flatten: one prefix, then the stripped leaves joined by pads.  So the nesting of
three fields does not matter. -/
theorem structuredInfo_flattens :
    (∀ argA argB : InfoTree, (InfoTree.call argA argB).eval =
        infoPrefix ++ infoPad ::
          joinAll infoPad ((InfoTree.call argA argB).leaves.map stripped)) ∧
      ∀ x y z : List UInt8,
        structuredInfo (structuredInfo x y) z = structuredInfo x (structuredInfo y z) := by
  have hflat : ∀ argA argB : InfoTree, (InfoTree.call argA argB).eval =
      infoPrefix ++ infoPad ::
        joinAll infoPad ((InfoTree.call argA argB).leaves.map stripped) := by
    intro argA argB
    rw [← InfoTree.unwrapStructured_eval, InfoTree.eval, structuredInfo_eq,
      unwrapStructured_append]
  refine ⟨hflat, fun x y z => ?_⟩
  -- both sides are trees with the leaves `x`, `y`, `z`
  have hleft := hflat (.call (.leaf x) (.leaf y)) (.leaf z)
  have hright := hflat (.leaf x) (.call (.leaf y) (.leaf z))
  exact hleft.trans hright.symm

end StellarRecrypt
