import Mathlib.Data.List.Infix
import Mathlib.InformationTheory.Coding.UniquelyDecodable

/-!
# PrefixCode — words whose length stands in their header

A word whose first symbols fix its length is no proper prefix of another word of the kind.  Then a
concatenation of words is cut in one way only.
-/

namespace PrefixCode

open InformationTheory

variable {α : Type} {S : Set (List α)}

/-- No word is a proper prefix of another. -/
def PrefixFree (S : Set (List α)) : Prop :=
  ∀ w ∈ S, ∀ w' ∈ S, w <+: w' → w = w'

/-- A header of `k` symbols that fixes the length. -/
theorem PrefixFree.of_header (k : ℕ) (size : List α → ℕ)
    (h : ∀ w ∈ S, k ≤ w.length ∧ w.length = size (w.take k)) : PrefixFree S := by
  rintro w hw w' hw' ⟨t, rfl⟩
  rcases h w hw with ⟨hlong, hsize⟩
  rcases h (w ++ t) hw' with ⟨_, hsize'⟩
  rw [List.take_append_of_le_length hlong, ← hsize] at hsize'
  exact (List.prefix_append w t).eq_of_length hsize'.symm

/-- Words of one length. -/
theorem PrefixFree.of_length (n : ℕ) (h : ∀ w ∈ S, w.length = n) : PrefixFree S :=
  of_header 0 (fun _ => n) fun w hw => ⟨Nat.zero_le _, h w hw⟩

theorem PrefixFree.uniquelyDecodable (hS : PrefixFree S) (hne : [] ∉ S) : UniquelyDecodable S := by
  intro l
  induction l with
  | nil =>
      intro m _ hm hflat
      cases m with
      | nil => rfl
      | cons w m =>
          have hnil := (List.append_eq_nil_iff.1 hflat.symm).1
          exact absurd (hnil ▸ hm w List.mem_cons_self) hne
  | cons w l ih =>
      intro m hl hm hflat
      cases m with
      | nil =>
          have hnil := (List.append_eq_nil_iff.1 hflat).1
          exact absurd (hnil ▸ hl w List.mem_cons_self) hne
      | cons w' m =>
          rw [List.flatten_cons, List.flatten_cons] at hflat
          have hw := hl w List.mem_cons_self
          have hw' := hm w' List.mem_cons_self
          -- both first words are prefixes of the one concatenation
          have hsame : w = w' := by
            rcases List.prefix_or_prefix_of_prefix (List.prefix_append w l.flatten)
              (hflat ▸ List.prefix_append w' m.flatten) with hpre | hpre
            · exact hS w hw w' hw' hpre
            · exact (hS w' hw' w hw hpre).symm
          subst hsame
          have hrest := ih m (fun v hv => hl v (List.mem_cons_of_mem _ hv))
            (fun v hv => hm v (List.mem_cons_of_mem _ hv)) (List.append_cancel_left hflat)
          rw [hrest]

end PrefixCode
