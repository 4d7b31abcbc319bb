import Mathlib.Data.List.Pairwise
import Mathlib.Order.Nat

/-!
# StreamReader — calls that read one stream front to back

A call takes a place in a stream and returns an output and a later place, or does not end.  It is
local when it only depends on what lies between the two places.  Local calls compose, and in any
session of local calls the parts they read are disjoint, so each output is a function of its part.
-/

namespace StreamReader

variable {A A' B : Type}

/-- A place in a stream. -/
structure Cursor (B : Type) where
  stream : ℕ → B
  pos : ℕ

/-- Equal from `m` to `n`. -/
def AgreeOn (m n : ℕ) (s t : ℕ → B) : Prop :=
  ∀ i, m ≤ i → i < n → s i = t i

theorem AgreeOn.mono {k l m n : ℕ} {s t : ℕ → B} (h : AgreeOn k n s t) (hkl : k ≤ l)
    (hmn : m ≤ n) : AgreeOn l m s t :=
  fun i hl hm => h i (le_trans hkl hl) (lt_of_lt_of_le hm hmn)

/-- Every other stream that agrees on the part read gives the same output. -/
structure Reads (f : Cursor B → Option (A × Cursor B)) (c : Cursor B) (a : A) (c' : Cursor B) :
    Prop where
  stream_eq : c'.stream = c.stream
  pos_le : c.pos ≤ c'.pos
  eq_of_agreeOn : ∀ stream, AgreeOn c.pos c'.pos c.stream stream →
    f ⟨stream, c.pos⟩ = some (a, ⟨stream, c'.pos⟩)

/-- A call depends on what it reads only. -/
def Local (f : Cursor B → Option (A × Cursor B)) : Prop :=
  ∀ c a c', f c = some (a, c') → Reads f c a c'

theorem Local.pure (a : A) : Local fun c : Cursor B => some (a, c) := by
  intro c a' c' h
  cases h
  exact ⟨rfl, le_rfl, fun _ _ => rfl⟩

/-- One call after the other. -/
theorem Local.bind {f : Cursor B → Option (A × Cursor B)}
    {g : A → Cursor B → Option (A' × Cursor B)}
    (hf : Local f) (hg : ∀ a, Local (g a)) : Local fun c => (f c).bind fun p => g p.1 p.2 := by
  intro c a' c'' h
  rcases Option.bind_eq_some_iff.1 h with ⟨⟨a, c'⟩, hfc, hgc⟩
  have hfirst := hf c a c' hfc
  have hsecond := hg a c' a' c'' hgc
  refine ⟨hsecond.stream_eq.trans hfirst.stream_eq, le_trans hfirst.pos_le hsecond.pos_le, ?_⟩
  intro stream hagree
  rw [hfirst.eq_of_agreeOn stream (hagree.mono le_rfl hsecond.pos_le), Option.bind_some]
  refine hsecond.eq_of_agreeOn stream ?_
  rw [hfirst.stream_eq]
  exact hagree.mono hfirst.pos_le le_rfl

theorem Local.map {f : Cursor B → Option (A × Cursor B)} (hf : Local f) (g : A → A') :
    Local fun c => (f c).map fun p => (g p.1, p.2) := by
  have hcompose : (fun c => (f c).map fun p => (g p.1, p.2)) =
      fun c => (f c).bind fun p => some (g p.1, p.2) := by
    funext c
    rw [Option.map_eq_bind]
    rfl
  rw [hcompose]
  exact hf.bind fun a => Local.pure (g a)

/-! ## Sessions -/

variable {Call : Type} {Output : Call → Type}
variable (exec : (call : Call) → Cursor B → Option (Output call × Cursor B))

/-- A call that was made: where it began to read, where it stopped, and what it returned. -/
structure Made (Output : Call → Type) where
  call : Call
  start : ℕ
  stop : ℕ
  output : Output call

/-- Calls made one after the other. -/
inductive Session : Cursor B → List (Made Output) → Cursor B → Prop where
  | nil (c : Cursor B) : Session c [] c
  | cons {c c' c'' : Cursor B} {call : Call} {output : Output call} {made : List (Made Output)} :
      exec call c = some (output, c') → Session c' made c'' →
        Session c (⟨call, c.pos, c'.pos, output⟩ :: made) c''

variable {exec} {c c' : Cursor B} {made : List (Made Output)}

theorem Session.start_le (hexec : ∀ call, Local (exec call)) (h : Session exec c made c') :
    ∀ x ∈ made, c.pos ≤ x.start := by
  induction h with
  | nil => exact fun x hx => (List.not_mem_nil hx).elim
  | cons hcall _ ih =>
      intro x hx
      rcases List.mem_cons.1 hx with rfl | hx
      · exact le_rfl
      · exact le_trans (hexec _ _ _ _ hcall).pos_le (ih x hx)

/-- Each call stops reading before the next begins. -/
theorem Session.pairwise (hexec : ∀ call, Local (exec call)) (h : Session exec c made c') :
    made.Pairwise fun x y => x.stop ≤ y.start := by
  induction h with
  | nil => exact List.Pairwise.nil
  | cons hcall hrest ih => exact List.Pairwise.cons (hrest.start_le hexec) ih

/-- Each call returns the same on every stream that agrees on the part it read. -/
theorem Session.exec_eq (hexec : ∀ call, Local (exec call)) (h : Session exec c made c') :
    ∀ x ∈ made, ∀ stream, AgreeOn x.start x.stop c.stream stream →
      exec x.call ⟨stream, x.start⟩ = some (x.output, ⟨stream, x.stop⟩) := by
  induction h with
  | nil => exact fun x hx => (List.not_mem_nil hx).elim
  | cons hcall _ ih =>
      intro x hx
      have hreads := hexec _ _ _ _ hcall
      rcases List.mem_cons.1 hx with rfl | hx
      · exact hreads.eq_of_agreeOn
      · rw [← hreads.stream_eq]
        exact ih x hx

end StreamReader
