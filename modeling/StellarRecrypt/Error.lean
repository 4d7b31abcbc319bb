import StellarRecrypt.Lib.ByteString

/-!
# Error — what a call of the crate can end with

`Error` is the crate's error type.  A call may also panic: a slice out of range, an array copied
from a slice of another length, an `expect` on an error, a sum that does not fit in a `usize`.
`Outcome` keeps the two apart, so that the absence of panics is a statement about the model.
-/

namespace StellarRecrypt

open ByteString

/-- `enum Error`. -/
inductive Error
  | invalidStrkey (reason : String)
  | invalidPublicKey
  | invalidPrivateKey
  | decryptionFailed
  | capsuleValidationFailed
  | invalidReencryptionKey
  | encoding (reason : String)
  | crypto (reason : String)
  deriving DecidableEq, Repr

/-- A call that returns no value: it returned an error, or it panicked. -/
inductive Fault
  | err (e : Error)
  | panic
  deriving DecidableEq, Repr

/-- The end of a call: `Ok`, `Err` or a panic. -/
abbrev Outcome (α : Type) := Except Fault α

namespace Outcome

variable {α β : Type}

/-- `Err(e)`. -/
def err (e : Error) : Outcome α := .error (.err e)

def panic : Outcome α := .error .panic

/-- `Option::ok_or`. -/
def okOr (o : Option α) (e : Error) : Outcome α :=
  match o with
  | some a => .ok a
  | none => err e

/-- `Result::expect`: an error becomes a panic. -/
def expect (r : Outcome α) : Outcome α :=
  match r with
  | .ok a => .ok a
  | .error _ => panic

/-- `&bytes[i..j]`. -/
def slice (bytes : List UInt8) (i j : Nat) : Outcome (List UInt8) :=
  if i ≤ j ∧ j ≤ bytes.length then .ok (ByteString.slice bytes i j) else panic

/-- `bytes[i]`. -/
def index (bytes : List UInt8) (i : Nat) : Outcome UInt8 :=
  match bytes[i]? with
  | some b => .ok b
  | none => panic

/-- `copy_from_slice` into a fresh `[u8; n]`; also `try_into().unwrap()` of a slice. -/
def copyFromSlice (n : Nat) (bytes : List UInt8) : Outcome (Bytes n) :=
  match Bytes.ofList? n bytes with
  | some b => .ok b
  | none => panic

/-- A sum of two `usize` values, with overflow checks on. -/
def usizeAdd (usizeBits m n : Nat) : Outcome Nat :=
  if m + n < 2 ^ usizeBits then .ok (m + n) else panic

/-! ## When a call succeeds -/

@[simp] theorem err_ne_ok (e : Error) (a : α) : (err e : Outcome α) ≠ .ok a := by
  intro h
  cases h

@[simp] theorem panic_ne_ok (a : α) : (panic : Outcome α) ≠ .ok a := by
  intro h
  cases h

@[simp] theorem err_inj {e e' : Error} : (err e : Outcome α) = err e' ↔ e = e' := by
  simp [err]

theorem bind_eq_ok_iff {x : Outcome α} {f : α → Outcome β} {b : β} :
    (x >>= f) = .ok b ↔ ∃ a, x = .ok a ∧ f a = .ok b := by
  cases x with
  | error e => simp [bind, Except.bind]
  | ok a => simp [bind, Except.bind]

@[simp] theorem ok_bind (a : α) (f : α → Outcome β) : ((.ok a : Outcome α) >>= f) = f a := rfl

@[simp] theorem err_bind (e : Error) (f : α → Outcome β) : (err e >>= f) = err e := rfl

@[simp] theorem panic_bind (f : α → Outcome β) : ((panic : Outcome α) >>= f) = panic := rfl

theorem okOr_eq_ok_iff {o : Option α} {e : Error} {a : α} : okOr o e = .ok a ↔ o = some a := by
  cases o <;> simp [okOr]

@[simp] theorem okOr_some (a : α) (e : Error) : okOr (some a) e = .ok a := rfl

theorem okOr_bind_eq_ok_iff {o : Option α} {e : Error} {f : α → Outcome β} {b : β} :
    (okOr o e >>= f) = .ok b ↔ ∃ a, o = some a ∧ f a = .ok b := by
  rw [bind_eq_ok_iff]
  simp only [okOr_eq_ok_iff]

theorem expect_eq_ok_iff {r : Outcome α} {a : α} : expect r = .ok a ↔ r = .ok a := by
  cases r <;> simp [expect]

/-- Reading a range that is one of the parts of the input. -/
theorem slice_eq_ok {bytes mid : List UInt8} {i j : Nat} (pre post : List UInt8)
    (h : bytes = pre ++ mid ++ post) (hi : pre.length = i) (hj : i + mid.length = j) :
    slice bytes i j = .ok mid := by
  subst h hi hj
  have hrange : pre.length ≤ pre.length + mid.length ∧
      pre.length + mid.length ≤ (pre ++ mid ++ post).length := by
    simp
  rw [slice, if_pos hrange, List.append_assoc, slice_append_right _ _ le_rfl,
    slice_append_left _ _ (by simp), Nat.sub_self, Nat.add_sub_cancel_left, slice_zero,
    List.take_length]

@[simp] theorem copyFromSlice_toList {n : Nat} (b : Bytes n) :
    copyFromSlice n b.toList = .ok b := by
  rw [copyFromSlice, Bytes.ofList?_toList]

theorem usizeAdd_eq_ok {usizeBits m n : Nat} (h : m + n < 2 ^ usizeBits) :
    usizeAdd usizeBits m n = .ok (m + n) := if_pos h

/-! ## When a call returns -/

@[simp] theorem ok_ne_panic (a : α) : (.ok a : Outcome α) ≠ panic := by
  intro h
  cases h

@[simp] theorem err_ne_panic (e : Error) : (err e : Outcome α) ≠ panic := by
  intro h
  cases h

@[simp] theorem okOr_ne_panic (o : Option α) (e : Error) : okOr o e ≠ panic := by
  cases o
  · exact err_ne_panic e
  · exact ok_ne_panic _

theorem bind_ne_panic {x : Outcome α} {f : α → Outcome β} (hx : x ≠ panic)
    (hf : ∀ a, x = .ok a → f a ≠ panic) : (x >>= f) ≠ panic := by
  match x, hx, hf with
  | .ok a, _, hf => exact hf a rfl
  | .error (.err e), _, _ => exact err_ne_panic e
  | .error .panic, hx, _ => exact absurd rfl hx

theorem bind_eq_panic_iff {x : Outcome α} {f : α → Outcome β} :
    (x >>= f) = panic ↔ x = panic ∨ ∃ a, x = .ok a ∧ f a = panic := by
  constructor
  · intro h
    by_contra hnot
    rw [not_or, not_exists] at hnot
    exact bind_ne_panic hnot.1 (fun a ha hf => hnot.2 a ⟨ha, hf⟩) h
  · rintro (rfl | ⟨a, rfl, hf⟩)
    · exact panic_bind f
    · rw [ok_bind, hf]

/-- After a part that cannot panic, the rest panics. -/
theorem bind_eq_panic_iff_of_ne_panic {x : Outcome α} {f : α → Outcome β} (hx : x ≠ panic) :
    (x >>= f) = panic ↔ ∃ a, x = .ok a ∧ f a = panic := by
  rw [bind_eq_panic_iff, or_iff_right hx]

/-- Before a part that cannot panic, the first part panics. -/
theorem bind_eq_panic_iff_left {x : Outcome α} {f : α → Outcome β} (hf : ∀ a, f a ≠ panic) :
    (x >>= f) = panic ↔ x = panic := by
  rw [bind_eq_panic_iff, or_iff_left]
  rintro ⟨a, _, hpanic⟩
  exact hf a hpanic

theorem okOr_bind_eq_panic_iff {o : Option α} {e : Error} {f : α → Outcome β} :
    (okOr o e >>= f) = panic ↔ ∃ a, o = some a ∧ f a = panic := by
  rw [bind_eq_panic_iff_of_ne_panic (okOr_ne_panic o e)]
  simp only [okOr_eq_ok_iff]

/-- A sum panics exactly when it does not fit. -/
theorem usizeAdd_eq_panic_iff {usizeBits m n : Nat} :
    usizeAdd usizeBits m n = panic ↔ 2 ^ usizeBits ≤ m + n := by
  rw [usizeAdd]
  split
  · rename_i h
    constructor
    · intro heq
      exact absurd heq (ok_ne_panic _)
    · intro hle
      exact absurd h (Nat.not_lt.2 hle)
  · rename_i h
    exact ⟨fun _ => Nat.le_of_not_lt h, fun _ => rfl⟩

/-- A call that does not panic returns a value or an error. -/
theorem exists_err_of_ne_panic {x : Outcome α} (hx : x ≠ panic) (hok : ∀ a, x ≠ .ok a) :
    ∃ e, x = err e := by
  match x, hx, hok with
  | .ok a, _, hok => exact absurd rfl (hok a)
  | .error (.err e), _, _ => exact ⟨e, rfl⟩
  | .error .panic, hx, _ => exact absurd rfl hx

end Outcome

end StellarRecrypt
