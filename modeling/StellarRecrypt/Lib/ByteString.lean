import Mathlib.Data.Nat.Count
import Mathlib.Data.Nat.Digits.Lemmas

/-!
# ByteString — fixed-width blocks, slices and little-endian numbers

Byte strings are lists of `UInt8`.  A block `Bytes n` is a byte string that carries the proof of
its length, as a `[u8; n]` does.  The module provides what a hand-written binary format needs:

* reading a range of a byte string, and how ranges of a concatenation are found again;
* cutting a string of known length into a block and the rest;
* numbers written in little-endian order on a fixed number of bytes, and how many blocks there are
  with a property of their number;
* numbers that are evaluated before they are used, for the functions that compute on blocks.
-/

namespace ByteString

/-- A byte string literal `b"…"`. -/
def ascii (s : String) : List UInt8 :=
  s.toList.map Char.toUInt8

/-! ## Slices -/

/-- The bytes of `l` at positions `i, …, j - 1`. -/
def slice (l : List UInt8) (i j : Nat) : List UInt8 :=
  (l.drop i).take (j - i)

@[simp] theorem slice_zero (l : List UInt8) (j : Nat) : slice l 0 j = l.take j := by
  simp [slice]

/-- A range inside the left part of a concatenation only sees that part. -/
theorem slice_append_left (l m : List UInt8) {i j : Nat} (h : j ≤ l.length) :
    slice (l ++ m) i j = slice l i j := by
  by_cases hi : i ≤ l.length
  · rw [slice, slice, List.drop_append_of_le_length hi,
      List.take_append_of_le_length (by rw [List.length_drop]; omega)]
  · have hij : j - i = 0 := by omega
    simp [slice, hij]

/-- A range inside the right part of a concatenation, at the shifted offsets. -/
theorem slice_append_right (l m : List UInt8) {i j : Nat} (h : l.length ≤ i) :
    slice (l ++ m) i j = slice m (i - l.length) (j - l.length) := by
  have hsub : j - l.length - (i - l.length) = j - i := by omega
  rw [slice, slice, hsub, List.drop_append, List.drop_eq_nil_of_le h, List.nil_append]

/-! ## Blocks -/

/-- A byte string of exactly `n` bytes. -/
@[ext] structure Bytes (n : Nat) where
  toList : List UInt8
  length_eq : toList.length = n
  deriving DecidableEq

namespace Bytes

attribute [simp] length_eq

/-- Reads a byte string as a block, when it has the right length. -/
def ofList? (n : Nat) (l : List UInt8) : Option (Bytes n) :=
  if h : l.length = n then some ⟨l, h⟩ else none

theorem ofList?_eq_some_iff {n : Nat} {l : List UInt8} {b : Bytes n} :
    ofList? n l = some b ↔ l = b.toList := by
  rw [ofList?]
  split
  · rename_i h
    simp [Bytes.ext_iff]
  · rename_i h
    constructor
    · intro hn
      cases hn
    · intro hl
      exact absurd (hl ▸ b.length_eq) h

@[simp] theorem ofList?_toList {n : Nat} (b : Bytes n) : ofList? n b.toList = some b :=
  ofList?_eq_some_iff.2 rfl

/-- The block of `n` copies of one byte. -/
def replicate (n : Nat) (v : UInt8) : Bytes n :=
  ⟨List.replicate n v, List.length_replicate⟩

theorem toList_injective {n : Nat} : Function.Injective (toList (n := n)) :=
  fun _ _ h => Bytes.ext h

end Bytes

/-- A byte string of at least `n` bytes is a block followed by the rest. -/
theorem exists_block_append {n : Nat} {l : List UInt8} (h : n ≤ l.length) :
    ∃ (b : Bytes n) (rest : List UInt8), l = b.toList ++ rest :=
  ⟨⟨l.take n, by rw [List.length_take]; omega⟩, l.drop n, (List.take_append_drop n l).symm⟩

/-- Two concatenations that start with blocks of one width agree part by part. -/
theorem block_append_inj {n : Nat} {a b : Bytes n} {l m : List UInt8} :
    a.toList ++ l = b.toList ++ m ↔ a = b ∧ l = m := by
  constructor
  · intro h
    obtain ⟨h₁, h₂⟩ := List.append_inj h (by rw [a.length_eq, b.length_eq])
    exact ⟨Bytes.ext h₁, h₂⟩
  · rintro ⟨rfl, rfl⟩
    rfl

/-! ## Little-endian numbers -/

/-- The number whose little-endian base-256 digits are the bytes of `l`. -/
def leNat (l : List UInt8) : Nat :=
  Nat.ofDigits 256 (l.map UInt8.toNat)

@[simp] theorem leNat_nil : leNat [] = 0 := rfl

@[simp] theorem leNat_cons (b : UInt8) (l : List UInt8) :
    leNat (b :: l) = b.toNat + 256 * leNat l := by
  simp [leNat, Nat.ofDigits_cons]

theorem leNat_append (l m : List UInt8) :
    leNat (l ++ m) = leNat l + 256 ^ l.length * leNat m := by
  simp [leNat, Nat.ofDigits_append]

theorem leNat_lt (l : List UInt8) : leNat l < 256 ^ l.length := by
  have h := Nat.ofDigits_lt_base_pow_length (b := 256) (l := l.map UInt8.toNat) (by norm_num) (by
    intro d hd
    obtain ⟨b, _, rfl⟩ := List.mem_map.1 hd
    exact b.toNat_lt)
  simpa [leNat] using h

theorem Bytes.leNat_lt {n : Nat} (b : Bytes n) : leNat b.toList < 256 ^ n := by
  simpa using ByteString.leNat_lt b.toList

/-- The `n` low little-endian digits of `k`. -/
def leDigits : Nat → Nat → List UInt8
  | 0, _ => []
  | n + 1, k => UInt8.ofNat (k % 256) :: leDigits n (k / 256)

@[simp] theorem length_leDigits (n k : Nat) : (leDigits n k).length = n := by
  induction n generalizing k with
  | zero => rfl
  | succ n ih => simp [leDigits, ih]

/-- `k` written on `n` bytes, as `to_le_bytes` does. -/
def toLeBytes (n k : Nat) : Bytes n :=
  ⟨leDigits n k, length_leDigits n k⟩

theorem leNat_leDigits (n k : Nat) : leNat (leDigits n k) = k % 256 ^ n := by
  induction n generalizing k with
  | zero => simp [leDigits, Nat.mod_one]
  | succ n ih =>
      have hbyte : (UInt8.ofNat (k % 256)).toNat = k % 256 := by
        simp
      rw [leDigits, leNat_cons, ih, hbyte, pow_succ', Nat.mod_mul]

theorem leDigits_leNat (l : List UInt8) : leDigits l.length (leNat l) = l := by
  induction l with
  | nil => rfl
  | cons b l ih =>
      have hb := b.toNat_lt
      have hmod : (b.toNat + 256 * leNat l) % 256 = b.toNat := by omega
      have hdiv : (b.toNat + 256 * leNat l) / 256 = leNat l := by omega
      simp only [List.length_cons, leNat_cons, leDigits, hmod, hdiv, ih, UInt8.ofNat_toNat]

@[simp] theorem leNat_toLeBytes (n k : Nat) : leNat (toLeBytes n k).toList = k % 256 ^ n :=
  leNat_leDigits n k

theorem leNat_toLeBytes_of_lt {n k : Nat} (h : k < 256 ^ n) :
    leNat (toLeBytes n k).toList = k := by
  rw [leNat_toLeBytes, Nat.mod_eq_of_lt h]

@[simp] theorem toLeBytes_leNat {n : Nat} (b : Bytes n) : toLeBytes n (leNat b.toList) = b := by
  apply Bytes.ext
  have h := leDigits_leNat b.toList
  rwa [b.length_eq] at h

/-- A number below `256 ^ n` and its block of `n` bytes determine each other. -/
theorem toLeBytes_eq_iff {n k : Nat} (h : k < 256 ^ n) (b : Bytes n) :
    toLeBytes n k = b ↔ k = leNat b.toList := by
  constructor
  · rintro rfl
    exact (leNat_toLeBytes_of_lt h).symm
  · rintro rfl
    exact toLeBytes_leNat b

/-! ## Counting -/

/-- Blocks are numbers below `256 ^ n`. -/
def Bytes.equivFin (n : Nat) : Bytes n ≃ Fin (256 ^ n) where
  toFun b := ⟨leNat b.toList, b.leNat_lt⟩
  invFun k := toLeBytes n k.val
  left_inv := toLeBytes_leNat
  right_inv k := Fin.ext (leNat_toLeBytes_of_lt k.isLt)

instance (n : Nat) : Fintype (Bytes n) :=
  Fintype.ofEquiv (Fin (256 ^ n)) (Bytes.equivFin n).symm

/-- A property of the number of a block holds of as many blocks as of numbers. -/
theorem Bytes.card_filter_leNat (n : Nat) (p : Nat → Prop) [DecidablePred p] :
    (Finset.univ.filter fun b : Bytes n => p (leNat b.toList)).card = (256 ^ n).count p := by
  rw [Nat.count_eq_card_filter_range]
  refine Finset.card_nbij' (fun b => leNat b.toList) (fun k => toLeBytes n k) ?_ ?_ ?_ ?_
  · intro b hb
    rw [Finset.mem_coe, Finset.mem_filter] at hb ⊢
    exact ⟨Finset.mem_range.2 b.leNat_lt, hb.2⟩
  · intro k hk
    rw [Finset.mem_coe, Finset.mem_filter, Finset.mem_range] at hk
    rw [Finset.mem_coe, Finset.mem_filter, leNat_toLeBytes_of_lt hk.1]
    exact ⟨Finset.mem_univ _, hk.2⟩
  · intro b _
    exact toLeBytes_leNat b
  · intro k hk
    rw [Finset.mem_coe, Finset.mem_filter, Finset.mem_range] at hk
    exact leNat_toLeBytes_of_lt hk.1

/-! ## Evaluated numbers -/

/-- Evaluates `n` to a literal before `k` uses it more than once: the kernel substitutes an argument
as it stands, and matches on a number only when it is one. -/
def force {α : Type*} (n : Nat) (k : Nat → α) : α :=
  match n with
  | 0 => k 0
  | m + 1 => k (m + 1)

theorem force_eq {α : Type*} (n : Nat) (k : Nat → α) : force n k = k n := by
  cases n <;> rfl

end ByteString
