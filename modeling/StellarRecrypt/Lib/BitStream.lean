import Mathlib.Data.Nat.Bitwise

/-!
# BitStream — digits of a fixed width as strings of bits

A codec that repacks 8-bit digits as 5-bit digits, or back, moves the same bits through an
accumulator.  `bits w n` is the string of the `w` low bits of `n`, most significant first;
`stream w l` joins the strings of a list of digits.  The module gives what the two directions of
such a codec need: shifting a digit into an accumulator appends its bits, shifting bits out splits
the string, and a stream determines its digits.  The last section counts the places where two
strings differ.
-/

namespace BitStream

/-- The `w` low bits of `n`, most significant first. -/
def bits : Nat → Nat → List Bool
  | 0, _ => []
  | w + 1, n => n.testBit w :: bits w n

@[simp] theorem bits_zero (n : Nat) : bits 0 n = [] := rfl

@[simp] theorem length_bits (w n : Nat) : (bits w n).length = w := by
  induction w with
  | zero => rfl
  | succ w ih => simp [bits, ih]

theorem bits_zero_right (w : Nat) : bits w 0 = List.replicate w false := by
  induction w with
  | zero => rfl
  | succ w ih => rw [bits, ih, Nat.zero_testBit, List.replicate_succ]

/-- Exclusive or of digits is exclusive or of their strings. -/
theorem bits_xor (w m n : Nat) :
    bits w (m ^^^ n) = List.zipWith xor (bits w m) (bits w n) := by
  induction w with
  | zero => rfl
  | succ w ih => rw [bits, bits, bits, List.zipWith_cons_cons, ih, Nat.testBit_xor]

/-- Only the low bits matter. -/
theorem bits_congr {w m n : Nat} (h : ∀ i < w, m.testBit i = n.testBit i) :
    bits w m = bits w n := by
  induction w with
  | zero => rfl
  | succ w ih =>
      rw [bits, bits, h w (Nat.lt_succ_self w), ih fun i hi => h i (Nat.lt_succ_of_lt hi)]

theorem testBit_eq_of_bits_eq {w m n : Nat} (h : bits w m = bits w n) :
    ∀ i < w, m.testBit i = n.testBit i := by
  induction w with
  | zero =>
      intro i hi
      exact absurd hi (Nat.not_lt_zero i)
  | succ w ih =>
      intro i hi
      rw [bits, bits, List.cons.injEq] at h
      rcases Nat.lt_succ_iff_lt_or_eq.1 hi with hi | rfl
      · exact ih h.2 i hi
      · exact h.1

/-- A digit of width `w` is determined by its bits. -/
theorem bits_inj {w m n : Nat} (hm : m < 2 ^ w) (hn : n < 2 ^ w) :
    bits w m = bits w n ↔ m = n := by
  constructor
  · intro h
    apply Nat.eq_of_testBit_eq
    intro i
    by_cases hi : i < w
    · exact testBit_eq_of_bits_eq h i hi
    · have hpow : 2 ^ w ≤ 2 ^ i := Nat.pow_le_pow_right Nat.two_pos (by omega)
      rw [Nat.testBit_lt_two_pow (lt_of_lt_of_le hm hpow),
        Nat.testBit_lt_two_pow (lt_of_lt_of_le hn hpow)]
  · rintro rfl
    rfl

/-- The string splits at any position. -/
theorem bits_add (a b n : Nat) : bits (a + b) n = bits a (n >>> b) ++ bits b n := by
  induction a with
  | zero => simp
  | succ a ih =>
      rw [Nat.succ_add, bits, ih, bits, Nat.testBit_shiftRight, Nat.add_comm b a, List.cons_append]

theorem bits_mod_two_pow {w k : Nat} (h : w ≤ k) (n : Nat) : bits w (n % 2 ^ k) = bits w n := by
  apply bits_congr
  intro i hi
  rw [Nat.testBit_mod_two_pow]
  simp [lt_of_lt_of_le hi h]

/-- Every string of bits is that of a digit of its width. -/
theorem exists_bits_eq (l : List Bool) : ∃ n < 2 ^ l.length, bits l.length n = l := by
  induction l with
  | nil => exact ⟨0, Nat.one_pos, rfl⟩
  | cons b l ih =>
      rcases ih with ⟨n, hn, hbits⟩
      have hlt : b.toNat * 2 ^ l.length + n < 2 ^ (l.length + 1) := by
        have hb : b.toNat * 2 ^ l.length ≤ 1 * 2 ^ l.length :=
          Nat.mul_le_mul_right _ (Bool.toNat_le b)
        omega
      refine ⟨b.toNat * 2 ^ l.length + n, hlt, ?_⟩
      have htop : (b.toNat * 2 ^ l.length + n).testBit l.length = b := by
        rw [Nat.testBit_eq_decide_div_mod_eq, Nat.mul_comm, Nat.mul_add_div (Nat.two_pow_pos _),
          Nat.div_eq_of_lt hn]
        cases b <;> rfl
      have hlow : bits l.length (b.toNat * 2 ^ l.length + n) = bits l.length n := by
        rw [← bits_mod_two_pow le_rfl, Nat.mul_add_mod_self_right, Nat.mod_eq_of_lt hn]
      rw [List.length_cons, bits, htop, hlow, hbits]

/-- Masking with `2 ^ w - 1` keeps the `w` low bits. -/
theorem bits_and_mask (w n : Nat) : bits w (n &&& (2 ^ w - 1)) = bits w n := by
  rw [Nat.and_two_pow_sub_one_eq_mod, bits_mod_two_pow le_rfl]

/-- A digit of width `b` has leading zeros in a wider string. -/
theorem bits_of_lt {a b n : Nat} (hn : n < 2 ^ b) :
    bits (a + b) n = List.replicate a false ++ bits b n := by
  rw [bits_add, Nat.shiftRight_eq_div_pow, Nat.div_eq_of_lt hn, bits_zero_right]

/-- Shifting a digit of width `b` into an accumulator appends its bits. -/
theorem bits_shiftLeft_or {a b m n : Nat} (hn : n < 2 ^ b) :
    bits (a + b) (m <<< b ||| n) = bits a m ++ bits b n := by
  rw [bits_add]
  congr 1
  · apply bits_congr
    intro i _
    have hpow : 2 ^ b ≤ 2 ^ (b + i) := Nat.pow_le_pow_right Nat.two_pos (by omega)
    rw [Nat.testBit_shiftRight, Nat.testBit_or, Nat.testBit_shiftLeft,
      Nat.testBit_lt_two_pow (lt_of_lt_of_le hn hpow)]
    simp
  · apply bits_congr
    intro i hi
    rw [Nat.testBit_or, Nat.testBit_shiftLeft]
    simp [Nat.not_le.2 hi]

/-- Padding on the right with zero bits. -/
theorem bits_shiftLeft (a b n : Nat) :
    bits (a + b) (n <<< b) = bits a n ++ List.replicate b false := by
  have h := bits_shiftLeft_or (a := a) (m := n) (Nat.two_pow_pos b)
  rwa [Nat.or_zero, bits_zero_right] at h

/-! ## Streams -/

/-- The bits of a list of digits of width `w`. -/
def stream (w : Nat) (l : List Nat) : List Bool :=
  l.flatMap (bits w)

@[simp] theorem stream_nil (w : Nat) : stream w [] = [] := rfl

@[simp] theorem stream_cons (w n : Nat) (l : List Nat) :
    stream w (n :: l) = bits w n ++ stream w l := by
  simp [stream]

@[simp] theorem stream_append (w : Nat) (l m : List Nat) :
    stream w (l ++ m) = stream w l ++ stream w m := by
  simp [stream]

@[simp] theorem length_stream (w : Nat) (l : List Nat) : (stream w l).length = w * l.length := by
  induction l with
  | nil => simp
  | cons n l ih =>
      simp only [stream_cons, List.length_append, length_bits, ih, List.length_cons]
      rw [Nat.mul_succ, Nat.add_comm]

/-- Streams of digits that agree on a common prefix of digits: the digits agree. -/
theorem stream_append_inj {w : Nat} {l m : List Nat} {s t : List Bool} (hlen : l.length = m.length)
    (hl : ∀ n ∈ l, n < 2 ^ w) (hm : ∀ n ∈ m, n < 2 ^ w) :
    stream w l ++ s = stream w m ++ t ↔ l = m ∧ s = t := by
  constructor
  · intro h
    induction l generalizing m with
    | nil =>
        cases m with
        | nil => exact ⟨rfl, h⟩
        | cons n m => simp at hlen
    | cons n l ih =>
        cases m with
        | nil => simp at hlen
        | cons n' m =>
            simp only [stream_cons, List.append_assoc] at h
            obtain ⟨hhead, htail⟩ := List.append_inj h (by simp)
            have hn : n = n' :=
              (bits_inj (hl n List.mem_cons_self) (hm n' List.mem_cons_self)).1 hhead
            obtain ⟨rfl, hst⟩ := ih (by simpa using hlen)
              (fun k hk => hl k (List.mem_cons_of_mem _ hk))
              (fun k hk => hm k (List.mem_cons_of_mem _ hk)) htail
            exact ⟨by rw [hn], hst⟩
  · rintro ⟨rfl, rfl⟩
    rfl

/-- A stream determines its digits. -/
theorem stream_inj {w : Nat} (hw : 0 < w) {l m : List Nat} (hl : ∀ n ∈ l, n < 2 ^ w)
    (hm : ∀ n ∈ m, n < 2 ^ w) : stream w l = stream w m ↔ l = m := by
  constructor
  · intro h
    have hlength := congrArg List.length h
    rw [length_stream, length_stream] at hlength
    have hlen := Nat.eq_of_mul_eq_mul_left hw hlength
    exact ((stream_append_inj hlen hl hm).1 (congrArg (· ++ []) h)).1
  · rintro rfl
    rfl

/-! ## Distance -/

/-- The number of places where two strings of one length differ. -/
def distance (l m : List Bool) : Nat :=
  (List.zipWith xor l m).count true

@[simp] theorem distance_nil : distance [] [] = 0 := rfl

theorem distance_append {l l' m m' : List Bool} (h : l.length = l'.length) :
    distance (l ++ m) (l' ++ m') = distance l l' + distance m m' := by
  rw [distance, List.zipWith_append h, List.count_append, distance, distance]

@[simp] theorem distance_self (l : List Bool) : distance l l = 0 := by
  rw [distance, List.zipWith_self, List.count_eq_zero]
  intro h
  rcases List.mem_map.1 h with ⟨b, _, hb⟩
  rw [Bool.xor_self] at hb
  exact Bool.false_ne_true hb

theorem eq_of_distance_eq_zero {l m : List Bool} (hlen : l.length = m.length)
    (h : distance l m = 0) : l = m := by
  induction l generalizing m with
  | nil => exact (List.length_eq_zero_iff.1 hlen.symm).symm
  | cons b l ih =>
      cases m with
      | nil => simp at hlen
      | cons c m =>
          rw [distance, List.zipWith_cons_cons, List.count_cons, Nat.add_eq_zero_iff] at h
          have hhead : b = c := by
            cases b <;> cases c <;> simp at h <;> rfl
          rw [hhead, ih (Nat.succ.inj hlen) h.1]

end BitStream
