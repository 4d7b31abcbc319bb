import Mathlib.Algebra.Field.ZMod
import Mathlib.Algebra.Polynomial.FieldDivision
import Mathlib.Algebra.Polynomial.Div

/-!
# CyclicCode — polynomial check symbols and bursts of errors

A word over a field is the list of the coefficients of a polynomial, highest first.  Its check is
the remainder of the shifted word modulo a monic generator.  Two words have one check exactly when
the generator divides their difference; when the generator has a constant term, words that differ
only inside a window not longer than its degree have different checks.  Over two elements, words
that differ in few places have different checks as long as the generator divides no short
`X ^ k + 1`.
-/

namespace CyclicCode

open Polynomial

variable {F : Type} [Field F]

/-- The polynomial with the given coefficients, highest first. -/
noncomputable def ofCoeffs : List F → F[X]
  | [] => 0
  | a :: l => C a * X ^ l.length + ofCoeffs l

@[simp] theorem ofCoeffs_nil : ofCoeffs ([] : List F) = 0 := rfl

theorem ofCoeffs_cons (a : F) (l : List F) :
    ofCoeffs (a :: l) = C a * X ^ l.length + ofCoeffs l := rfl

/-- Appending coefficients shifts what was there. -/
theorem ofCoeffs_append (l m : List F) :
    ofCoeffs (l ++ m) = ofCoeffs l * X ^ m.length + ofCoeffs m := by
  induction l with
  | nil => simp
  | cons a l ih =>
      rw [List.cons_append, ofCoeffs_cons, ofCoeffs_cons, ih, List.length_append]
      ring

theorem degree_ofCoeffs_lt (l : List F) : (ofCoeffs l).degree < l.length := by
  induction l with
  | nil =>
      rw [ofCoeffs_nil, degree_zero]
      exact WithBot.bot_lt_coe _
  | cons a l ih =>
      have hhead : (C a * X ^ l.length).degree < ((a :: l).length : WithBot ℕ) := by
        refine lt_of_le_of_lt (degree_C_mul_X_pow_le _ _) ?_
        exact_mod_cast Nat.lt_succ_self l.length
      have htail : (ofCoeffs l).degree < ((a :: l).length : WithBot ℕ) := by
        refine lt_trans ih ?_
        exact_mod_cast Nat.lt_succ_self l.length
      exact lt_of_le_of_lt (degree_add_le _ _) (max_lt hhead htail)

/-- Words of one length are determined by their polynomials. -/
theorem ofCoeffs_inj {l m : List F} (hlen : l.length = m.length) :
    ofCoeffs l = ofCoeffs m ↔ l = m := by
  constructor
  · intro h
    induction l generalizing m with
    | nil =>
        cases m with
        | nil => rfl
        | cons b m => simp at hlen
    | cons a l ih =>
        cases m with
        | nil => simp at hlen
        | cons b m =>
            have hlen' : l.length = m.length := Nat.succ.inj hlen
            -- the head is the coefficient above the degree of the rest
            have hcoeff : ∀ (c : F) (k : List F), (ofCoeffs (c :: k)).coeff k.length = c := by
              intro c k
              rw [ofCoeffs_cons, coeff_add, coeff_C_mul_X_pow, if_pos rfl,
                coeff_eq_zero_of_degree_lt (degree_ofCoeffs_lt k), add_zero]
            have hhead : a = b := by
              rw [← hcoeff a l, h, hlen', hcoeff b m]
            rw [ofCoeffs_cons, ofCoeffs_cons, hhead, hlen', add_right_inj] at h
            rw [hhead, ih hlen' h]
  · rintro rfl
    rfl

/-! ## Windows -/

/-- A window in two words, each of two parts, lies in the first parts, in the second parts or across
the border. -/
theorem window_cases {α : Type} {D D' K K' pre w w' post : List α} (hD : D.length = D'.length)
    (hlen : w.length = w'.length) (h : D ++ K = pre ++ w ++ post)
    (h' : D' ++ K' = pre ++ w' ++ post) :
    (∃ rest, D = pre ++ w ++ rest ∧ D' = pre ++ w' ++ rest ∧ K = K') ∨
      (∃ rest, D = D' ∧ K = rest ++ w ++ post ∧ K' = rest ++ w' ++ post) ∨
      ∃ a a' b b', w = a ++ b ∧ w' = a' ++ b' ∧ a.length = a'.length ∧ b.length = b'.length ∧
        D = pre ++ a ∧ D' = pre ++ a' ∧ K = b ++ post ∧ K' = b' ++ post := by
  rw [List.append_assoc] at h
  rcases List.append_eq_append_iff.1 h with ⟨rest, hpre, hK⟩ | ⟨tail, hfirst, hwindow⟩
  · -- the window starts after the first part
    rw [hpre, List.append_assoc, List.append_assoc] at h'
    rcases List.append_inj h' hD.symm with ⟨hsame, hK'⟩
    refine Or.inr (Or.inl ⟨rest, hsame.symm, ?_, ?_⟩)
    · rw [hK, List.append_assoc]
    · rw [hK', List.append_assoc]
  rcases List.append_eq_append_iff.1 hwindow with ⟨rest, htail, hpost⟩ | ⟨b, hsplit, hK⟩
  · -- it ends inside the first part
    rw [htail, ← List.append_assoc] at hfirst
    rw [hpost, ← List.append_assoc] at h'
    have hlength : D'.length = (pre ++ w' ++ rest).length := by
      rw [← hD, hfirst]
      simp only [List.length_append, hlen]
    rcases List.append_inj h' hlength with ⟨hfirst', hK⟩
    exact Or.inl ⟨rest, hfirst, hfirst', hK.symm⟩
  · -- it crosses, so the other window is cut at the same place
    rw [hsplit, List.length_append] at hlen
    have ha : tail.length = (w'.take tail.length).length := by
      rw [List.length_take]
      omega
    have hb : b.length = (w'.drop tail.length).length := by
      rw [List.length_drop]
      omega
    have hsplit' := (List.take_append_drop tail.length w').symm
    have hwhole : D' ++ K' =
        pre ++ w'.take tail.length ++ (w'.drop tail.length ++ post) := by
      calc D' ++ K'
          = pre ++ (w'.take tail.length ++ w'.drop tail.length) ++ post := by rw [h', ← hsplit']
        _ = pre ++ w'.take tail.length ++ (w'.drop tail.length ++ post) := by
            simp only [List.append_assoc]
    have hlength : D'.length = (pre ++ w'.take tail.length).length := by
      rw [← hD, hfirst, List.length_append, List.length_append, ← ha]
    rcases List.append_inj hwhole hlength with ⟨hfirst', hK'⟩
    exact Or.inr (Or.inr ⟨tail, _, b, _, hsplit, hsplit', ha, hb, hfirst, hfirst', hK, hK'⟩)

/-- The words agree outside some `n` consecutive positions. -/
def DifferWithin {α : Type} (n : Nat) (l m : List α) : Prop :=
  ∃ i, ∀ j, j < i ∨ i + n ≤ j → l[j]? = m[j]?

/-- Words of one length differ only within `n` consecutive positions exactly when they are one word
with a window of at most `n` replaced. -/
theorem differWithin_iff {α : Type} {n : Nat} {l m : List α} (hlen : l.length = m.length) :
    DifferWithin n l m ↔ ∃ pre w w' post : List α, l = pre ++ w ++ post ∧
      m = pre ++ w' ++ post ∧ w.length = w'.length ∧ w.length ≤ n := by
  constructor
  · rintro ⟨i, hagree⟩
    have hpre : l.take i = m.take i := by
      apply List.ext_getElem?
      intro j
      by_cases hj : j < i
      · rw [List.getElem?_take_of_lt hj, List.getElem?_take_of_lt hj, hagree j (Or.inl hj)]
      · rw [List.getElem?_take_eq_none (Nat.le_of_not_lt hj),
          List.getElem?_take_eq_none (Nat.le_of_not_lt hj)]
    have hpost : (l.drop i).drop n = (m.drop i).drop n := by
      rw [List.drop_drop, List.drop_drop]
      apply List.ext_getElem?
      intro j
      rw [List.getElem?_drop, List.getElem?_drop]
      exact hagree _ (Or.inr (Nat.le_add_right _ _))
    have hsplit : ∀ k : List α, k = k.take i ++ (k.drop i).take n ++ (k.drop i).drop n := by
      intro k
      rw [List.append_assoc, List.take_append_drop, List.take_append_drop]
    refine ⟨l.take i, (l.drop i).take n, (m.drop i).take n, (l.drop i).drop n, hsplit l, ?_, ?_, ?_⟩
    · rw [hpre, hpost]
      exact hsplit m
    · simp only [List.length_take, List.length_drop, hlen]
    · exact List.length_take_le _ _
  · rintro ⟨pre, w, w', post, rfl, rfl, hwindow, hn⟩
    refine ⟨pre.length, fun j hj => ?_⟩
    rw [List.append_assoc, List.append_assoc]
    rcases hj with hbefore | hafter
    · rw [List.getElem?_append_left hbefore, List.getElem?_append_left hbefore]
    · -- behind the window the positions count from its end
      rw [List.getElem?_append_right (by omega), List.getElem?_append_right (by omega),
        List.getElem?_append_right (by omega), List.getElem?_append_right (by omega), hwindow]

/-! ## Bursts -/

variable {g : F[X]}

/-- A generator with a constant term has nothing in common with a shift. -/
theorem isCoprime_X_pow (h0 : g.coeff 0 ≠ 0) (n : ℕ) : IsCoprime g (X ^ n) := by
  have hirreducible : Irreducible (X : F[X]) := irreducible_X
  have hX : IsCoprime X g :=
    hirreducible.coprime_iff_not_dvd.2 fun h => h0 (X_dvd_iff.1 h)
  exact hX.symm.pow_right

/-- Words that agree outside a window differ by the shifted difference of the windows. -/
theorem ofCoeffs_sub_of_window {pre w w' post : List F} (hlen : w.length = w'.length) :
    ofCoeffs (pre ++ w ++ post) - ofCoeffs (pre ++ w' ++ post) =
      (ofCoeffs w - ofCoeffs w') * X ^ post.length := by
  simp only [ofCoeffs_append, hlen]
  ring

/-- Residues modulo the generator are told apart below its degree. -/
theorem eq_of_dvd_sub_of_degree_lt {p q : F[X]} (hp : p.degree < g.degree)
    (hq : q.degree < g.degree) (h : g ∣ p - q) : p = q := by
  have hdegree : (p - q).degree < g.degree :=
    lt_of_le_of_lt (degree_sub_le p q) (max_lt hp hq)
  exact sub_eq_zero.1 (eq_zero_of_dvd_of_degree_lt h hdegree)

/-- A nonzero word shorter than the generator is no multiple of it. -/
theorem eq_of_dvd_sub {w w' : List F} (hlen : w.length = w'.length) (hw : w.length ≤ g.natDegree)
    (hg : g ≠ 0) (h : g ∣ ofCoeffs w - ofCoeffs w') : w = w' := by
  have hbound : ∀ v : List F, v.length ≤ g.natDegree → (ofCoeffs v).degree < g.degree := by
    intro v hv
    rw [degree_eq_natDegree hg]
    exact lt_of_lt_of_le (degree_ofCoeffs_lt v) (by exact_mod_cast hv)
  exact (ofCoeffs_inj hlen).1
    (eq_of_dvd_sub_of_degree_lt (hbound w hw) (hbound w' (hlen ▸ hw)) h)

/-- A burst not longer than the generator is not divisible by it. -/
theorem eq_of_dvd_burst (h0 : g.coeff 0 ≠ 0) {pre w w' post : List F}
    (hlen : w.length = w'.length) (hw : w.length ≤ g.natDegree)
    (h : g ∣ ofCoeffs (pre ++ w ++ post) - ofCoeffs (pre ++ w' ++ post)) : w = w' := by
  have hg : g ≠ 0 := by
    rintro rfl
    exact h0 (coeff_zero 0)
  rw [ofCoeffs_sub_of_window hlen] at h
  exact eq_of_dvd_sub hlen hw hg ((isCoprime_X_pow h0 post.length).dvd_of_dvd_mul_right h)

/-! ## Checks -/

/-- The remainder of the word shifted by the degree of the generator. -/
noncomputable def check (g : F[X]) (l : List F) : F[X] :=
  (ofCoeffs l * X ^ g.natDegree) %ₘ g

/-- A polynomial below the degree of the generator that is congruent to the shifted word is its
check. -/
theorem eq_check_of_dvd_sub (hg : g.Monic) {l : List F} {p : F[X]} (hp : p.degree < g.degree)
    (h : g ∣ p - ofCoeffs l * X ^ g.natDegree) : p = check g l := by
  rw [check, ← modByMonic_eq_of_dvd_sub hg h, (modByMonic_eq_self_iff hg).2 hp]

theorem dvd_sub_check (g : F[X]) (l : List F) :
    g ∣ ofCoeffs l * X ^ g.natDegree - check g l := by
  refine ⟨(ofCoeffs l * X ^ g.natDegree) /ₘ g, ?_⟩
  rw [check, sub_eq_iff_eq_add, add_comm, modByMonic_add_div]

/-- Two words have one check exactly when the generator divides their difference. -/
theorem check_eq_check_iff (hg : g.Monic) (h0 : g.coeff 0 ≠ 0) {l m : List F} :
    check g l = check g m ↔ g ∣ ofCoeffs l - ofCoeffs m := by
  have hshift : ofCoeffs l * X ^ g.natDegree - ofCoeffs m * X ^ g.natDegree =
      (ofCoeffs l - ofCoeffs m) * X ^ g.natDegree :=
    (sub_mul _ _ _).symm
  constructor
  · intro h
    have hdvd := dvd_sub (dvd_sub_check g l) (dvd_sub_check g m)
    rw [h, sub_sub_sub_cancel_right, hshift] at hdvd
    exact (isCoprime_X_pow h0 g.natDegree).dvd_of_dvd_mul_right hdvd
  · intro h
    refine modByMonic_eq_of_dvd_sub hg ?_
    rw [hshift]
    exact h.mul_right _

/-- Bursts not longer than the degree of the generator change the check. -/
theorem eq_of_check_eq_of_window (hg : g.Monic) (h0 : g.coeff 0 ≠ 0) {pre w w' post : List F}
    (hlen : w.length = w'.length) (hw : w.length ≤ g.natDegree)
    (h : check g (pre ++ w ++ post) = check g (pre ++ w' ++ post)) : w = w' :=
  eq_of_dvd_burst h0 hlen hw ((check_eq_check_iff hg h0).1 h)

/-! ## Weights

Over the field of two elements the weight of a word counts its ones.
-/

/-- The number of ones. -/
def weight (l : List (ZMod 2)) : Nat :=
  l.count 1

@[simp] theorem weight_nil : weight [] = 0 := rfl

@[simp] theorem weight_zero_cons (l : List (ZMod 2)) : weight (0 :: l) = weight l := by
  simp [weight]

@[simp] theorem weight_one_cons (l : List (ZMod 2)) : weight (1 :: l) = weight l + 1 := by
  simp [weight]

theorem eq_zero_or_one (a : ZMod 2) : a = 0 ∨ a = 1 := by
  revert a
  decide

/-- The value at one is the parity of the weight. -/
theorem eval_one_ofCoeffs (l : List (ZMod 2)) : (ofCoeffs l).eval 1 = (weight l : ZMod 2) := by
  induction l with
  | nil => simp
  | cons a l ih =>
      rw [ofCoeffs_cons, eval_add, ih]
      rcases eq_zero_or_one a with rfl | rfl
      · simp
      · simp [add_comm]

theorem ofCoeffs_zero_cons (l : List (ZMod 2)) : ofCoeffs (0 :: l) = ofCoeffs l := by
  rw [ofCoeffs_cons, C_0, zero_mul, zero_add]

theorem ofCoeffs_one_cons (l : List (ZMod 2)) : ofCoeffs (1 :: l) = X ^ l.length + ofCoeffs l := by
  rw [ofCoeffs_cons, C_1, one_mul]

theorem ofCoeffs_of_weight_zero {l : List (ZMod 2)} (h : weight l = 0) : ofCoeffs l = 0 := by
  induction l with
  | nil => rfl
  | cons a l ih =>
      rcases eq_zero_or_one a with rfl | rfl
      · rw [weight_zero_cons] at h
        rw [ofCoeffs_zero_cons, ih h]
      · rw [weight_one_cons] at h
        exact absurd h (Nat.succ_ne_zero _)

/-- One one is a power. -/
theorem exists_of_weight_one {l : List (ZMod 2)} (h : weight l = 1) :
    ∃ m < l.length, ofCoeffs l = X ^ m := by
  induction l with
  | nil => exact absurd h Nat.zero_ne_one
  | cons a l ih =>
      rcases eq_zero_or_one a with rfl | rfl
      · rw [weight_zero_cons] at h
        rcases ih h with ⟨m, hm, hpow⟩
        exact ⟨m, Nat.lt_succ_of_lt hm, (ofCoeffs_zero_cons l).trans hpow⟩
      · rw [weight_one_cons] at h
        refine ⟨l.length, Nat.lt_succ_self _, ?_⟩
        rw [ofCoeffs_one_cons, ofCoeffs_of_weight_zero (Nat.succ.inj h), add_zero]

/-- Two ones are a shift of `X ^ k + 1`, with `k` less than the length. -/
theorem exists_of_weight_two {l : List (ZMod 2)} (h : weight l = 2) :
    ∃ m k, 0 < k ∧ k < l.length ∧ ofCoeffs l = (X ^ k + 1) * X ^ m := by
  induction l with
  | nil => exact absurd h (by decide)
  | cons a l ih =>
      rcases eq_zero_or_one a with rfl | rfl
      · rw [weight_zero_cons] at h
        rcases ih h with ⟨m, k, hpos, hk, hsplit⟩
        exact ⟨m, k, hpos, Nat.lt_succ_of_lt hk, (ofCoeffs_zero_cons l).trans hsplit⟩
      · rw [weight_one_cons] at h
        rcases exists_of_weight_one (Nat.succ.inj h) with ⟨m, hm, hpow⟩
        refine ⟨m, l.length - m, Nat.sub_pos_of_lt hm, ?_, ?_⟩
        · rw [List.length_cons]
          omega
        · rw [ofCoeffs_one_cons, hpow, add_mul, one_mul, ← pow_add, Nat.sub_add_cancel hm.le]

/-- A generator that vanishes at one and divides no short `X ^ k + 1` has weight four. -/
theorem four_le_weight {g : (ZMod 2)[X]} (h0 : g.coeff 0 ≠ 0) (hroot : g.eval 1 = 0)
    {l : List (ZMod 2)} (horder : ∀ k, 0 < k → k < l.length → ¬ g ∣ X ^ k + 1)
    (hne : weight l ≠ 0) (h : g ∣ ofCoeffs l) : 4 ≤ weight l := by
  have heven : 2 ∣ weight l := by
    rw [← ZMod.natCast_eq_zero_iff, ← eval_one_ofCoeffs]
    exact eval_eq_zero_of_dvd_of_eval_eq_zero h hroot
  have htwo : weight l ≠ 2 := by
    intro hweight
    rcases exists_of_weight_two hweight with ⟨m, k, hpos, hk, hsplit⟩
    rw [hsplit] at h
    exact horder k hpos hk ((isCoprime_X_pow h0 m).dvd_of_dvd_mul_right h)
  omega

end CyclicCode
