import Voicing.Proofs.Levels
import Voicing.Decimal.Digits

/-!
Rounding to the nearest number.

Every magnitude owns the reals between two *ends*, each half-way to a neighbour, and the ends
themselves if it is even. `Format.nearest_le_iff` says that rounding goes by these intervals,
whatever the exponent: a quotient is rounded to a magnitude at most if it does not lie beyond
the upper end. Everything else follows from it:

* `Format.nearest_eq`: what a magnitude owns is rounded to it.
* `Format.le_nearest`, `Format.nearest_le`: rounding does not cross a number of the format.
* `Format.exists_quanta`: which numbers of quanta are numbers of the format.
-/

namespace Voicing

-- Powers are those of core, whichever other monoids are in scope.
attribute [local instance (high)] instPowNat

/-- A quotient is rounded to a natural number at most if it is not beyond the half behind it. -/
theorem roundHalfEven_le_iff {n d k : Nat} (pos : 0 < d) :
    roundHalfEven n d ≤ k ↔
      (if k % 2 = 0 then 2 * n ≤ (2 * k + 1) * d else 2 * n < (2 * k + 1) * d) := by
  obtain ⟨q, r, small, rfl⟩ : ∃ q r, r < d ∧ n = q * d + r :=
    ⟨n / d, n % d, Nat.mod_lt n pos, by rw [Nat.mul_comm, Nat.div_add_mod]⟩
  have quotient : (q * d + r) / d = q := by
    rw [Nat.add_comm, Nat.add_mul_div_right _ _ pos, Nat.div_eq_of_lt small, Nat.zero_add]
  have rest : (q * d + r) % d = r := by
    rw [Nat.add_comm, Nat.add_mul_mod_self_right, Nat.mod_eq_of_lt small]
  have half : (2 * k + 1) * d = 2 * (k * d) + d := by
    rw [Nat.add_mul, Nat.one_mul, Nat.mul_assoc]
  rw [roundHalfEven, quotient, rest, half]
  rcases Nat.lt_trichotomy q k with below | rfl | above
  · -- the number is below the one it is compared with
    have apart : (q + 1) * d ≤ k * d := Nat.mul_le_mul_right d below
    rw [Nat.add_mul, Nat.one_mul] at apart
    constructor
    · intro _
      split <;> omega
    · intro _
      split
      · omega
      · split <;> omega
  · -- the rest decides, and the parity if it is a half
    by_cases even : q % 2 = 0
    · rw [if_pos even, even]
      split
      · omega
      · split <;> omega
    · rw [if_neg even]
      split
      · omega
      · split <;> omega
  · have apart : (k + 1) * d ≤ q * d := Nat.mul_le_mul_right d above
    rw [Nat.add_mul, Nat.one_mul] at apart
    constructor
    · intro le
      split at le
      · omega
      · split at le <;> omega
    · intro le
      split at le <;> omega

/-- Rounding does not go down beyond a natural number. -/
theorem le_roundHalfEven {n d q : Nat} (pos : 0 < d) (le : q * d ≤ n) :
    q ≤ roundHalfEven n d := by
  have whole : q ≤ n / d := (Nat.le_div_iff_mul_le pos).mpr le
  rw [roundHalfEven]
  split
  · exact whole
  · split <;> omega

namespace Format

variable {f : Format}

/-! ### Quanta and ends -/

/-- The quanta in a binade, up to the first number of the next one. -/
theorem quanta_add {s k : Nat} (normal : s = 0 ∨ f.binade ≤ k) (le : k ≤ 2 * f.binade) :
    f.quanta (k + s * f.binade) = k * 2 ^ s := by
  have pos : 0 < f.binade := binade_pos
  rcases Nat.lt_or_ge k f.binade with small | large
  · obtain rfl : s = 0 := normal.resolve_right (Nat.not_le.mpr small)
    have quotient : k / f.binade = 0 := Nat.div_eq_of_lt small
    simp [quanta, quotient]
  · obtain ⟨t, rfl⟩ := Nat.exists_eq_add_of_le large
    have whole : f.binade + t + s * f.binade = t + (s + 1) * f.binade := by
      rw [Nat.add_mul, Nat.one_mul]
      omega
    rcases Nat.lt_or_ge t f.binade with inside | next
    · have quotient : (t + (s + 1) * f.binade) / f.binade = s + 1 := by
        rw [Nat.add_mul_div_right _ _ pos, Nat.div_eq_of_lt inside, Nat.zero_add]
      have rest : (t + (s + 1) * f.binade) % f.binade = t := by
        rw [Nat.add_mul_mod_self_right, Nat.mod_eq_of_lt inside]
      rw [whole, quanta, quotient, rest, if_neg (Nat.succ_ne_zero s), Nat.add_comm t,
        Nat.add_sub_cancel]
    · obtain rfl : t = f.binade := by omega
      have quotient : (f.binade + (s + 1) * f.binade) / f.binade = s + 2 := by
        rw [Nat.add_mul_div_right _ _ pos, Nat.div_self pos]
        omega
      have rest : (f.binade + (s + 1) * f.binade) % f.binade = 0 := by
        rw [Nat.add_mul_mod_self_right, Nat.mod_self]
      have double : f.binade + f.binade = f.binade * 2 := by omega
      rw [whole, quanta, quotient, rest, if_neg (Nat.succ_ne_zero _), Nat.zero_add, double,
        Nat.mul_assoc, ← Nat.pow_succ']
      rfl

/-- Every magnitude lies in one binade. -/
theorem exists_binade (m : Nat) :
    ∃ s k, m = k + s * f.binade ∧ (s = 0 ∨ f.binade ≤ k) ∧ k < 2 * f.binade := by
  have pos : 0 < f.binade := binade_pos
  have parts := Nat.div_add_mod m f.binade
  have rest := Nat.mod_lt m pos
  rw [Nat.mul_comm] at parts
  cases quotient : m / f.binade with
  | zero =>
      rw [quotient, Nat.zero_mul, Nat.zero_add] at parts
      exact ⟨0, m, by omega, .inl rfl, by omega⟩
  | succ s =>
      rw [quotient, Nat.add_mul, Nat.one_mul] at parts
      exact ⟨s, m % f.binade + f.binade, by omega, .inr (by omega), by omega⟩

theorem quanta_lt_succ (m : Nat) : f.quanta m < f.quanta (m + 1) := by
  obtain ⟨s, k, rfl, normal, small⟩ := exists_binade (f := f) m
  have next : k + s * f.binade + 1 = (k + 1) + s * f.binade := by omega
  rw [next, quanta_add normal (Nat.le_of_lt small), quanta_add (by omega) small]
  exact Nat.mul_lt_mul_of_pos_right (Nat.lt_succ_self k) (Nat.two_pow_pos s)

theorem quanta_lt_quanta {m n : Nat} (lt : m < n) : f.quanta m < f.quanta n :=
  Nat.lt_of_lt_of_le (quanta_lt_succ m) (quanta_le_quanta lt)

/-- The end half-way to the next number. -/
theorem upperEnd_add {s k : Nat} (normal : s = 0 ∨ f.binade ≤ k) (small : k < 2 * f.binade) :
    f.upperEnd (k + s * f.binade) = (2 * k + 1) * 2 ^ s := by
  have next : k + s * f.binade + 1 = (k + 1) + s * f.binade := by omega
  rw [upperEnd, next, quanta_add normal (Nat.le_of_lt small), quanta_add (by omega) small,
    ← Nat.add_mul]
  congr 1
  omega

theorem two_mul_quanta_lt_upperEnd (m : Nat) : 2 * f.quanta m < f.upperEnd m := by
  have := quanta_lt_succ (f := f) m
  rw [upperEnd]
  omega

theorem upperEnd_lt_two_mul_quanta {m n : Nat} (lt : m < n) : f.upperEnd m < 2 * f.quanta n := by
  have below := quanta_lt_succ (f := f) m
  have le : f.quanta (m + 1) ≤ f.quanta n := quanta_le_quanta lt
  rw [upperEnd]
  omega

/-- The lower end of a number is the upper end of the one before. -/
theorem lowerEnd_succ (m : Nat) : f.lowerEnd (m + 1) = f.upperEnd m := rfl

theorem even_binade (precise : 2 ≤ f.precision) : ∃ half, f.binade = 2 * half := by
  refine ⟨2 ^ (f.precision - 2), ?_⟩
  rw [binade, ← Nat.pow_succ']
  congr 1
  omega

/-! ### Rounding -/

/-- A quotient of quanta does not lie beyond what a magnitude owns. -/
def IsAtMost (f : Format) (n d m : Nat) : Prop :=
  if m % 2 = 0 then 2 * n ≤ f.upperEnd m * d else 2 * n < f.upperEnd m * d

theorem isAtMost_of_lt {n d m : Nat} (lt : 2 * n < f.upperEnd m * d) : f.IsAtMost n d m := by
  unfold IsAtMost
  split <;> omega

theorem not_isAtMost_of_lt {n d m : Nat} (lt : f.upperEnd m * d < 2 * n) : ¬ f.IsAtMost n d m := by
  unfold IsAtMost
  split <;> omega

/-- The shift that rounding chooses brings a quotient into its binade. -/
theorem exists_shift (n : Nat) {d : Nat} (pos : 0 < d) (precise : 0 < f.precision) :
    ∃ s, (n / d).log2 + 1 - f.precision = s ∧ n < 2 * f.binade * 2 ^ s * d ∧
      (s = 0 ∨ f.binade * 2 ^ s * d ≤ n) := by
  refine ⟨_, rfl, ?_, ?_⟩
  · have below : n / d < 2 ^ ((n / d).log2 + 1) := Nat.lt_log2_self
    have bits : 2 * f.binade * 2 ^ ((n / d).log2 + 1 - f.precision) =
        2 ^ (f.precision + ((n / d).log2 + 1 - f.precision)) := by
      rw [← two_pow_precision precise, Nat.pow_add]
    rw [bits]
    have wide : n / d < 2 ^ (f.precision + ((n / d).log2 + 1 - f.precision)) :=
      Nat.lt_of_lt_of_le below (Nat.pow_le_pow_right (by decide) (by omega))
    exact (Nat.div_lt_iff_lt_mul pos).mp wide
  · by_cases short : (n / d).log2 + 1 ≤ f.precision
    · exact .inl (by omega)
    · have nonzero : n / d ≠ 0 := by
        intro zero
        rw [zero] at short
        simp at short
        omega
      have above : 2 ^ (n / d).log2 ≤ n / d := Nat.log2_self_le nonzero
      have bits : f.binade * 2 ^ ((n / d).log2 + 1 - f.precision) = 2 ^ (n / d).log2 := by
        rw [binade, ← Nat.pow_add]
        congr 1
        omega
      rw [bits]
      exact .inr (Nat.le_trans (Nat.mul_le_mul_right d above) (Nat.div_mul_le_self n d))

/-- A magnitude of a lower binade ends before a quotient. -/
theorem upperEnd_mul_lt {n d m s : Nat} (pos : 0 < d) (lower : m < f.binade + s * f.binade)
    (above : f.binade * 2 ^ s * d ≤ n) : f.upperEnd m * d < 2 * n := by
  have low_end := upperEnd_lt_two_mul_quanta (f := f) lower
  rw [quanta_add (.inr (Nat.le_refl _)) (by omega)] at low_end
  have wide := Nat.mul_lt_mul_of_pos_right low_end pos
  rw [Nat.mul_assoc 2] at wide
  omega

/-- A magnitude of a higher binade ends behind a quotient. -/
theorem lt_upperEnd_mul {n d m s : Nat} (higher : 2 * f.binade + s * f.binade ≤ m)
    (below : n < 2 * f.binade * 2 ^ s * d) : 2 * n < f.upperEnd m * d := by
  have le := quanta_le_quanta (f := f) higher
  rw [quanta_add (by omega) (Nat.le_refl _)] at le
  have high_end := two_mul_quanta_lt_upperEnd (f := f) m
  have wide : 2 * (2 * f.binade * 2 ^ s) * d ≤ f.upperEnd m * d :=
    Nat.mul_le_mul_right d (by omega)
  rw [Nat.mul_assoc 2] at wide
  omega

/-- Rounding goes by what the magnitudes own. -/
theorem nearest_le_iff {n d m : Nat} (precise : 2 ≤ f.precision) (pos : 0 < d)
    (finite : m < f.infinity) : f.nearest n d ≤ m ↔ f.IsAtMost n d m := by
  obtain ⟨s, shift, below, above⟩ := exists_shift (f := f) n pos (by omega)
  have cap : f.nearest n d ≤ m ↔ roundHalfEven n (d * 2 ^ s) + s * f.binade ≤ m := by
    rw [nearest, shift]
    omega
  have pos_shifted : 0 < d * 2 ^ s := Nat.mul_pos pos (Nat.two_pow_pos s)
  have scaled (k : Nat) : k * (d * 2 ^ s) = k * 2 ^ s * d := by
    rw [Nat.mul_comm d, Nat.mul_assoc]
  rw [cap]
  rcases Nat.lt_or_ge m (2 * f.binade + s * f.binade) with low | high
  · by_cases normal : s = 0 ∨ f.binade + s * f.binade ≤ m
    · -- the magnitude is in the binade of the quotient
      obtain ⟨k, rfl⟩ : ∃ k, m = k + s * f.binade := by
        refine ⟨m - s * f.binade, ?_⟩
        rcases normal with rfl | above <;> omega
      have parity : (k + s * f.binade) % 2 = k % 2 := by
        obtain ⟨half, even⟩ := even_binade precise
        rw [even, Nat.mul_left_comm, Nat.add_mul_mod_self_left]
      rw [Nat.add_le_add_iff_right, roundHalfEven_le_iff pos_shifted, IsAtMost, parity,
        upperEnd_add (by omega) (by omega), scaled]
    · -- the magnitude is in a lower binade
      obtain ⟨shifted, lower⟩ := not_or.mp normal
      have above := above.resolve_left shifted
      have rounded_ge : f.binade ≤ roundHalfEven n (d * 2 ^ s) := by
        apply le_roundHalfEven pos_shifted
        rw [scaled]
        exact above
      have beyond := upperEnd_mul_lt pos (Nat.lt_of_not_le lower) above
      constructor
      · intro le
        omega
      · intro at_most
        exact absurd at_most (not_isAtMost_of_lt beyond)
  · -- the magnitude is in a higher binade
    have rounded_le : roundHalfEven n (d * 2 ^ s) ≤ 2 * f.binade := by
      apply roundHalfEven_le pos_shifted
      rw [scaled]
      exact Nat.le_of_lt below
    constructor
    · intro _
      exact isAtMost_of_lt (lt_upperEnd_mul high below)
    · intro _
      omega

/-- What a magnitude owns is rounded to it. -/
theorem nearest_eq {n d m : Nat} (precise : 2 ≤ f.precision) (pos : 0 < d)
    (finite : m < f.infinity) (upper : f.IsAtMost n d m)
    (lower : ∀ k, m = k + 1 → ¬ f.IsAtMost n d k) : f.nearest n d = m := by
  apply Nat.le_antisymm ((nearest_le_iff precise pos finite).mpr upper)
  cases m with
  | zero => exact Nat.zero_le _
  | succ k =>
      have beyond := lower k rfl
      rw [← nearest_le_iff precise pos (Nat.lt_of_succ_lt finite)] at beyond
      omega

/-- Rounding does not go up beyond a number. -/
theorem nearest_le_of_le {n d m : Nat} (precise : 2 ≤ f.precision) (pos : 0 < d)
    (finite : m < f.infinity) (le : n ≤ f.quanta m * d) : f.nearest n d ≤ m := by
  rw [nearest_le_iff precise pos finite]
  apply isAtMost_of_lt
  have wide := Nat.mul_lt_mul_of_pos_right (two_mul_quanta_lt_upperEnd (f := f) m) pos
  rw [Nat.mul_assoc] at wide
  omega

/-- Rounding does not go down beyond a number. -/
theorem le_nearest_of_le {n d m : Nat} (precise : 2 ≤ f.precision) (pos : 0 < d)
    (finite : m < f.infinity) (le : f.quanta m * d ≤ n) : m ≤ f.nearest n d := by
  cases m with
  | zero => exact Nat.zero_le _
  | succ k =>
      have beyond : ¬ f.nearest n d ≤ k := by
        rw [nearest_le_iff precise pos (Nat.lt_of_succ_lt finite)]
        apply not_isAtMost_of_lt
        have wide := Nat.mul_lt_mul_of_pos_right
          (upperEnd_lt_two_mul_quanta (f := f) (Nat.lt_add_one k)) pos
        rw [Nat.mul_assoc 2] at wide
        omega
      omega

/-- A coefficient that fits the significand, times a power of two, is a number. -/
theorem exists_quanta {c : Nat} (e : Nat) (fits : c < 2 * f.binade) :
    ∃ m, f.quanta m = c * 2 ^ e ∧ m < (e + 2) * f.binade := by
  induction e generalizing c with
  | zero =>
      have whole : c + 0 * f.binade = c := by omega
      have quanta := quanta_add (s := 0) (.inl rfl) (Nat.le_of_lt fits)
      rw [whole] at quanta
      exact ⟨c, quanta, by omega⟩
  | succ e ih =>
      rcases Nat.lt_or_ge c f.binade with small | normal
      · obtain ⟨m, quanta, bound⟩ := ih (c := 2 * c) (by omega)
        refine ⟨m, ?_, Nat.lt_of_lt_of_le bound (Nat.mul_le_mul_right _ (by omega))⟩
        rw [quanta, Nat.pow_succ', Nat.mul_left_comm, Nat.mul_assoc]
      · refine ⟨c + (e + 1) * f.binade, quanta_add (.inr normal) (Nat.le_of_lt fits), ?_⟩
        have split : (e + 1 + 2) * f.binade = 2 * f.binade + (e + 1) * f.binade := by
          rw [← Nat.add_mul, Nat.add_comm 2]
        omega

end Format

end Voicing
