import Voicing.Proofs.Decimal.Rounding
import Voicing.Proofs.Decimal.DigitText
import Mathlib.Data.Rat.Cast.Order
import Mathlib.Algebra.Order.Field.Power
import Mathlib.Tactic.Positivity
import Mathlib.Tactic.Ring
import Mathlib.Tactic.Linarith
import Mathlib.Tactic.NormNum

/-!
The shortest decimals of numbers.

A magnitude *owns* the reals that round to it. A decimal is taken from a grid of points only if
it is owned, and on a grid of as many digits as the format has bits the points are no further
apart than the ends of what is owned.

* `Decimal.value`: the number that a decimal is.
* `Format.owns_shortest`: the shortest decimal of a number is owned by it.
-/

namespace Voicing

-- Powers are those of core, whichever other monoids are in scope.
attribute [local instance (high)] instPowNat

/-- The number that a decimal is. -/
def Decimal.value (d : Decimal) : ℚ := d.coefficient * (10 : ℚ) ^ d.exponent

/-- A power of ten as a quotient of natural numbers. -/
theorem ten_zpow (e : Int) :
    (10 : ℚ) ^ e * ((10 ^ (-e).toNat : Nat) : ℚ) = ((10 ^ e.toNat : Nat) : ℚ) := by
  push_cast
  rcases Int.le_total 0 e with nonneg | nonpos
  · obtain ⟨n, rfl⟩ := Int.eq_ofNat_of_zero_le nonneg
    simp
  · obtain ⟨n, rfl⟩ := Int.exists_eq_neg_ofNat nonpos
    simp

namespace Decimal

/-- A multiple of a decimal as a quotient of natural numbers. -/
theorem mul_value (scale c : Nat) (e : Int) :
    (scale : ℚ) * value ⟨c, e⟩ * ((10 ^ (-e).toNat : Nat) : ℚ) =
      ((c * (scale * 10 ^ e.toNat) : Nat) : ℚ) := by
  have ten := ten_zpow e
  simp only [value]
  rw [Nat.cast_mul, Nat.cast_mul, ← ten]
  ring

theorem le_mul_value_iff {a scale c : Nat} {e : Int} :
    (a : ℚ) ≤ scale * value ⟨c, e⟩ ↔ a * 10 ^ (-e).toNat ≤ c * (scale * 10 ^ e.toNat) := by
  have pos : (0 : ℚ) < ((10 ^ (-e).toNat : Nat) : ℚ) := by positivity
  rw [← mul_le_mul_iff_left₀ pos, mul_value, ← Nat.cast_mul, Nat.cast_le]

theorem mul_value_le_iff {a scale c : Nat} {e : Int} :
    scale * value ⟨c, e⟩ ≤ (a : ℚ) ↔ c * (scale * 10 ^ e.toNat) ≤ a * 10 ^ (-e).toNat := by
  have pos : (0 : ℚ) < ((10 ^ (-e).toNat : Nat) : ℚ) := by positivity
  rw [← mul_le_mul_iff_left₀ pos, mul_value, ← Nat.cast_mul, Nat.cast_le]

theorem value_trimWith (fuel c : Nat) (e : Int) : (trimWith fuel c e).value = value ⟨c, e⟩ := by
  induction fuel generalizing c e with
  | zero => rfl
  | succ fuel ih =>
      rw [trimWith]
      split
      · next tens =>
        rw [ih]
        obtain ⟨k, rfl⟩ := Nat.dvd_of_mod_eq_zero tens
        rw [Nat.mul_div_cancel_left k (by decide)]
        simp only [value]
        rw [zpow_add_one₀ (by norm_num)]
        push_cast
        ring
      · rfl

theorem value_trim (d : Decimal) : d.trim.value = d.value := by
  unfold trim
  split
  · next zero => simp [value, zero]
  · exact value_trimWith _ _ _

end Decimal

namespace Format

variable {f : Format} {tie : Tie} {m : Nat}

/-- The real is between the ends of a magnitude, or one of them if the magnitude is even. -/
def Owns (f : Format) (m : Nat) (v : ℚ) : Prop :=
  if m % 2 = 0 then (f.lowerEnd m : ℚ) ≤ 2 * f.scale * v ∧ 2 * f.scale * v ≤ f.upperEnd m
  else (f.lowerEnd m : ℚ) < 2 * f.scale * v ∧ 2 * f.scale * v < f.upperEnd m

/-- What is owned, in whole numbers. -/
theorem owns_iff (c : Nat) (e : Int) :
    f.Owns m (Decimal.value ⟨c, e⟩) ↔
      (if m % 2 = 0 then
        f.lowerEnd m * 10 ^ (-e).toNat ≤ c * (2 * f.scale * 10 ^ e.toNat) ∧
          c * (2 * f.scale * 10 ^ e.toNat) ≤ f.upperEnd m * 10 ^ (-e).toNat
      else
        f.lowerEnd m * 10 ^ (-e).toNat < c * (2 * f.scale * 10 ^ e.toNat) ∧
          c * (2 * f.scale * 10 ^ e.toNat) < f.upperEnd m * 10 ^ (-e).toNat) := by
  have twice : (2 * f.scale : ℚ) = ((2 * f.scale : Nat) : ℚ) := by push_cast; rfl
  rw [Owns, ← not_le, ← not_le, twice, Decimal.le_mul_value_iff, Decimal.mul_value_le_iff,
    Decimal.le_mul_value_iff, Decimal.mul_value_le_iff, not_le, not_le]

/-- Whether a point of a grid is owned. -/
def ownsOnGrid (f : Format) (m : Nat) (e : Int) (c : Nat) : Bool :=
  if m % 2 = 0 then
    decide (f.lowerEnd m * 10 ^ (-e).toNat ≤ c * (2 * f.scale * 10 ^ e.toNat))
      && decide (c * (2 * f.scale * 10 ^ e.toNat) ≤ f.upperEnd m * 10 ^ (-e).toNat)
  else
    decide (f.lowerEnd m * 10 ^ (-e).toNat < c * (2 * f.scale * 10 ^ e.toNat))
      && decide (c * (2 * f.scale * 10 ^ e.toNat) < f.upperEnd m * 10 ^ (-e).toNat)

theorem ownsOnGrid_iff {e : Int} {c : Nat} :
    f.ownsOnGrid m e c = true ↔ f.Owns m (Decimal.value ⟨c, e⟩) := by
  rw [owns_iff, ownsOnGrid]
  split <;> simp

/-- A decimal that is found on a grid is owned. -/
theorem owns_of_onGrid? {digits : Nat} {d : Decimal} (found : f.onGrid? tie m digits = some d) :
    f.Owns m d.value := by
  unfold onGrid? at found
  dsimp only at found
  split at found
  · next below above =>
    obtain rfl := Option.some.inj found
    have either (roundsUp : Bool) {a b : Nat} {e : Int} (first : f.ownsOnGrid m e a = true)
        (second : f.ownsOnGrid m e b = true) :
        f.Owns m (Decimal.value ⟨if roundsUp then b else a, e⟩) := by
      cases roundsUp
      · exact ownsOnGrid_iff.mp first
      · exact ownsOnGrid_iff.mp second
    exact either _ below above
  · next below _ =>
    obtain rfl := Option.some.inj found
    exact ownsOnGrid_iff.mp below
  · next _ above =>
    obtain rfl := Option.some.inj found
    exact ownsOnGrid_iff.mp above
  · cases found

/-- A grid has a decimal if the neighbour below the number is owned. -/
theorem onGrid?_ne_none (tie : Tie) (m digits : Nat) {e : Int}
    (e_eq : f.decimalPoint m - digits = e)
    (below : f.ownsOnGrid m e
      (2 * f.quanta m * 10 ^ (-e).toNat / (2 * f.scale * 10 ^ e.toNat)) = true) :
    f.onGrid? tie m digits ≠ none := by
  subst e_eq
  intro none_found
  unfold onGrid? at none_found
  dsimp only at none_found
  split at none_found
  · cases none_found
  · cases none_found
  · cases none_found
  · next unowned _ => exact Bool.false_ne_true (unowned.symm.trans below)

/-- Neighbours are no further apart than the significand allows. -/
theorem quanta_le_gap (m : Nat) :
    f.quanta (m + 1) ≤ 2 * f.binade * (f.quanta (m + 1) - f.quanta m) := by
  obtain ⟨s, k, rfl, normal, small⟩ := exists_binade (f := f) m
  have next : k + s * f.binade + 1 = (k + 1) + s * f.binade := by omega
  have gap : (k + 1) * 2 ^ s - k * 2 ^ s = 2 ^ s := by
    rw [Nat.add_mul, Nat.one_mul, Nat.add_sub_cancel_left]
  rw [next, quanta_add normal (Nat.le_of_lt small), quanta_add (by omega) small, gap]
  exact Nat.mul_le_mul_right _ small

/-- The number has as many digits in front of its point as its place says. -/
theorem ten_zpow_decimalPoint_le (pos : 0 < m) :
    (10 : ℚ) ^ (f.decimalPoint m - 1) * f.scale ≤ f.quanta m := by
  have scale_pos : 0 < f.scale := Nat.two_pow_pos _
  have scale_le : f.scale ≤ 10 ^ f.reach := Nat.pow_le_pow_left (by decide) _
  have quanta_pos : 0 < f.quanta m := Nat.lt_of_le_of_lt (Nat.zero_le _) (quanta_lt_quanta pos)
  have whole_pos : 0 < f.quanta m * 10 ^ f.reach / f.scale :=
    Nat.div_pos (Nat.le_trans scale_le (Nat.le_mul_of_pos_left _ quanta_pos)) scale_pos
  have digits := ten_pow_digitCount_le whole_pos
  have some_digit := digitCount_pos (f.quanta m * 10 ^ f.reach / f.scale)
  have whole := Nat.le_trans (Nat.mul_le_mul_right f.scale digits) (Nat.div_mul_le_self _ _)
  rw [decimalPoint]
  generalize digitCount (f.quanta m * 10 ^ f.reach / f.scale) = count at *
  have shifted : (count : Int) - f.reach - 1 = ((count - 1 : Nat) : Int) - f.reach := by omega
  rw [shifted, zpow_sub₀ (by norm_num), zpow_natCast, zpow_natCast, div_mul_eq_mul_div,
    div_le_iff₀ (by positivity)]
  exact_mod_cast whole

/-- On a grid of as many digits as the significand has bits, the points are no further apart
than neighbouring numbers. -/
theorem step_le_gap (precise : 2 ≤ f.precision) {e : Int}
    (e_eq : f.decimalPoint (m + 1) - f.precision = e) :
    2 * f.scale * 10 ^ e.toNat ≤ (f.quanta (m + 1) - f.quanta m) * 10 ^ (-e).toNat := by
  obtain ⟨p, p_eq⟩ : ∃ p, f.precision = p + 2 := ⟨f.precision - 2, by omega⟩
  have place := ten_zpow_decimalPoint_le (f := f) (Nat.succ_pos m)
  have gap : (f.quanta (m + 1) : ℚ) ≤
      2 * f.binade * ((f.quanta (m + 1) - f.quanta m : Nat) : ℚ) := by
    exact_mod_cast quanta_le_gap (f := f) m
  have bits : 4 * (f.binade : ℚ) ≤ (10 : ℚ) ^ (p + 1) := by
    have small : (4 : ℚ) * 2 ^ (p + 1) ≤ 10 ^ (p + 1) := by
      have fives : (1 : ℚ) ≤ 5 ^ p := one_le_pow₀ (by norm_num)
      have tens : (10 : ℚ) ^ (p + 1) = 5 ^ p * 5 * 2 ^ (p + 1) := by
        rw [← pow_succ, ← mul_pow]
        norm_num
      rw [tens]
      have twos : (0 : ℚ) < 2 ^ (p + 1) := by positivity
      nlinarith
    have binade_eq : f.binade = 2 ^ (p + 1) := by
      rw [binade, p_eq]
      rfl
    rw [binade_eq]
    exact_mod_cast small
  generalize f.quanta (m + 1) - f.quanta m = g at gap ⊢
  have e_split : (10 : ℚ) ^ e * 10 ^ (p + 1) = 10 ^ (f.decimalPoint (m + 1) - 1) := by
    rw [← zpow_natCast, ← zpow_add₀ (by norm_num)]
    congr 1
    push_cast
    omega
  have bounded : 2 * (f.scale : ℚ) * 10 ^ e ≤ g := by
    have tens : (0 : ℚ) < 10 ^ (p + 1) := by positivity
    rw [← mul_le_mul_iff_left₀ tens]
    calc 2 * (f.scale : ℚ) * 10 ^ e * 10 ^ (p + 1)
        = 2 * (10 ^ (f.decimalPoint (m + 1) - 1) * f.scale) := by rw [← e_split]; ring
      _ ≤ 2 * f.quanta (m + 1) := by linarith
      _ ≤ g * (4 * f.binade) := by linarith
      _ ≤ g * 10 ^ (p + 1) := mul_le_mul_of_nonneg_left bits (Nat.cast_nonneg g)
  have pos : (0 : ℚ) ≤ ((10 ^ (-e).toNat : Nat) : ℚ) := Nat.cast_nonneg _
  have scaled := mul_le_mul_of_nonneg_right bounded pos
  rw [mul_assoc, ten_zpow] at scaled
  exact_mod_cast scaled

/-- As many digits as the significand has bits are enough. -/
theorem ownsOnGrid_precision (precise : 2 ≤ f.precision) {e : Int}
    (e_eq : f.decimalPoint (m + 1) - f.precision = e) :
    f.ownsOnGrid (m + 1) e
      (2 * f.quanta (m + 1) * 10 ^ (-e).toNat / (2 * f.scale * 10 ^ e.toNat)) = true := by
  have step_le := step_le_gap precise e_eq
  have step_pos : 0 < 2 * f.scale * 10 ^ e.toNat := by
    have scale_pos : 0 < f.scale := Nat.two_pow_pos _
    positivity
  have apart := quanta_lt_succ (f := f) m
  rw [ownsOnGrid]
  generalize 10 ^ (-e).toNat = up at step_le ⊢
  generalize 2 * f.scale * 10 ^ e.toNat = step at step_le step_pos ⊢
  have below : 2 * f.quanta (m + 1) * up / step * step ≤ 2 * f.quanta (m + 1) * up :=
    Nat.div_mul_le_self _ _
  have above : 2 * f.quanta (m + 1) * up < 2 * f.quanta (m + 1) * up / step * step + step := by
    exact Nat.lt_div_mul_add step_pos
  have up_pos : 0 < up := by
    rcases Nat.eq_zero_or_pos up with rfl | pos
    · omega
    · exact pos
  have upper : 2 * f.quanta (m + 1) * up < f.upperEnd (m + 1) * up :=
    Nat.mul_lt_mul_of_pos_right (two_mul_quanta_lt_upperEnd (m + 1)) up_pos
  have lower : f.lowerEnd (m + 1) * up + (f.quanta (m + 1) - f.quanta m) * up =
      2 * f.quanta (m + 1) * up := by
    rw [← Nat.add_mul, lowerEnd, Nat.add_sub_cancel]
    congr 1
    omega
  split <;> simp only [Bool.and_eq_true, decide_eq_true_eq] <;> omega

/-- The shortest decimal of a number is owned by it. -/
theorem owns_shortest (tie : Tie) (precise : 2 ≤ f.precision) (pos : 0 < m) :
    f.Owns m (f.shortest tie m).value := by
  obtain ⟨k, rfl⟩ := Nat.exists_eq_succ_of_ne_zero (Nat.ne_of_gt pos)
  rw [shortest, if_neg (Nat.succ_ne_zero k)]
  cases found : (List.range f.precision).findSome? fun n => f.onGrid? tie (k + 1) (n + 1) with
  | some d =>
      obtain ⟨n, -, on_grid⟩ := List.exists_of_findSome?_eq_some found
      rw [Decimal.value_trim]
      exact owns_of_onGrid? on_grid
  | none =>
      have nowhere := List.findSome?_eq_none_iff.mp found (f.precision - 1)
        (List.mem_range.mpr (by omega))
      have digits : f.precision - 1 + 1 = f.precision := by omega
      rw [digits] at nowhere
      exact absurd nowhere (onGrid?_ne_none tie _ _ rfl (ownsOnGrid_precision precise rfl))

end Format

end Voicing
