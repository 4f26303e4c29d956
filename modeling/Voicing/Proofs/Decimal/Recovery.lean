import Voicing.Proofs.Decimal.Shortest

/-!
Numbers read back from their shortest decimals.

A decimal is read in double precision first and rounded to single precision then. The first
rounding may bring it to the end of what its number owns, and then the second one goes to the
even neighbour.

* `Binary.ofDecimal_congr`: what is read depends on the value of the decimal alone.
* `Binary.convert_ofDecimal_iff`: a number of single precision comes back from its shortest decimal
  unless it is odd and the double read first is half-way to a neighbour.
-/

namespace Voicing

-- Powers are those of core, whichever other monoids are in scope.
attribute [local instance (high)] instPowNat

namespace Format

variable {f : Format}

/-! ### Equal quotients -/

theorem IsAtMost.congr {n d n' d' m : Nat} (pos : 0 < d) (pos' : 0 < d')
    (same : n * d' = n' * d) (at_most : f.IsAtMost n d m) : f.IsAtMost n' d' m := by
  have left : 2 * n * d' = 2 * n' * d := by rw [Nat.mul_assoc, same, Nat.mul_assoc]
  have right : f.upperEnd m * d * d' = f.upperEnd m * d' * d := Nat.mul_right_comm _ _ _
  unfold IsAtMost at at_most ⊢
  split at at_most
  · next even =>
    rw [if_pos even]
    have wide := Nat.mul_le_mul_right d' at_most
    rw [left, right] at wide
    exact Nat.le_of_mul_le_mul_right wide pos
  · next odd =>
    rw [if_neg odd]
    have wide := Nat.mul_lt_mul_of_pos_right at_most pos'
    rw [left, right] at wide
    exact Nat.lt_of_mul_lt_mul_right wide

theorem nearest_le_congr {n d n' d' : Nat} (precise : 2 ≤ f.precision) (pos : 0 < d)
    (pos' : 0 < d') (same : n * d' = n' * d) : f.nearest n d ≤ f.nearest n' d' := by
  rcases Nat.lt_or_ge (f.nearest n' d') f.infinity with finite | infinite
  · rw [nearest_le_iff precise pos finite]
    exact .congr pos' pos same.symm ((nearest_le_iff precise pos' finite).mp (Nat.le_refl _))
  · exact Nat.le_trans (Nat.min_le_right _ _) infinite

/-- Equal quotients are rounded alike. -/
theorem nearest_congr {n d n' d' : Nat} (precise : 2 ≤ f.precision) (pos : 0 < d) (pos' : 0 < d')
    (same : n * d' = n' * d) : f.nearest n d = f.nearest n' d' :=
  Nat.le_antisymm (nearest_le_congr precise pos pos' same)
    (nearest_le_congr precise pos' pos same.symm)

end Format

namespace Decimal

theorem value_eq_zero_iff {c : Nat} {e : Int} : value ⟨c, e⟩ = 0 ↔ c = 0 := by
  have power : (10 : ℚ) ^ e ≠ 0 := zpow_ne_zero e (by norm_num)
  simp [value, power]

theorem ten_zpow_le_value {c : Nat} (e : Int) (pos : 0 < c) :
    (10 : ℚ) ^ (digitCount c + e - 1) ≤ value ⟨c, e⟩ := by
  have some_digit := digitCount_pos c
  have digits : (10 : ℚ) ^ (digitCount c - 1) ≤ c := by exact_mod_cast ten_pow_digitCount_le pos
  have shifted : (digitCount c : Int) + e - 1 = ((digitCount c - 1 : Nat) : Int) + e := by omega
  rw [shifted, zpow_add₀ (by norm_num), zpow_natCast, value]
  exact mul_le_mul_of_nonneg_right digits (by positivity)

theorem value_lt_ten_zpow (c : Nat) (e : Int) :
    value ⟨c, e⟩ < (10 : ℚ) ^ (digitCount c + e : Int) := by
  have digits : (c : ℚ) < 10 ^ digitCount c := by exact_mod_cast lt_ten_pow_digitCount c
  rw [zpow_add₀ (by norm_num), zpow_natCast, value]
  exact mul_lt_mul_of_pos_right digits (by positivity)

/-- The place of the point depends on the value alone. -/
theorem point_le {c c' : Nat} {e e' : Int} (pos : 0 < c)
    (same : value ⟨c, e⟩ = value ⟨c', e'⟩) : digitCount c + e ≤ (digitCount c' : Int) + e' := by
  have powers : (10 : ℚ) ^ (digitCount c + e - 1) < (10 : ℚ) ^ (digitCount c' + e' : Int) :=
    lt_of_le_of_lt (ten_zpow_le_value e pos) (same ▸ value_lt_ten_zpow c' e')
  have := (zpow_lt_zpow_iff_right₀ (by norm_num)).mp powers
  omega

end Decimal

namespace Binary

variable {f : Format}

/-- What is read depends on the value of the decimal alone. -/
theorem ofDecimal_congr (precise : 2 ≤ f.precision) (negative : Bool) {c c' : Nat} {e e' : Int}
    (same : Decimal.value ⟨c, e⟩ = Decimal.value ⟨c', e'⟩) :
    (ofDecimal negative c e : Binary f) = ofDecimal negative c' e' := by
  have zeros : c = 0 ↔ c' = 0 := by
    rw [← Decimal.value_eq_zero_iff (e := e), same, Decimal.value_eq_zero_iff]
  by_cases zero : c = 0
  · rw [ofDecimal, ofDecimal, if_pos zero, if_pos (zeros.mp zero)]
  · have zero' : c' ≠ 0 := fun h => zero (zeros.mpr h)
    have point : (digitCount c : Int) + e = digitCount c' + e' :=
      Int.le_antisymm (Decimal.point_le (Nat.pos_of_ne_zero zero) same)
        (Decimal.point_le (Nat.pos_of_ne_zero zero') same.symm)
    rw [digitCount, digitCount] at point
    have rounded : f.nearest (c * 10 ^ e.toNat * f.scale) (10 ^ (-e).toNat) =
        f.nearest (c' * 10 ^ e'.toNat * f.scale) (10 ^ (-e').toNat) := by
      apply Format.nearest_congr precise (by positivity) (by positivity)
      have one := Decimal.mul_value f.scale c e
      have other := Decimal.mul_value f.scale c' e'
      rw [same] at one
      have cross : ((c * (f.scale * 10 ^ e.toNat) : Nat) : ℚ) * ((10 ^ (-e').toNat : Nat) : ℚ) =
          ((c' * (f.scale * 10 ^ e'.toNat) : Nat) : ℚ) * ((10 ^ (-e).toNat : Nat) : ℚ) := by
        rw [← one, ← other, mul_right_comm]
      have whole : c * (f.scale * 10 ^ e.toNat) * 10 ^ (-e').toNat =
          c' * (f.scale * 10 ^ e'.toNat) * 10 ^ (-e).toNat := by exact_mod_cast cross
      have order (a b : Nat) : a * b * f.scale = a * (f.scale * b) := by ring
      rw [order, order, whole]
    simp only [ofDecimal, if_neg zero, if_neg zero', point, ofRatio, ofQuanta, rounded]

/-- A decimal within the reach of a format is rounded. -/
theorem ofDecimal_eq {negative : Bool} {c : Nat} {e : Int} (pos : 0 < c)
    (low : (10 : ℚ) ^ (-(f.reach : Int)) ≤ Decimal.value ⟨c, e⟩)
    (high : Decimal.value ⟨c, e⟩ < (10 : ℚ) ^ (f.reach : Int)) :
    (ofDecimal negative c e : Binary f) =
      ofRatio negative (c * 10 ^ e.toNat) (10 ^ (-e).toNat) := by
  have below := (zpow_lt_zpow_iff_right₀ (by norm_num)).mp
    (lt_of_le_of_lt (Decimal.ten_zpow_le_value e pos) high)
  have above := (zpow_lt_zpow_iff_right₀ (by norm_num)).mp
    (lt_of_le_of_lt low (Decimal.value_lt_ten_zpow c e))
  rw [digitCount] at below above
  simp only [ofDecimal]
  rw [if_neg (Nat.ne_of_gt pos), if_neg (by omega), if_neg (by omega)]

end Binary

/-! ### Two roundings -/

namespace Format

/-- The ends of single precision count half quanta, each of which is this power of two of
double quanta. -/
def refinement : Nat := double.reach - single.reach - 1

theorem double_scale : double.scale = 2 * single.scale * 2 ^ refinement := by
  have reach : double.reach = single.reach + 1 + refinement := by decide
  rw [scale, scale, reach, Nat.mul_comm 2, ← Nat.pow_succ, ← Nat.pow_add]

/-- The ends of what a single owns are doubles. -/
theorem exists_double_upperEnd {m : Nat} (finite : m < single.infinity) :
    ∃ u, double.quanta u = single.upperEnd m * 2 ^ refinement ∧ u < double.infinity := by
  obtain ⟨s, k, rfl, normal, small⟩ := exists_binade (f := single) m
  have wide : 2 * single.binade < double.binade := by decide
  have infinity_double : double.infinity = 2047 * double.binade := rfl
  have few : s < 255 := by
    have below : s * single.binade < 255 * single.binade :=
      Nat.lt_of_le_of_lt (Nat.le_add_left _ _) finite
    exact Nat.lt_of_mul_lt_mul_right below
  obtain ⟨u, quanta, bound⟩ := exists_quanta (f := double) (c := 2 * k + 1) (s + refinement)
    (by omega)
  refine ⟨u, ?_, ?_⟩
  · rw [quanta, upperEnd_add normal small, Nat.pow_add, Nat.mul_assoc]
  · refine Nat.lt_of_lt_of_le bound ?_
    rw [infinity_double]
    apply Nat.mul_le_mul_right
    have : refinement = 924 := by decide
    omega

variable {m c : Nat} {e : Int}

/-- What is owned is between the ends. -/
theorem Owns.between {f : Format} {v : ℚ} (owns : f.Owns m v) :
    (f.lowerEnd m : ℚ) ≤ 2 * f.scale * v ∧ 2 * f.scale * v ≤ f.upperEnd m := by
  unfold Owns at owns
  split at owns
  · exact owns
  · exact ⟨owns.1.le, owns.2.le⟩

/-- The double nearest to what a single owns is between the same ends. -/
theorem double_between (pos : 0 < m) (finite : m < single.infinity)
    (owns : single.Owns m (Decimal.value ⟨c, e⟩)) {d : Nat}
    (d_eq : double.nearest (c * 10 ^ e.toNat * double.scale) (10 ^ (-e).toNat) = d) :
    single.lowerEnd m * double.scale ≤ 2 * (double.quanta d * single.scale) ∧
      2 * (double.quanta d * single.scale) ≤ single.upperEnd m * double.scale ∧
      d < double.infinity := by
  have precise : 2 ≤ double.precision := by decide
  have den_pos : 0 < 10 ^ (-e).toNat := Nat.pow_pos (by decide)
  obtain ⟨k, rfl⟩ : ∃ k, m = k + 1 := ⟨m - 1, by omega⟩
  obtain ⟨u, upper, u_finite⟩ := exists_double_upperEnd finite
  obtain ⟨l, lower, l_finite⟩ := exists_double_upperEnd (Nat.lt_of_succ_lt finite)
  rw [← lowerEnd_succ] at lower
  have twice : (2 * single.scale : ℚ) = ((2 * single.scale : Nat) : ℚ) := by push_cast; rfl
  obtain ⟨below, above⟩ := owns.between
  rw [twice, Decimal.le_mul_value_iff] at below
  rw [twice, Decimal.mul_value_le_iff] at above
  have scaled : c * 10 ^ e.toNat * double.scale =
      c * (2 * single.scale * 10 ^ e.toNat) * 2 ^ refinement := by
    rw [double_scale]
    ring
  rw [scaled] at d_eq
  have d_le : d ≤ u := by
    rw [← d_eq]
    apply nearest_le_of_le precise den_pos u_finite
    rw [upper, Nat.mul_right_comm (single.upperEnd (k + 1))]
    exact Nat.mul_le_mul_right _ above
  have le_d : l ≤ d := by
    rw [← d_eq]
    apply le_nearest_of_le precise den_pos l_finite
    rw [lower, Nat.mul_right_comm (single.lowerEnd (k + 1))]
    exact Nat.mul_le_mul_right _ below
  have end_eq (a : Nat) : a * double.scale = 2 * (a * 2 ^ refinement * single.scale) := by
    rw [double_scale]
    ring
  refine ⟨?_, ?_, Nat.lt_of_le_of_lt d_le u_finite⟩
  · rw [end_eq, ← lower]
    exact Nat.mul_le_mul_left _ (Nat.mul_le_mul_right _ (quanta_le_quanta le_d))
  · rw [end_eq, ← upper]
    exact Nat.mul_le_mul_left _ (Nat.mul_le_mul_right _ (quanta_le_quanta d_le))

/-- The double is half-way to a neighbour of a magnitude of single precision. -/
def IsHalfway (m d : Nat) : Prop :=
  2 * (double.quanta d * single.scale) = single.lowerEnd m * double.scale ∨
    2 * (double.quanta d * single.scale) = single.upperEnd m * double.scale

instance (m d : Nat) : Decidable (IsHalfway m d) :=
  inferInstanceAs (Decidable (_ ∨ _))

/-- What is between the ends is rounded to the number between them, unless it is one of the ends
and the half goes to the neighbour there. -/
theorem nearest_single_iff (finite : m < single.infinity) {d : Nat}
    (lower : single.lowerEnd m * double.scale ≤ 2 * (double.quanta d * single.scale))
    (upper : 2 * (double.quanta d * single.scale) ≤ single.upperEnd m * double.scale) :
    single.nearest (double.quanta d * single.scale) double.scale = m ↔
      m % 2 = 0 ∨ ¬ IsHalfway m d := by
  have scale_pos : 0 < double.scale := Nat.two_pow_pos _
  have precise : 2 ≤ single.precision := by decide
  constructor
  · intro back
    refine or_iff_not_imp_left.mpr fun odd halfway => ?_
    rcases halfway with low | high
    · -- the half goes to the even number below
      obtain ⟨k, rfl⟩ : ∃ k, m = k + 1 := ⟨m - 1, by omega⟩
      have at_most : single.IsAtMost (double.quanta d * single.scale) double.scale k := by
        rw [IsAtMost, if_pos (by omega), low, lowerEnd_succ]
      have below := (nearest_le_iff precise scale_pos (Nat.lt_of_succ_lt finite)).mpr at_most
      omega
    · -- the half goes to the even number above
      have at_most := (nearest_le_iff precise scale_pos finite).mp (Nat.le_of_eq back)
      rw [IsAtMost, if_neg odd] at at_most
      omega
  · intro steady
    apply nearest_eq precise scale_pos finite
    · unfold IsAtMost
      split
      · exact upper
      · next odd =>
        have apart := steady.resolve_left odd
        exact Nat.lt_of_le_of_ne upper fun same => apart (.inr same)
    · rintro k rfl at_most
      rw [lowerEnd_succ] at lower
      unfold IsAtMost at at_most
      split at at_most
      · next even =>
        have apart := steady.resolve_left (by omega)
        exact apart (.inl (Nat.le_antisymm at_most lower))
      · omega

end Format

namespace Binary

/-- The magnitude of the double that is read first where a number of single precision is written. -/
def firstReading (m : Nat) : Nat :=
  let d := Format.single.shortest .toEven m
  Format.double.nearest (d.coefficient * 10 ^ d.exponent.toNat * Format.double.scale)
    (10 ^ (-d.exponent).toNat)

/-- The number is finite, and the double that is read first where it is written is not half-way
to a neighbour, or the half goes to the number. -/
def IsSteady : Single → Prop
  | .nan => False
  | .signed _ m _ =>
    m < Format.single.infinity ∧ (m % 2 = 0 ∨ ¬ Format.IsHalfway m (firstReading m))

instance : ∀ x : Single, Decidable x.IsSteady
  | .nan => .isFalse id
  | .signed _ m _ => inferInstanceAs (Decidable (_ ∧ (_ ∨ ¬ Format.IsHalfway m (firstReading m))))

/-- What is owned by a positive single is within the reach of double precision. -/
theorem within_reach {m : Nat} {v : ℚ} (pos : 0 < m) (finite : m < Format.single.infinity)
    (owns : Format.single.Owns m v) :
    (10 : ℚ) ^ (-(Format.double.reach : Int)) ≤ v ∧ v < (10 : ℚ) ^ (Format.double.reach : Int) := by
  obtain ⟨below, above⟩ := owns.between
  have quanta_pos : 0 < Format.single.quanta m :=
    Nat.lt_of_le_of_lt (Nat.zero_le _) (Format.quanta_lt_quanta pos)
  have lower : (1 : ℚ) ≤ Format.single.lowerEnd m := by
    exact_mod_cast Nat.le_trans quanta_pos (Nat.le_add_left _ _)
  have upper : (Format.single.upperEnd m : ℚ) ≤ 10 ^ 84 := by
    have largest : Format.single.upperEnd m ≤ 10 ^ 84 := by
      have infinity : Format.single.infinity =
          Format.single.binade + 254 * Format.single.binade := by decide
      have last := Format.upperEnd_lt_two_mul_quanta (f := .single) finite
      rw [infinity, Format.quanta_add (.inr (Nat.le_refl _)) (by omega)] at last
      have power : 2 * (Format.single.binade * 2 ^ 254) ≤ 10 ^ 84 := by decide
      exact Nat.le_trans (Nat.le_of_lt last) power
    exact_mod_cast largest
  have scale : 2 * (Format.single.scale : ℚ) = 2 ^ 150 := by
    have power : 2 * Format.single.scale = 2 ^ 150 := by decide
    exact_mod_cast power
  have reach : Format.double.reach = 1074 := by decide
  rw [scale] at below above
  rw [reach, zpow_neg, zpow_natCast]
  have some_scale : (0 : ℚ) < 2 ^ 150 := by positivity
  have scale_le : (2 : ℚ) ^ 150 ≤ 10 ^ 1074 :=
    le_trans (pow_le_pow_left₀ (by norm_num) (by norm_num) 150)
      (pow_le_pow_right₀ (by norm_num) (by norm_num))
  have v_pos : 0 < v :=
    pos_of_mul_pos_right (lt_of_lt_of_le one_pos (lower.trans below)) some_scale.le
  constructor
  · rw [inv_le_iff_one_le_mul₀ (by positivity)]
    calc (1 : ℚ) ≤ 2 ^ 150 * v := lower.trans below
      _ ≤ 10 ^ 1074 * v := mul_le_mul_of_nonneg_right scale_le v_pos.le
      _ = v * 10 ^ 1074 := mul_comm _ _
  · calc v ≤ 2 ^ 150 * v := le_mul_of_one_le_left v_pos.le (one_le_pow₀ (by norm_num))
      _ ≤ 10 ^ 84 := above.trans upper
      _ < 10 ^ 1074 := pow_lt_pow_right₀ (by norm_num) (by norm_num)

/-- A zero is read as a zero. -/
theorem convert_zero (negative : Bool) :
    (zero negative : Double).convert .single = zero negative := by
  have scale_pos : 0 < Format.double.scale := Nat.two_pow_pos _
  have finite : 0 ≠ Format.double.infinity := by decide
  have none_left : Format.double.quanta 0 = 0 := by decide
  have nearest_zero : Format.single.nearest (0 * Format.single.scale) Format.double.scale = 0 :=
    Nat.le_zero.mp (Format.nearest_le_of_le (by decide) scale_pos (by decide) (by omega))
  simp only [zero, convert, if_neg finite, ofQuanta, none_left, nearest_zero]

/-- A finite number comes back from a decimal with the value of its shortest one if and only if
it is steady. -/
theorem convert_ofDecimal_iff {negative : Bool} {m : Nat} {le : m ≤ Format.single.infinity}
    (finite : m < Format.single.infinity) {c : Nat} {e : Int}
    (value : Decimal.value ⟨c, e⟩ = (Format.single.shortest .toEven m).value) :
    (ofDecimal negative c e : Double).convert .single = .signed negative m le ↔
      IsSteady (.signed negative m le) := by
  rw [IsSteady, and_iff_right finite, firstReading]
  rcases Nat.eq_zero_or_pos m with rfl | pos
  · have none_left : c = 0 := by
      rw [← Decimal.value_eq_zero_iff (e := e), value]
      exact Decimal.value_eq_zero_iff.mpr rfl
    rw [ofDecimal, if_pos none_left]
    exact ⟨fun _ => .inl rfl, fun _ => convert_zero negative⟩
  · have owns := Format.owns_shortest (f := .single) .toEven (by decide) pos
    generalize Format.single.shortest .toEven m = d at owns value
    obtain ⟨digits, exponent⟩ := d
    obtain ⟨low, high⟩ := within_reach pos finite owns
    have some_digits : 0 < digits := by
      rw [Nat.pos_iff_ne_zero]
      intro none_left
      rw [Decimal.value_eq_zero_iff.mpr none_left] at low
      exact absurd low (not_le.mpr (by positivity))
    obtain ⟨lower, upper, double_finite⟩ := Format.double_between pos finite owns rfl
    rw [← Format.nearest_single_iff finite lower upper, ofDecimal_congr (by decide) negative value,
      ofDecimal_eq some_digits low high]
    simp only [ofRatio, ofQuanta, convert, if_neg (Nat.ne_of_lt double_finite)]
    constructor
    · intro same
      exact (signed.inj same).2
    · intro same
      simp only [same]

-- The double that is nearest to `7.038531e-26` is half-way between two singles.
example : ¬ IsSteady (.signed false 0x15AE43FD (by decide)) := by decide +kernel

end Binary

end Voicing
