import Voicing.KeyStream
import Voicing.Midi.Message

/-!
Bounds of what is drawn and played.

Rounding never carries a number over a power of two: `Format.nearest_le` bounds the
magnitude of a quotient, `Format.nearest_lt` keeps it below where nothing is rounded.
From these,

* `KeyStream.draw_mem`: every draw lies in `[0, 1)`;
* `Midi.Data.level_mem`: the level of a data byte lies in `[0, 1]`;
* `Midi.bendLevel_mem`: the bend of a wheel position lies in `[-1, 1]`.
-/

namespace Voicing

-- Powers are those of core, whichever other monoids are in scope.
attribute [local instance (high)] instPowNat

/-! ### Rounding -/

theorem roundHalfEven_le {n d q : Nat} (pos : 0 < d) (le : n ≤ q * d) : roundHalfEven n d ≤ q := by
  have quotient : n / d ≤ q := Nat.div_le_of_le_mul (by rwa [Nat.mul_comm] at le)
  rcases Nat.lt_or_eq_of_le quotient with below | same
  · unfold roundHalfEven
    split
    · omega
    · split <;> omega
  · have whole : n % d = 0 := by
      have parts := Nat.div_add_mod n d
      rw [same, Nat.mul_comm] at parts
      omega
    simp [roundHalfEven, whole, pos, same]

theorem roundHalfEven_mul {d : Nat} (pos : 0 < d) (q : Nat) : roundHalfEven (q * d) d = q := by
  simp [roundHalfEven, pos]

namespace Format

variable {f : Format}

theorem binade_pos : 0 < f.binade := Nat.two_pow_pos _

theorem two_pow_precision (precise : 0 < f.precision) : 2 ^ f.precision = 2 * f.binade := by
  obtain ⟨p, hp⟩ : ∃ p, f.precision = p + 1 := ⟨f.precision - 1, by omega⟩
  rw [binade, hp, Nat.add_sub_cancel, Nat.pow_succ, Nat.mul_comm]

/-- The magnitude of a number of at most `2 ^ k` quanta. -/
theorem nearest_le {n d k : Nat} (precise : 0 < f.precision) (wide : f.precision ≤ k) (pos : 0 < d)
    (le : n ≤ 2 ^ k * d) : f.nearest n d ≤ (k - f.precision + 2) * f.binade := by
  have quotient : n / d ≤ 2 ^ k := Nat.div_le_of_le_mul (by rwa [Nat.mul_comm] at le)
  refine Nat.le_trans (Nat.min_le_left _ _) ?_
  rcases Nat.lt_or_eq_of_le quotient with below | same
  · -- A quotient below the power has its shift below the power's.
    have shift_le : (n / d).log2 + 1 - f.precision ≤ k - f.precision := by
      by_cases zero : n / d = 0
      · simp [zero]; omega
      · have := (Nat.log2_lt zero).mpr below
        omega
    generalize shifted : (n / d).log2 + 1 - f.precision = shift at shift_le
    have rounded : roundHalfEven n (d * 2 ^ shift) ≤ 2 ^ f.precision := by
      apply roundHalfEven_le (Nat.mul_pos pos (Nat.two_pow_pos _))
      have small : n / d < 2 ^ (f.precision + shift) :=
        Nat.lt_of_lt_of_le Nat.lt_log2_self (Nat.pow_le_pow_right (by decide) (by omega))
      have bound : n < 2 ^ (f.precision + shift) * d := (Nat.div_lt_iff_lt_mul pos).mp small
      rw [Nat.pow_add, Nat.mul_assoc, Nat.mul_comm (2 ^ shift)] at bound
      exact Nat.le_of_lt bound
    calc roundHalfEven n (d * 2 ^ shift) + shift * f.binade
        ≤ 2 * f.binade + (k - f.precision) * f.binade :=
          Nat.add_le_add (two_pow_precision precise ▸ rounded) (Nat.mul_le_mul_right _ shift_le)
      _ = (k - f.precision + 2) * f.binade := by rw [Nat.add_mul, Nat.add_comm]
  · have whole : n = 2 ^ k * d := by
      have := Nat.div_mul_le_self n d
      rw [same] at this
      exact Nat.le_antisymm le this
    have split_pow : 2 ^ k = f.binade * 2 ^ (k + 1 - f.precision) := by
      rw [binade, ← Nat.pow_add]
      congr 1
      omega
    have rounded : roundHalfEven n (d * 2 ^ (k + 1 - f.precision)) = f.binade := by
      rw [whole, split_pow, Nat.mul_assoc, Nat.mul_comm _ d]
      exact roundHalfEven_mul (Nat.mul_pos pos (Nat.two_pow_pos _)) _
    rw [same, Nat.log2_two_pow, rounded, show k + 1 - f.precision = k - f.precision + 1 by omega]
    exact Nat.le_of_eq (by rw [Nat.add_mul, Nat.add_mul, Nat.one_mul]; omega)

/-- A whole number of quanta below `2 ^ k` whose last bits are clear is not rounded, and
so stays below. -/
theorem nearest_lt {x d k : Nat} (precise : 0 < f.precision) (wide : f.precision ≤ k) (pos : 0 < d)
    (below : x < 2 ^ k) (clear : 2 ^ (k - f.precision) ∣ x) :
    f.nearest (x * d) d < (k - f.precision + 2) * f.binade := by
  refine Nat.lt_of_le_of_lt (Nat.min_le_left _ _) ?_
  rw [Nat.mul_div_cancel _ pos]
  have shift_le : x.log2 + 1 - f.precision ≤ k - f.precision := by
    by_cases zero : x = 0
    · simp [zero]; omega
    · have := (Nat.log2_lt zero).mpr below
      omega
  generalize shifted : x.log2 + 1 - f.precision = shift at shift_le
  obtain ⟨y, rfl⟩ := Nat.dvd_trans (Nat.pow_dvd_pow 2 shift_le) clear
  have exact_value : roundHalfEven (2 ^ shift * y * d) (d * 2 ^ shift) = y := by
    rw [show 2 ^ shift * y * d = y * (d * 2 ^ shift) by ac_rfl]
    exact roundHalfEven_mul (Nat.mul_pos pos (Nat.two_pow_pos _)) y
  have small : y < 2 ^ f.precision := by
    have : 2 ^ shift * y < 2 ^ shift * 2 ^ f.precision := by
      rw [← Nat.pow_add]
      exact Nat.lt_of_lt_of_le Nat.lt_log2_self (Nat.pow_le_pow_right (by decide) (by omega))
    exact Nat.lt_of_mul_lt_mul_left this
  rw [exact_value]
  calc y + shift * f.binade
      < 2 * f.binade + (k - f.precision) * f.binade :=
        Nat.add_lt_add_of_lt_of_le (two_pow_precision precise ▸ small)
          (Nat.mul_le_mul_right _ shift_le)
    _ = (k - f.precision + 2) * f.binade := by rw [Nat.add_mul, Nat.add_comm]

/-- A larger magnitude has no fewer quanta. -/
theorem quanta_le_quanta {m n : Nat} (le : m ≤ n) : f.quanta m ≤ f.quanta n := by
  have binade_le : m / f.binade ≤ n / f.binade := Nat.div_le_div_right le
  have mod_m : m % f.binade < f.binade := Nat.mod_lt _ binade_pos
  by_cases lowest : m / f.binade = 0
  · by_cases also : n / f.binade = 0
    · simpa [quanta, lowest, also] using le
    · have small : m < f.binade := by
        rwa [Nat.mod_eq_of_lt ((Nat.div_eq_zero_iff_lt binade_pos).mp lowest)] at mod_m
      simp only [quanta, lowest, also, if_true, if_false]
      have grows := Nat.le_mul_of_pos_right (n % f.binade + f.binade)
        (Nat.two_pow_pos (n / f.binade - 1))
      exact Nat.le_trans (by omega) grows
  · have parts_m := Nat.div_add_mod m f.binade
    have parts_n := Nat.div_add_mod n f.binade
    unfold quanta
    generalize m / f.binade = a at *
    generalize n / f.binade = b at *
    have above : b ≠ 0 := by omega
    simp only [lowest, above, if_false]
    rcases Nat.lt_or_eq_of_le binade_le with lower | rfl
    · calc (m % f.binade + f.binade) * 2 ^ (a - 1)
          ≤ (2 * f.binade) * 2 ^ (a - 1) := Nat.mul_le_mul_right _ (by omega)
        _ = f.binade * 2 ^ a := by
          rw [Nat.mul_comm 2, Nat.mul_assoc, ← Nat.pow_succ']
          congr 2
          omega
        _ ≤ f.binade * 2 ^ (b - 1) :=
          Nat.mul_le_mul_left _ (Nat.pow_le_pow_right (by decide) (by omega))
        _ ≤ (n % f.binade + f.binade) * 2 ^ (b - 1) :=
          Nat.mul_le_mul_right _ (Nat.le_add_left _ _)
    · exact Nat.mul_le_mul_right _ (by omega)

end Format

/-! ### Numbers between minus one and one -/

/-- The magnitude of the number one. -/
def oneMagnitude : Nat := 0x3F800000

theorem Binary.signed_mem {negative : Bool} {m : Nat} (h : m ≤ Format.single.infinity)
    (le : m ≤ oneMagnitude) :
    (-1 : Single) ≤ .signed negative m h ∧ (Binary.signed negative m h : Single) ≤ 1 := by
  have low : (-1 : Single).key? = some (-(oneMagnitude : Int)) := by decide
  have high : (1 : Single).key? = some (oneMagnitude : Int) := by decide
  rw [Binary.le_iff, Binary.le_iff]
  refine ⟨⟨_, _, low, rfl, ?_⟩, ⟨_, _, rfl, high, ?_⟩⟩
  · cases negative with
    | true => simpa using le
    | false => simp
  · cases negative with
    | true => simp
    | false => simpa using le

theorem Binary.zero_le_signed {m : Nat} (h : m ≤ Format.single.infinity) :
    (0 : Single) ≤ .signed false m h := by
  have low : (0 : Single).key? = some 0 := by decide
  rw [Binary.le_iff]
  exact ⟨_, _, low, rfl, by simp⟩

theorem Binary.signed_lt_one {m : Nat} (h : m ≤ Format.single.infinity) (lt : m < oneMagnitude) :
    (Binary.signed false m h : Single) < 1 := by
  have high : (1 : Single).key? = some (oneMagnitude : Int) := by decide
  rw [Binary.lt_iff]
  exact ⟨_, _, rfl, high, by simp; omega⟩

/-- Dividing by a number at least as large gives one at most. -/
theorem Binary.div_mem {negative : Bool} {m n : Nat} (hm : m ≤ Format.single.infinity)
    (hn : n ≤ Format.single.infinity) (le : m ≤ n) (pos : n ≠ 0)
    (finite : n ≠ Format.single.infinity) :
    (-1 : Single) ≤ .signed negative m hm / .signed false n hn ∧
      (.signed negative m hm / .signed false n hn : Single) ≤ 1 := by
  have finite_m : m ≠ Format.single.infinity := fun same => finite (Nat.le_antisymm hn (same ▸ le))
  have quotient : (.signed negative m hm / .signed false n hn : Single) =
      ofQuanta (negative != false) (Format.single.quanta m * Format.single.scale)
        (Format.single.quanta n) := by
    change div _ _ = _
    simp only [div, finite_m, finite, pos, if_false]
  have quanta_pos : 0 < Format.single.quanta n :=
    Nat.lt_of_lt_of_le (by decide : 0 < Format.single.quanta 1)
      (Format.quanta_le_quanta (Nat.pos_of_ne_zero pos))
  have bound : Format.single.quanta m * Format.single.scale ≤ 2 ^ 149 * Format.single.quanta n := by
    rw [Nat.mul_comm]
    exact Nat.mul_le_mul_left _ (Format.quanta_le_quanta le)
  rw [quotient]
  exact signed_mem _ (Format.nearest_le (by decide) (by decide) quanta_pos bound)

/-! ### Draws, levels and bends -/

/-- Every draw lies in `[0, 1)`. -/
theorem KeyStream.draw_mem (s : KeyStream) : (0 : Single) ≤ s.draw ∧ s.draw < 1 := by
  refine ⟨Binary.zero_le_signed _, Binary.signed_lt_one _ ?_⟩
  generalize drawn : (KeyStream.word s.key s.position).toNat / 0x100 = n
  have bits : n < 2 ^ 24 := by
    have := (KeyStream.word s.key s.position).toNat_lt
    omega
  have quanta : n * Format.single.scale = n * 2 ^ 125 * 0x1000000 := by
    rw [Nat.mul_assoc]
    rfl
  rw [quanta]
  have below : n * 2 ^ 125 < 2 ^ 149 := by
    rw [show (2 ^ 149 : Nat) = 2 ^ 24 * 2 ^ 125 from rfl]
    exact Nat.mul_lt_mul_of_pos_right bits (Nat.two_pow_pos _)
  exact Format.nearest_lt (f := .single) (by decide) (by decide) (by decide) below
    (Nat.dvd_mul_left _ _)

namespace Midi

/-- The level of a data byte lies in `[0, 1]`. -/
theorem Data.level_mem : ∀ d : Data, (0 : Single) ≤ d.level ∧ d.level ≤ 1 := by
  decide +kernel

/-- The bend of a wheel position lies in `[-1, 1]`. -/
theorem bendLevel_mem (position : Fin 16384) :
    (-1 : Single) ≤ bendLevel position ∧ bendLevel position ≤ 1 := by
  have turn_le : ((position.val : Int) - 8192).natAbs ≤ 8192 := by omega
  unfold bendLevel
  generalize (position.val : Int) - 8192 = turn at turn_le
  -- Both ends of the wheel are powers of two, so the wheel's turn is no larger than they are.
  have magnitude_le : Format.single.nearest (turn.natAbs * Format.single.scale) 1 ≤ 0x46000000 :=
    Format.nearest_le (k := 162) (by decide) (by decide) (by decide)
      (by rw [Nat.mul_one]; exact Nat.mul_le_mul_right Format.single.scale turn_le)
  exact Binary.div_mem (Nat.min_le_right _ _) (by decide) magnitude_le (by decide) (by decide)

end Midi

end Voicing
