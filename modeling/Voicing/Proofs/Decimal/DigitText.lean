import Voicing.Decimal.Style
import Voicing.Decimal.Read

/-!
Digits, written and read back.

* `readDigitsFrom?_toDigits`: the digits of a number give the number back, in any base up to
  sixteen, and so do its capital letters.
* `readInteger?_digits`: the reader of whole numbers.
-/

namespace Voicing

-- Powers are those of core, whichever other monoids are in scope.
attribute [local instance (high)] instPowNat

/-! ### Single digits -/

theorem digitValue?_digitChar {base d : Nat} (small : base ≤ 16) (digit : d < base) :
    digitValue? base d.digitChar = some d ∧ digitValue? base d.digitChar.toUpper = some d := by
  have in_sixteen : ∀ d < 16, digitValue? 16 d.digitChar = some d ∧
      digitValue? 16 d.digitChar.toUpper = some d := by decide
  have narrow {c : Char} (read : digitValue? 16 c = some d) : digitValue? base c = some d := by
    unfold digitValue? at read ⊢
    obtain ⟨value, -⟩ := Option.filter_eq_some_iff.mp read
    exact Option.filter_eq_some_iff.mpr ⟨value, by simpa using digit⟩
  obtain ⟨lower, upper⟩ := in_sixteen d (Nat.lt_of_lt_of_le digit small)
  exact ⟨narrow lower, narrow upper⟩

/-- Only decimal digits have a value in base ten. -/
theorem isDigit_of_digitValue? {c : Char} {d : Nat} (digit : digitValue? 10 c = some d) :
    c.isDigit = true := by
  unfold digitValue? at digit
  obtain ⟨value, small⟩ := Option.filter_eq_some_iff.mp digit
  have small : d < 10 := by simpa using small
  split at value
  · assumption
  · split at value
    · cases value
      omega
    · split at value
      · cases value
        omega
      · cases value

theorem digitValue?_zero {base : Nat} (pos : 0 < base) (small : base ≤ 16) :
    digitValue? base '0' = some 0 :=
  (digitValue?_digitChar small pos).1

/-! ### Runs of digits -/

section Runs

variable {base : Nat}

theorem readDigitsFrom?_append (sofar : Nat) (cs ds : List Char) :
    readDigitsFrom? base sofar (cs ++ ds) =
      (readDigitsFrom? base sofar cs).bind (readDigitsFrom? base · ds) := by
  induction cs generalizing sofar with
  | nil => rfl
  | cons c cs ih =>
      rw [List.cons_append, readDigitsFrom?, readDigitsFrom?]
      cases digitValue? base c with
      | none => rfl
      | some d => exact ih _

theorem readDigitsFrom?_zeros (pos : 0 < base) (small : base ≤ 16) (sofar count : Nat) :
    readDigitsFrom? base sofar (zeros count) = some (sofar * base ^ count) := by
  induction count generalizing sofar with
  | zero => rw [Nat.pow_zero, Nat.mul_one]; rfl
  | succ count ih =>
      have cons : zeros (count + 1) = '0' :: zeros count := rfl
      rw [cons, readDigitsFrom?, digitValue?_zero pos small, Option.bind_some, ih, Nat.pow_succ,
        Nat.add_zero, Nat.mul_assoc, Nat.mul_comm base]

/-- Digits in small or capital letters add up to the number they were made of. -/
theorem readDigitsFrom?_toDigits (big : 1 < base) (small : base ≤ 16) (sofar n : Nat) :
    readDigitsFrom? base sofar (Nat.toDigits base n) =
        some (sofar * base ^ (Nat.toDigits base n).length + n) ∧
      readDigitsFrom? base sofar ((Nat.toDigits base n).map Char.toUpper) =
        some (sofar * base ^ (Nat.toDigits base n).length + n) := by
  induction n using Nat.strongRecOn generalizing sofar with
  | ind n ih =>
      by_cases digit : n < base
      · obtain ⟨lower, upper⟩ := digitValue?_digitChar small digit
        rw [Nat.toDigits_of_lt_base digit]
        simp [readDigitsFrom?, lower, upper]
      · have le : base ≤ n := Nat.le_of_not_lt digit
        have last : n % base < base := Nat.mod_lt _ (Nat.lt_trans Nat.zero_lt_one big)
        obtain ⟨lower, upper⟩ := digitValue?_digitChar small last
        obtain ⟨ih_lower, ih_upper⟩ := ih (n / base)
          (Nat.div_lt_self (Nat.lt_of_lt_of_le (Nat.lt_trans Nat.zero_lt_one big) le) big) sofar
        have value : (sofar * base ^ (Nat.toDigits base (n / base)).length + n / base) * base +
            n % base = sofar * base ^ ((Nat.toDigits base (n / base)).length + 1) + n := by
          have parts := Nat.div_add_mod n base
          rw [Nat.mul_comm] at parts
          rw [Nat.add_mul, Nat.pow_succ, Nat.mul_assoc, Nat.add_assoc, parts]
        rw [Nat.toDigits_of_base_le big le, List.length_append, List.map_append]
        simp [readDigitsFrom?_append, ih_lower, ih_upper, readDigitsFrom?, lower, upper, value]

/-- The digits of a number are those of the base. -/
theorem exists_digitChar {n : Nat} {c : Char} (big : 1 < base) (mem : c ∈ Nat.toDigits base n) :
    ∃ d, d < base ∧ c = d.digitChar := by
  induction n using Nat.strongRecOn with
  | ind n ih =>
      by_cases digit : n < base
      · rw [Nat.toDigits_of_lt_base digit] at mem
        exact ⟨n, digit, List.mem_singleton.mp mem⟩
      · have le : base ≤ n := Nat.le_of_not_lt digit
        have pos : 0 < base := Nat.lt_trans Nat.zero_lt_one big
        rw [Nat.toDigits_of_base_le big le] at mem
        rcases List.mem_append.mp mem with mem | mem
        · exact ih (n / base) (Nat.div_lt_self (Nat.lt_of_lt_of_le pos le) big) mem
        · exact ⟨n % base, Nat.mod_lt _ pos, List.mem_singleton.mp mem⟩

theorem readDigits?_toDigits (big : 1 < base) (small : base ≤ 16) (n : Nat) :
    readDigits? base (Nat.toDigits base n) = some n := by
  have some_digits : (Nat.toDigits base n).isEmpty = false := by
    simp [Nat.toDigits_ne_nil]
  rw [readDigits?, some_digits, (readDigitsFrom?_toDigits big small 0 n).1, Nat.zero_mul,
    Nat.zero_add]
  rfl

end Runs

/-! ### Decimal digits -/

theorem isDigit_of_mem_toDigits {n : Nat} {c : Char} (mem : c ∈ Nat.toDigits 10 n) :
    c.isDigit = true :=
  Nat.isDigit_of_mem_toDigits (by decide) (by decide) mem

/-- A decimal begins with a digit, so it has no sign. -/
theorem exists_toDigits (n : Nat) :
    ∃ d ds, Nat.toDigits 10 n = d :: ds ∧ d.isDigit = true ∧ ∀ c ∈ ds, c.isDigit = true := by
  cases digits : Nat.toDigits 10 n with
  | nil => exact absurd digits Nat.toDigits_ne_nil
  | cons d ds =>
      have each := fun c (mem : c ∈ d :: ds) => isDigit_of_mem_toDigits (n := n) (digits ▸ mem)
      exact ⟨d, ds, rfl, each d List.mem_cons_self,
        fun c mem => each c (List.mem_cons_of_mem _ mem)⟩

/-- A digit is no capital letter. -/
theorem toLower_of_isDigit {c : Char} (digit : c.isDigit = true) : c.toLower = c := by
  unfold Char.toLower
  rw [dif_neg]
  rintro ⟨upper, -⟩
  simp only [Char.isDigit, Bool.and_eq_true, decide_eq_true_eq] at digit
  exact absurd (UInt32.le_trans upper digit.2) (by decide)

theorem splitSign_unsigned {c : Char} (hyphen : c ≠ '-') (plus : c ≠ '+') (cs : List Char) :
    splitSign (c :: cs) = (false, c :: cs) := by
  unfold splitSign
  split
  · next same => exact absurd (List.cons.inj same).1 hyphen
  · next same => exact absurd (List.cons.inj same).1 plus
  · rfl

theorem splitSign_of_isDigit {d : Char} (digit : d.isDigit = true) (cs : List Char) :
    splitSign (d :: cs) = (false, d :: cs) := by
  apply splitSign_unsigned <;>
  · rintro rfl
    exact absurd digit (by decide)

theorem splitSign_toDigits (n : Nat) (cs : List Char) :
    splitSign (Nat.toDigits 10 n ++ cs) = (false, Nat.toDigits 10 n ++ cs) := by
  obtain ⟨d, ds, digits, digit, -⟩ := exists_toDigits n
  rw [digits]
  exact splitSign_of_isDigit digit _

theorem readInteger?_digits {least greatest : Int} {n : Nat} (low : least ≤ n)
    (high : (n : Int) ≤ greatest) :
    readInteger? 10 least greatest (Nat.toDigits 10 n) = some (n : Int) := by
  have unsigned := splitSign_toDigits n []
  rw [List.append_nil] at unsigned
  rw [readInteger?, unsigned]
  simp [readDigits?_toDigits, low, high]

/-! ### How many digits there are -/

theorem digitCount_pos (n : Nat) : 0 < digitCount n :=
  List.length_pos_iff.mpr Nat.toDigits_ne_nil

theorem lt_ten_pow_digitCount (n : Nat) : n < 10 ^ digitCount n :=
  (Nat.length_toDigits_le_iff (by decide) (digitCount_pos n)).mp (Nat.le_refl _)

theorem ten_pow_digitCount_le {n : Nat} (pos : 0 < n) : 10 ^ (digitCount n - 1) ≤ n := by
  rcases Nat.eq_zero_or_pos (digitCount n - 1) with none_more | more
  · rw [none_more]
    exact pos
  · refine Nat.le_of_not_lt fun small => ?_
    have fewer := (Nat.length_toDigits_le_iff (by decide) more).mpr small
    have count : (Nat.toDigits 10 n).length = digitCount n := rfl
    omega

end Voicing
