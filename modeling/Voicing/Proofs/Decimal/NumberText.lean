import Voicing.Proofs.Decimal.Recovery

/-!
Numbers in bank files, written and read back.

A *numeral* of a decimal is an unsigned text that is read as the decimal's value: digits, and a
point or an exponent, so that it is no whole number.

* `Decimal.isNumeral_positional`, `Decimal.isNumeral_scientific`: both forms are numerals.
* `Binary.read?_render`: a steady number comes back from its text in the style of bank files.
-/

namespace Voicing

-- Powers are those of core, whichever other monoids are in scope.
attribute [local instance (high)] instPowNat

/-! ### The parts of a numeral -/

/-- What has a character that is no digit is no run of digits. -/
theorem readDigitsFrom?_eq_none {cs : List Char} {c : Char} (mem : c ∈ cs)
    (other : c.isDigit = false) (sofar : Nat) : readDigitsFrom? 10 sofar cs = none := by
  induction cs generalizing sofar with
  | nil => cases mem
  | cons d cs ih =>
      rw [readDigitsFrom?]
      rcases List.mem_cons.mp mem with rfl | mem
      · cases value : digitValue? 10 c with
        | none => rfl
        | some n =>
            rw [isDigit_of_digitValue? value] at other
            cases other
      · cases digitValue? 10 d with
        | none => rfl
        | some n => exact ih mem _

/-- Zeros in front of digits do not count. -/
theorem readDigits?_zeros_append (k n : Nat) :
    readDigits? 10 (zeros k ++ Nat.toDigits 10 n) = some n := by
  have some_digits : (zeros k ++ Nat.toDigits 10 n).isEmpty = false := by
    simp [Nat.toDigits_ne_nil]
  rw [readDigits?, some_digits]
  simp [readDigitsFrom?_append, readDigitsFrom?_zeros, readDigitsFrom?_toDigits]

/-- Zeros behind digits count as powers of ten. -/
theorem readDigits?_append_zeros (n k : Nat) :
    readDigits? 10 (Nat.toDigits 10 n ++ zeros k) = some (n * 10 ^ k) := by
  have some_digits : (Nat.toDigits 10 n ++ zeros k).isEmpty = false := by
    simp [Nat.toDigits_ne_nil]
  rw [readDigits?, some_digits]
  simp [readDigitsFrom?_append, readDigitsFrom?_zeros, readDigitsFrom?_toDigits]

theorem readExponent?_integerText (k : Int) :
    readExponent? ('e' :: (integerText k).toList) = some k := by
  have letter : 'e'.toLower = 'e' := by decide
  have digits : readDigits? 10 (Nat.toDigits 10 k.natAbs) = some k.natAbs :=
    readDigits?_toDigits (by decide) (by decide) _
  rcases Int.lt_or_le k 0 with negative | nonneg
  · have text : (integerText k).toList = '-' :: Nat.toDigits 10 k.natAbs := by
      simp [integerText, negative, digitsOf]
    rw [readExponent?, if_pos letter, text, splitSign]
    simp only [digits, Option.map_some, Option.bind_eq_bind, Option.bind_some, Option.pure_def]
    congr 1
    rw [if_pos trivial]
    omega
  · have text : (integerText k).toList = Nat.toDigits 10 k.natAbs := by
      rw [integerText, if_neg (by omega), digitsOf, String.toList_ofList]
    have split := splitSign_toDigits k.natAbs []
    rw [List.append_nil] at split
    rw [readExponent?, if_pos letter, text, split]
    simp only [digits, Option.map_some, Option.bind_eq_bind, Option.bind_some, Option.pure_def]
    congr 1
    rw [if_neg Bool.false_ne_true]
    omega

namespace Binary

variable {f : Format} {whole fraction rest : List Char}

/-- A run of digits ends where something else begins. -/
theorem takeWhile_digits (rest : List Char) (digits : ∀ c ∈ whole, c.isDigit = true)
    (ends : rest.head?.any Char.isDigit = false) :
    (whole ++ rest).takeWhile Char.isDigit = whole ∧
      (whole ++ rest).dropWhile Char.isDigit = rest := by
  rw [List.takeWhile_append_of_pos digits, List.dropWhile_append_of_pos digits]
  cases rest with
  | nil => simp
  | cons c rest =>
      have other : ¬ c.isDigit = true := by simpa using ends
      rw [List.takeWhile_cons_of_neg other, List.dropWhile_cons_of_neg other, List.append_nil]
      exact ⟨rfl, rfl⟩

theorem readUnsigned?_pointed (negative : Bool) (rest : List Char)
    (digits : ∀ c ∈ whole, c.isDigit = true)
    (others : ∀ c ∈ fraction, c.isDigit = true) (ends : rest.head?.any Char.isDigit = false) :
    (readUnsigned? negative (whole ++ '.' :: (fraction ++ rest)) : Option (Binary f)) =
      (readDigits? 10 (whole ++ fraction)).bind fun c =>
        (readExponent? rest).map fun e => ofDecimal negative c (e - fraction.length) := by
  obtain ⟨take, drop⟩ := takeWhile_digits ('.' :: (fraction ++ rest)) digits rfl
  obtain ⟨take', drop'⟩ := takeWhile_digits rest others ends
  rw [readUnsigned?, take, drop]
  simp only [take', drop']

theorem readUnsigned?_unpointed (negative : Bool) (rest : List Char)
    (digits : ∀ c ∈ whole, c.isDigit = true)
    (ends : rest.head?.any Char.isDigit = false) (point : rest.head? ≠ some '.') :
    (readUnsigned? negative (whole ++ rest) : Option (Binary f)) =
      (readDigits? 10 whole).bind fun c =>
        (readExponent? rest).map fun e => ofDecimal negative c e := by
  obtain ⟨take, drop⟩ := takeWhile_digits rest digits ends
  rw [readUnsigned?, take, drop]
  cases rest with
  | nil => simp
  | cons c rest =>
      dsimp only
      split
      · next r same => exact absurd (congrArg some (List.cons.inj same).1) point
      · simp

end Binary

/-! ### Numerals -/

namespace Decimal

/-- An unsigned text that is read as the value of a decimal and is no whole number. -/
structure IsNumeral (d : Decimal) (cs : List Char) : Prop where
  chars : ∀ c ∈ cs, c.isDigit = true ∨ c ∈ ['.', 'e', '-']
  begins : ∃ c rest, cs = c :: rest ∧ c.isDigit = true
  marked : ∃ c ∈ cs, c.isDigit = false
  read : ∀ negative, ∃ c e, value ⟨c, e⟩ = d.value ∧
    (Binary.readUnsigned? negative cs : Option Double) = some (Binary.ofDecimal negative c e)

/-- Digits around a point are a numeral of the number that the digits are, moved behind the
point. -/
theorem isNumeral_pointed {d : Decimal} {whole fraction : List Char} {c : Nat}
    (some_whole : whole ≠ []) (digits : ∀ c ∈ whole ++ fraction, c.isDigit = true)
    (number : readDigits? 10 (whole ++ fraction) = some c)
    (same : value ⟨c, -(fraction.length : Int)⟩ = d.value) :
    IsNumeral d (whole ++ '.' :: fraction) := by
  have in_whole : ∀ c ∈ whole, c.isDigit = true := fun c mem =>
    digits c (List.mem_append_left _ mem)
  have in_fraction : ∀ c ∈ fraction, c.isDigit = true := fun c mem =>
    digits c (List.mem_append_right _ mem)
  obtain ⟨first, others, rfl⟩ := List.exists_cons_of_ne_nil some_whole
  constructor
  · intro c mem
    rcases List.mem_append.mp mem with mem | mem
    · exact .inl (in_whole c mem)
    · rcases List.mem_cons.mp mem with rfl | mem
      · exact .inr (by decide)
      · exact .inl (in_fraction c mem)
  · exact ⟨first, others ++ '.' :: fraction, rfl, in_whole first List.mem_cons_self⟩
  · exact ⟨'.', by simp, rfl⟩
  · intro negative
    have read := Binary.readUnsigned?_pointed (f := .double) negative [] in_whole in_fraction rfl
    rw [List.append_nil, number] at read
    refine ⟨c, -(fraction.length : Int), same, ?_⟩
    rw [read]
    simp [readExponent?]

theorem isDigit_of_mem_zeros {k : Nat} {ch : Char} (mem : ch ∈ zeros k) : ch.isDigit = true := by
  rw [List.eq_of_mem_replicate mem]
  rfl

/-- The point is behind the digits and the zeros that stand for the exponent. -/
theorem isNumeral_point_behind {c : Nat} {e : Int} (whole : 0 ≤ e) :
    IsNumeral ⟨c, e⟩ ((Nat.toDigits 10 c ++ zeros e.toNat) ++ '.' :: ['0']) := by
  have one_more : zeros e.toNat ++ ['0'] = zeros (e.toNat + 1) := List.replicate_succ'.symm
  apply isNumeral_pointed (c := c * 10 ^ (e.toNat + 1))
  · simp [Nat.toDigits_ne_nil]
  · rw [List.append_assoc, one_more]
    intro ch mem
    exact (List.mem_append.mp mem).elim isDigit_of_mem_toDigits isDigit_of_mem_zeros
  · rw [List.append_assoc, one_more, readDigits?_append_zeros]
  · obtain ⟨n, rfl⟩ := Int.eq_ofNat_of_zero_le whole
    simp only [value, Int.toNat_natCast, List.length_singleton]
    rw [zpow_natCast, Nat.cast_one, zpow_neg_one]
    push_cast
    rw [pow_succ, mul_assoc, mul_assoc, mul_inv_cancel₀ (by norm_num), mul_one]

/-- The point is among the digits. -/
theorem isNumeral_point_among {c k : Nat} {e : Int} (some_whole : 0 < k)
    (point : (k : Int) = digitCount c + e) (fractional : e < 0) :
    IsNumeral ⟨c, e⟩ ((Nat.toDigits 10 c).take k ++ '.' :: (Nat.toDigits 10 c).drop k) := by
  have count : (Nat.toDigits 10 c).length = digitCount c := rfl
  apply isNumeral_pointed (c := c)
  · intro nothing
    have length := congrArg List.length nothing
    rw [List.length_take, count] at length
    simp only [List.length_nil] at length
    omega
  · rw [List.take_append_drop]
    exact fun ch => isDigit_of_mem_toDigits
  · rw [List.take_append_drop]
    exact readDigits?_toDigits (by decide) (by decide) c
  · have exponent : -((digitCount c - k : Nat) : Int) = e := by omega
    rw [List.length_drop, count, exponent]

/-- The point is in front of zeros and the digits. -/
theorem isNumeral_point_before {c k : Nat} {e : Int} (point : -(k : Int) = digitCount c + e) :
    IsNumeral ⟨c, e⟩ (['0'] ++ '.' :: (zeros k ++ Nat.toDigits 10 c)) := by
  have count : (Nat.toDigits 10 c).length = digitCount c := rfl
  have one_more : ['0'] ++ (zeros k ++ Nat.toDigits 10 c) = zeros (k + 1) ++ Nat.toDigits 10 c :=
    rfl
  apply isNumeral_pointed (c := c)
  · simp
  · rw [one_more]
    intro ch mem
    exact (List.mem_append.mp mem).elim isDigit_of_mem_zeros isDigit_of_mem_toDigits
  · rw [one_more, readDigits?_zeros_append]
  · have exponent : -((k + digitCount c : Nat) : Int) = e := by omega
    rw [List.length_append, count, zeros, List.length_replicate, exponent]

/-- The positional form is a numeral. -/
theorem isNumeral_positional (d : Decimal) : IsNumeral d (d.positional ".0").toList := by
  obtain ⟨c, e⟩ := d
  unfold positional
  dsimp only
  split
  · next whole =>
    have text : (String.ofList (Nat.toDigits 10 c ++ zeros e.toNat) ++ ".0").toList =
        (Nat.toDigits 10 c ++ zeros e.toNat) ++ '.' :: ['0'] := by simp
    rw [text]
    exact isNumeral_point_behind whole
  · next fractional =>
    split
    · next inside =>
      rw [point] at inside ⊢
      dsimp only at inside ⊢
      rw [String.toList_ofList]
      exact isNumeral_point_among (by omega) (by omega) (by omega)
    · next outside =>
      rw [point] at outside ⊢
      dsimp only at outside ⊢
      rw [String.toList_ofList]
      exact isNumeral_point_before (by omega)

theorem chars_integerText (k : Int) :
    ∀ c ∈ (integerText k).toList, c.isDigit = true ∨ c ∈ ['.', 'e', '-'] := by
  have digits : ∀ c ∈ (digitsOf k.natAbs).toList, c.isDigit = true := by
    rw [digitsOf, String.toList_ofList]
    exact fun c => isDigit_of_mem_toDigits
  intro c mem
  rw [integerText] at mem
  split at mem
  · rw [String.toList_append] at mem
    rcases List.mem_append.mp mem with mem | mem
    · rw [List.mem_singleton.mp mem]
      exact .inr (by decide)
    · exact .inl (digits c mem)
  · exact .inl (digits c mem)

/-- The exponent form is a numeral. -/
theorem isNumeral_scientific (d : Decimal) : IsNumeral d d.scientific.toList := by
  obtain ⟨c, e⟩ := d
  obtain ⟨first, tail, digits, digit, others⟩ := exists_toDigits c
  have number : readDigits? 10 (first :: tail) = some c := by
    rw [← digits]
    exact readDigits?_toDigits (by decide) (by decide) c
  have count : digitCount c = tail.length + 1 := by rw [digitCount, digits, List.length_cons]
  have exponent := chars_integerText (point ⟨c, e⟩ - 1)
  have read_exponent := readExponent?_integerText (point ⟨c, e⟩ - 1)
  have one : ∀ ch ∈ [first], ch.isDigit = true := by
    intro ch mem
    rw [List.mem_singleton.mp mem]
    exact digit
  have exponent_eq : point ⟨c, e⟩ - 1 - tail.length = e := by
    rw [point, count]
    push_cast
    omega
  have text : (scientific ⟨c, e⟩).toList =
      [first] ++ ((if tail.isEmpty then [] else '.' :: tail) ++
        'e' :: (integerText (point ⟨c, e⟩ - 1)).toList) := by
    simp [scientific, digits]
  rw [text]
  generalize integerText (point ⟨c, e⟩ - 1) = written at *
  constructor
  · intro ch mem
    rcases List.mem_append.mp mem with mem | mem
    · exact .inl (one ch mem)
    · rcases List.mem_append.mp mem with mem | mem
      · split at mem
        · cases mem
        · rcases List.mem_cons.mp mem with rfl | mem
          · exact .inr (by decide)
          · exact .inl (others ch mem)
      · rcases List.mem_cons.mp mem with rfl | mem
        · exact .inr (by decide)
        · exact exponent ch mem
  · exact ⟨first, _, rfl, digit⟩
  · exact ⟨'e', by simp, rfl⟩
  · intro negative
    refine ⟨c, e, rfl, ?_⟩
    cases tail with
    | nil =>
        have read := Binary.readUnsigned?_unpointed (f := .double) negative
          ('e' :: written.toList) one rfl (by simp)
        rw [number, read_exponent] at read
        rw [← exponent_eq]
        simpa using read
    | cons second tail =>
        have read := Binary.readUnsigned?_pointed (f := .double) negative
          ('e' :: written.toList) one others rfl
        have joined : readDigits? 10 ([first] ++ second :: tail) = some c := number
        rw [joined, read_exponent] at read
        rw [← exponent_eq]
        simpa using read

end Decimal

namespace Binary

open Decimal (IsNumeral)

variable {f : Format}

/-- The text of a finite number is a numeral of its shortest decimal, behind its sign. -/
theorem render_bankFile (negative : Bool) {m : Nat} (le : m ≤ Format.single.infinity)
    (finite : m < Format.single.infinity) :
    ∃ cs, ((signed negative m le : Single).render .bankFile).toList =
        (if negative then ['-'] else []) ++ cs ∧
      IsNumeral (Format.single.shortest .toEven m) cs := by
  have sign : (if negative then "-" else "").toList = if negative then ['-'] else [] := by
    cases negative <;> rfl
  rw [render, if_neg (Nat.ne_of_lt finite)]
  dsimp only
  rw [String.toList_append, sign]
  refine ⟨_, rfl, ?_⟩
  split
  · exact Decimal.isNumeral_positional _
  · exact Decimal.isNumeral_scientific _

/-- What begins with a digit is no word, and a sign in front of it is taken off. -/
theorem read?_signed {first : Char} (digit : first.isDigit = true) (others : List Char)
    (negative : Bool) :
    (read? ((if negative then ['-'] else []) ++ first :: others) : Option (Binary f)) =
      readUnsigned? negative (first :: others) := by
  have split : splitSign ((if negative then ['-'] else []) ++ first :: others) =
      (negative, first :: others) := by
    cases negative
    · exact splitSign_of_isDigit digit others
    · rfl
  have no_word {word : List Char} (letter : word.head?.any Char.isDigit = false) :
      (first :: others).map Char.toLower ≠ word := by
    rintro rfl
    rw [List.map_cons, toLower_of_isDigit digit, List.head?_cons, Option.any_some, digit] at letter
    cases letter
  have unworded : ¬ ((first :: others).map Char.toLower = "inf".toList ∨
      (first :: others).map Char.toLower = "infinity".toList) := by
    rintro (same | same)
    · exact no_word (by decide) same
    · exact no_word (by decide) same
  rw [read?, split]
  dsimp only
  rw [if_neg unworded, if_neg (no_word (by decide))]

/-- A numeral behind its sign is read as the value of its decimal. -/
theorem read?_numeral {d : Decimal} {cs : List Char} (numeral : IsNumeral d cs)
    (negative : Bool) :
    ∃ c e, Decimal.value ⟨c, e⟩ = d.value ∧
      (read? ((if negative then ['-'] else []) ++ cs) : Option Double) =
        some (ofDecimal negative c e) := by
  obtain ⟨first, others, rfl, digit⟩ := numeral.begins
  obtain ⟨c, e, same, read⟩ := numeral.read negative
  exact ⟨c, e, same, by rw [read?_signed digit, read]⟩

/-- The digits of a natural number are a number as well. -/
theorem read?_digitsOf (n : Nat) :
    (read? (digitsOf n).toList : Option (Binary f)) = some (ofDecimal false n 0) := by
  obtain ⟨first, others, digits, digit, -⟩ := exists_toDigits n
  have signed := read?_signed (f := f) digit others false
  have unsigned := readUnsigned?_unpointed (f := f) false []
    (fun c => isDigit_of_mem_toDigits (n := n)) rfl (by simp)
  rw [List.append_nil, readDigits?_toDigits (by decide) (by decide)] at unsigned
  rw [← digits] at signed
  rw [digitsOf, String.toList_ofList]
  exact signed.trans unsigned

/-- A steady number comes back from its text in the style of bank files. -/
theorem read?_render {x : Single} (steady : x.IsSteady) :
    ∃ y : Double, read? (x.render .bankFile).toList = some y ∧ y.convert .single = x := by
  cases x with
  | nan => exact steady.elim
  | signed negative m le =>
      obtain ⟨cs, text, numeral⟩ := render_bankFile negative le steady.1
      obtain ⟨c, e, same, read⟩ := read?_numeral numeral negative
      rw [text]
      exact ⟨_, read, (convert_ofDecimal_iff steady.1 same).mpr steady⟩

end Binary

end Voicing
