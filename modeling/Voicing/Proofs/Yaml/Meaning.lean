import Voicing.Proofs.Decimal.NumberText
import Voicing.Proofs.Yaml.LiteralText
import Voicing.Yaml.Value

/-!
What plain scalars mean.

A plain scalar is read as null, a boolean, an integer or a real number if it is written like
one, and as text otherwise. A text that could be taken for one of them is never written plain.

* `Scalar.ofPlain_of_form`: a text that is written plain means itself.
* `Scalar.ofPlain_digitsOf`, `Scalar.ofPlain_boolean`, `Scalar.ofPlain_number`: integers, booleans
  and real numbers.
-/

namespace Voicing

namespace Yaml.Scalar

/-! ### Text -/

/-- What is not written like a number is none. -/
theorem isReal_eq_false {x : String} {c : Char} {cs : List Char} (chars : x.toList = c :: cs)
    (digit : c.isDigit = false) (unsigned : c ≠ '-' ∧ c ≠ '+' ∧ c ≠ '.') :
    Scalar.isReal x = false := by
  obtain ⟨hyphen, plus, point⟩ := unsigned
  have bounded : Scalar.unboundedNames.contains x = false := by
    have marks : ∀ name ∈ Scalar.unboundedNames,
        name.toList.head? ∈ [some '-', some '+', some '.'] := by decide
    rw [← Bool.not_eq_true, List.contains_iff_mem]
    intro mem
    have mark := marks x mem
    rw [chars] at mark
    simp [hyphen, plus, point] at mark
  have split := splitSign_unsigned hyphen plus cs
  have unread : (Binary.readUnsigned? false (c :: cs) : Option Double) = none := by
    unfold Binary.readUnsigned?
    rw [List.takeWhile_cons_of_neg (by simp [digit]), List.dropWhile_cons_of_neg (by simp [digit])]
    dsimp only
    split
    · next rest same => exact absurd (List.cons.inj same).1 point
    · rfl
  have words {word : List Char} (letters : word.any Char.isDigit = false)
      (same : (c :: cs).map Char.toLower = word) : (c :: cs).any Char.isDigit = false := by
    rw [List.any_eq_false]
    intro d mem number
    have in_word : d ∈ word := by
      rw [← same, ← toLower_of_isDigit number]
      exact List.mem_map_of_mem mem
    exact List.any_eq_false.mp letters d in_word number
  rw [Scalar.isReal, bounded, Bool.false_or, chars]
  unfold Binary.read?
  rw [split]
  dsimp only
  split
  · next infinity =>
    rcases infinity with same | same <;> rw [words (by decide) same, Bool.false_and]
  · split
    · next same => rw [words (by decide) same, Bool.false_and]
    · rw [unread, Option.isSome_none, Bool.and_false]

/-- The words that mean null or a boolean. -/
def plainWords : List String :=
  ["", "~", "null", "true", "True", "TRUE", "false", "False", "FALSE"]

/-- What is no such word and has no mark of an integer is a number or text. -/
theorem ofPlain_unlike {x : String} (marked : markedInteger? x.toList = none)
    (unlike : ∀ word ∈ plainWords, x ≠ word) :
    ofPlain x = (integer? 10 x.toList).getD (if isReal x then .real x else .text x) := by
  have boolean : boolean? x = none := by
    simp [boolean?, unlike "true" (by decide), unlike "True" (by decide),
      unlike "TRUE" (by decide), unlike "false" (by decide), unlike "False" (by decide),
      unlike "FALSE" (by decide)]
  have null : ["", "~", "null"].contains x = false := by
    simp [unlike "" (by decide), unlike "~" (by decide), unlike "null" (by decide)]
  rw [ofPlain, marked, boolean]
  simp only [null]
  cases integer? 10 x.toList <;> rfl

/-- A text that is written plain means itself. -/
theorem ofPlain_of_form {x : String} (form : TextForm.of x.toList = .plain) :
    ofPlain x = .text x := by
  have plain := (form_eq_plain form).1
  have unlike : ∀ word ∈ plainWords, x ≠ word := by
    have ambiguous : ∀ word ∈ plainWords, isAmbiguous word.toList = true := by decide
    rintro word mem rfl
    rw [ambiguous x mem] at plain
    cases plain
  obtain ⟨c, cs, chars⟩ := List.exists_cons_of_ne_nil (Plain.of_form form).nonempty
  rw [chars, isAmbiguous] at plain
  simp only [Bool.or_eq_false_iff] at plain
  obtain ⟨⟨digit, signs⟩, -⟩ := plain
  have hyphen : c ≠ '-' := by rintro rfl; cases signs
  have point : c ≠ '.' := by rintro rfl; cases signs
  have plus : c ≠ '+' := by rintro rfl; cases signs
  have zero : c ≠ '0' := by rintro rfl; cases digit
  have none_digit : digitValue? 10 c = none := by
    rw [← Option.not_isSome_iff_eq_none, Option.isSome_iff_exists]
    rintro ⟨d, value⟩
    rw [isDigit_of_digitValue? value] at digit
    cases digit
  have marked : markedInteger? x.toList = none := by
    rw [chars]
    unfold markedInteger?
    split
    · next same => exact absurd (List.cons.inj same).1 zero
    · next same => exact absurd (List.cons.inj same).1 zero
    · next same => exact absurd (List.cons.inj same).1 plus
    · rfl
  have integer : integer? 10 x.toList = none := by
    rw [chars, integer?, readInteger?, splitSign_unsigned hyphen plus]
    simp [readDigits?, readDigitsFrom?, none_digit]
  rw [ofPlain_unlike marked unlike, integer, isReal_eq_false chars digit ⟨hyphen, plus, point⟩]
  rfl

/-! ### Integers and booleans -/

/-- Digits are an integer, or a real number if there is no such integer. -/
theorem ofPlain_digitsOf (n : Nat) :
    ofPlain (digitsOf n) =
      if (n : Int) ≤ greatestInteger then .integer n else .real (digitsOf n) := by
  obtain ⟨d, ds, digits, digit, others⟩ := exists_toDigits n
  have chars : (digitsOf n).toList = d :: ds := by rw [digitsOf, String.toList_ofList, digits]
  have marked : markedInteger? (digitsOf n).toList = none := by
    rw [chars]
    unfold markedInteger?
    split
    · next same =>
      obtain ⟨-, rfl⟩ := List.cons.inj same
      exact absurd (others 'x' List.mem_cons_self) (by decide)
    · next same =>
      obtain ⟨-, rfl⟩ := List.cons.inj same
      exact absurd (others 'o' List.mem_cons_self) (by decide)
    · next same =>
      obtain ⟨rfl, -⟩ := List.cons.inj same
      exact absurd digit (by decide)
    · rfl
  have unlike : ∀ word ∈ plainWords, digitsOf n ≠ word := by
    have letters : ∀ word ∈ plainWords, word.toList.head?.any Char.isDigit = false := by decide
    rintro word mem rfl
    have first := letters _ mem
    rw [chars, List.head?_cons, Option.any_some, digit] at first
    cases first
  have least : leastInteger ≤ n := by
    have : leastInteger ≤ 0 := by decide
    omega
  rw [ofPlain_unlike marked unlike, integer?]
  by_cases small : (n : Int) ≤ greatestInteger
  · rw [if_pos small, digitsOf, String.toList_ofList, readInteger?_digits least small]
    rfl
  · have real : isReal (digitsOf n) = true := by
      have any_digit : (digitsOf n).toList.any Char.isDigit = true := by
        rw [chars, List.any_cons, digit, Bool.true_or]
      rw [isReal, any_digit, Binary.read?_digitsOf]
      simp
    have unsigned := splitSign_toDigits n []
    rw [List.append_nil] at unsigned
    have no_integer : readInteger? 10 leastInteger greatestInteger (digitsOf n).toList = none := by
      rw [digitsOf, String.toList_ofList, readInteger?, unsigned]
      simp [readDigits?_toDigits, Int.not_le.mp small]
    rw [if_neg small, no_integer, real]
    rfl

theorem ofPlain_boolean (b : Bool) : ofPlain (if b then "true" else "false") = .boolean b := by
  cases b <;> decide

theorem ofPlain_null : ofPlain "null" = .null := by decide

/-! ### Real numbers -/

/-- A numeral behind a sign is a real number. -/
theorem ofPlain_numeral {d : Decimal} {cs : List Char} (numeral : d.IsNumeral cs)
    {negative : Bool} {x : String} (text : x.toList = (if negative then ['-'] else []) ++ cs) :
    ofPlain x = .real x := by
  obtain ⟨first, others, rfl, digit⟩ := numeral.begins
  obtain ⟨mark, mem_mark, no_digit⟩ := numeral.marked
  obtain ⟨c, e, -, read⟩ := Binary.read?_numeral numeral negative
  have split : splitSign x.toList = (negative, first :: others) := by
    rw [text]
    cases negative
    · exact splitSign_of_isDigit digit others
    · rfl
  have marked : markedInteger? x.toList = none := by
    have second : ∀ ch rest, others = ch :: rest → ch ≠ 'x' ∧ ch ≠ 'o' := by
      rintro ch rest rfl
      have kind := numeral.chars ch (by simp)
      constructor <;>
      · rintro rfl
        exact absurd kind (by decide)
    rw [text]
    cases negative
    · change markedInteger? (first :: others) = none
      unfold markedInteger?
      split
      · next same => exact absurd rfl (second _ _ (List.cons.inj same).2).1
      · next same => exact absurd rfl (second _ _ (List.cons.inj same).2).2
      · next same =>
        obtain ⟨rfl, -⟩ := List.cons.inj same
        exact absurd digit (by decide)
      · rfl
    · rfl
  have any_digit : x.toList.any Char.isDigit = true := by
    rw [List.any_eq_true]
    exact ⟨first, by rw [text]; simp, digit⟩
  have unlike : ∀ word ∈ plainWords, x ≠ word := by
    have letters : ∀ word ∈ plainWords, word.toList.any Char.isDigit = false := by decide
    rintro word mem rfl
    rw [letters x mem] at any_digit
    cases any_digit
  have integer : integer? 10 x.toList = none := by
    have unread : readDigits? 10 (first :: others) = none :=
      readDigitsFrom?_eq_none mem_mark no_digit 0
    rw [integer?, readInteger?, split]
    simp [unread]
  have real : isReal x = true := by
    rw [isReal, any_digit, text, read]
    simp
  rw [ofPlain_unlike marked unlike, integer, real]
  rfl

/-- The text of a finite number is a real number. -/
theorem ofPlain_number {x : Single} (steady : x.IsSteady) :
    ofPlain (x.render .bankFile) = .real (x.render .bankFile) := by
  cases x with
  | nan => exact steady.elim
  | signed negative m le =>
      obtain ⟨cs, text, numeral⟩ := Binary.render_bankFile negative le steady.1
      exact ofPlain_numeral numeral text

end Yaml.Scalar

namespace Yaml

/-! ### Words -/

theorem isWordChar_of_isDigit {c : Char} (digit : c.isDigit = true) : isWordChar c = true := by
  simp [isWordChar, Char.isAlphanum, digit]

theorem isWord_digits (n : Nat) : IsWord (digitsOf n).toList := by
  obtain ⟨d, ds, digits, digit, others⟩ := exists_toDigits n
  rw [digitsOf, String.toList_ofList, digits]
  refine ⟨?_, d, ds, rfl, .inl (by simp [Char.isAlphanum, digit])⟩
  intro c mem
  rcases List.mem_cons.mp mem with rfl | mem
  · exact isWordChar_of_isDigit digit
  · exact isWordChar_of_isDigit (others c mem)

theorem isWord_number {x : Single} (steady : x.IsSteady) :
    IsWord (x.render .bankFile).toList := by
  cases x with
  | nan => exact steady.elim
  | signed negative m le =>
      obtain ⟨cs, text, numeral⟩ := Binary.render_bankFile negative le steady.1
      obtain ⟨first, others, rfl, digit⟩ := numeral.begins
      have alphanum : first.isAlphanum = true := by simp [Char.isAlphanum, digit]
      have chars : ∀ c ∈ first :: others, isWordChar c = true := by
        intro c mem
        rcases numeral.chars c mem with digit | mark
        · exact isWordChar_of_isDigit digit
        · have marks : ∀ mark ∈ ['.', 'e', '-'], isWordChar mark = true :=
            List.all_eq_true.mp (by decide)
          exact marks c mark
      rw [text]
      cases negative
      · exact ⟨chars, first, others, rfl, .inl alphanum⟩
      · refine ⟨?_, '-', first :: others, rfl, .inr ⟨rfl, first, others, rfl, alphanum⟩⟩
        intro c mem
        rcases List.mem_cons.mp mem with rfl | mem
        · decide
        · exact chars c mem

end Yaml

end Voicing
