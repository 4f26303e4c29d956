import Voicing.Binary

/-!
Reading numbers from text.

The readers accept exactly the written forms below and nothing around them:

* `readDigits?` a run of digits in a base, at least one;
* `readInteger?` such a run after at most one sign, inside an interval of integers;
* `Binary.read?` a decimal with an optional sign, point and exponent, or one of the words
  for infinity and not-a-number in any case.
-/

namespace Voicing

/-- The value of a digit in bases up to sixteen. -/
def digitValue? (base : Nat) (c : Char) : Option Nat :=
  let value :=
    if c.isDigit then some (c.toNat - '0'.toNat)
    else if 'a' ≤ c ∧ c ≤ 'f' then some (c.toNat - 'a'.toNat + 10)
    else if 'A' ≤ c ∧ c ≤ 'F' then some (c.toNat - 'A'.toNat + 10)
    else none
  value.filter (· < base)

/-- The number written by a list of digits, after the digits of `sofar`. -/
def readDigitsFrom? (base : Nat) : Nat → List Char → Option Nat
  | sofar, [] => some sofar
  | sofar, c :: cs => (digitValue? base c).bind fun d => readDigitsFrom? base (sofar * base + d) cs

/-- The number written by a non-empty list of digits. -/
def readDigits? (base : Nat) (cs : List Char) : Option Nat :=
  if cs.isEmpty then none else readDigitsFrom? base 0 cs

/-- A sign, if there is one, and what follows it. -/
def splitSign : List Char → Bool × List Char
  | '-' :: cs => (true, cs)
  | '+' :: cs => (false, cs)
  | cs => (false, cs)

/-- A signed integer between `least` and `greatest`. -/
def readInteger? (base : Nat) (least greatest : Int) (cs : List Char) : Option Int :=
  let (negative, digits) := splitSign cs
  (readDigits? base digits).bind fun n =>
    let i : Int := if negative then -n else n
    if least ≤ i ∧ i ≤ greatest then some i else none

/-- A natural number up to `greatest`, with an optional plus sign. -/
def readNatural? (greatest : Nat) (cs : List Char) : Option Nat :=
  let digits := match cs with
    | '+' :: rest => rest
    | _ => cs
  (readDigits? 10 digits).filter (· ≤ greatest)

/-- The exponent of a decimal: nothing, or an `e` of either case and an integer. -/
def readExponent? : List Char → Option Int
  | [] => some 0
  | c :: cs =>
    if c.toLower = 'e' then
      let (negative, digits) := splitSign cs
      (readDigits? 10 digits).map fun n => if negative then -n else n
    else none

namespace Binary

variable {f : Format}

/-- An unsigned decimal: digits with at most one point among or around them, and an
exponent. -/
def readUnsigned? (negative : Bool) (cs : List Char) : Option (Binary f) :=
  let whole := cs.takeWhile Char.isDigit
  let afterWhole := cs.dropWhile Char.isDigit
  let (fraction, rest) := match afterWhole with
    | '.' :: r => (r.takeWhile Char.isDigit, r.dropWhile Char.isDigit)
    | _ => ([], afterWhole)
  (readDigits? 10 (whole ++ fraction)).bind fun coefficient =>
    (readExponent? rest).map fun exponent =>
      ofDecimal negative coefficient (exponent - fraction.length)

/-- A number: the nearest to a written decimal, or a word. -/
def read? (cs : List Char) : Option (Binary f) :=
  let (negative, body) := splitSign cs
  let word := body.map Char.toLower
  if word = "inf".toList ∨ word = "infinity".toList then some (infinite negative)
  else if word = "nan".toList then some .nan
  else readUnsigned? negative body

end Binary

end Voicing
