import Voicing.Decimal.Digits

/-!
How numbers are written.

`NumberStyle` is the record of all decisions of a written form. Two forms are in use:
`NumberStyle.message` in messages, names and reports, which never has an exponent, and
`NumberStyle.bankFile` in bank files, where whole numbers keep a point and the very
large and very small take an exponent. `Binary.fixed` writes a fixed number of places.
-/

namespace Voicing

-- Powers are those of core, whichever other monoids are in scope.
attribute [local instance (high)] instPowNat

/-- The decisions of a written form of numbers. -/
structure NumberStyle where
  /-- The choice between two equally near shortest decimals. -/
  tie : Tie
  /-- Whether a number with this place of the decimal point is written positionally. -/
  positional : Int → Bool
  /-- What follows the digits of a whole number. -/
  wholeEnd : String
  infinity : String
  nan : String

namespace NumberStyle

/-- Messages: always positional, whole numbers without a point, a tie upwards. -/
def message : NumberStyle where
  tie := .upward
  positional := fun _ => true
  wholeEnd := ""
  infinity := "inf"
  nan := "NaN"

/-- Bank files: positional from `0.000001` up to thirteen digits before the point,
whole numbers with one decimal, a tie to the even digit. -/
def bankFile : NumberStyle where
  tie := .toEven
  positional := fun point => decide (-6 < point) && decide (point ≤ 13)
  wholeEnd := ".0"
  infinity := ".inf"
  nan := ".nan"

end NumberStyle

/-- The decimal digits of a natural number. -/
def digitsOf (n : Nat) : String := String.ofList (Nat.toDigits 10 n)

/-- The decimal text of an integer. -/
def integerText (i : Int) : String :=
  if i < 0 then "-" ++ digitsOf i.natAbs else digitsOf i.natAbs

/-- `count` zeros. -/
def zeros (count : Nat) : List Char := List.replicate count '0'

namespace Decimal

/-- Positional form: the digits with the point in its place, filled up with zeros. -/
def positional (wholeEnd : String) (d : Decimal) : String :=
  let digits := Nat.toDigits 10 d.coefficient
  if 0 ≤ d.exponent then String.ofList (digits ++ zeros d.exponent.toNat) ++ wholeEnd
  else if 0 < d.point then
    String.ofList (digits.take d.point.toNat ++ '.' :: digits.drop d.point.toNat)
  else String.ofList ('0' :: '.' :: zeros (-d.point).toNat ++ digits)

/-- Exponent form: one digit before the point, and no point after a single digit. -/
def scientific (d : Decimal) : String :=
  let digits := Nat.toDigits 10 d.coefficient
  let tail := digits.drop 1
  String.ofList (digits.take 1 ++ (if tail.isEmpty then [] else '.' :: tail) ++ ['e'])
    ++ integerText (d.point - 1)

end Decimal

namespace Binary

variable {f : Format}

/-- The text of a number in a style. -/
def render (style : NumberStyle) : Binary f → String
  | .nan => style.nan
  | .signed negative m _ =>
    let sign := if negative then "-" else ""
    if m = f.infinity then sign ++ style.infinity
    else
      let d := f.shortest style.tie m
      sign ++ if style.positional d.point then d.positional style.wholeEnd else d.scientific

/-- The text of a number with exactly `places` decimals, a half going to the even
neighbour. -/
def fixed (places : Nat) : Binary f → String
  | .nan => NumberStyle.message.nan
  | .signed negative m _ =>
    let sign := if negative then "-" else ""
    if m = f.infinity then sign ++ NumberStyle.message.infinity
    else
      let units := f.inUnits places m
      let fraction := Nat.toDigits 10 (units % 10 ^ places)
      sign ++ digitsOf (units / 10 ^ places) ++ "."
        ++ String.ofList (zeros (places - fraction.length) ++ fraction)

end Binary

end Voicing
