import Voicing.Binary

/-!
Decimals of binary numbers: a coefficient and a power of ten.

* `Binary.shortest` is the decimal with the fewest digits that still rounds to the
  number, and among those the nearest. Each number owns an interval of reals that round
  to it; its ends belong to it when the magnitude is even. On a decimal grid only the
  two neighbours of the number have to be tried: if any point of the grid lies in the
  interval, one of them does.
* `Binary.inUnits` counts a number in units of `10 ^ -places`.
-/

namespace Voicing

-- Powers are those of core, whichever other monoids are in scope.
attribute [local instance (high)] instPowNat

/-- The number `coefficient * 10 ^ exponent`. -/
structure Decimal where
  coefficient : Nat
  exponent : Int
deriving DecidableEq, Repr

/-- Which of two equally near decimals is taken. -/
inductive Tie where
  | upward
  | toEven
deriving DecidableEq, Repr

/-- How many decimal digits a natural number has. -/
def digitCount (n : Nat) : Nat := (Nat.toDigits 10 n).length

namespace Decimal

/-- Trailing zeros move into the exponent; `fuel` bounds their number. -/
def trimWith : Nat → Nat → Int → Decimal
  | 0, c, e => ⟨c, e⟩
  | fuel + 1, c, e => if c % 10 = 0 then trimWith fuel (c / 10) (e + 1) else ⟨c, e⟩

/-- The same number without trailing zeros. -/
def trim (d : Decimal) : Decimal :=
  if d.coefficient = 0 then ⟨0, 0⟩
  else trimWith (digitCount d.coefficient) d.coefficient d.exponent

/-- Where the decimal point stands, counted from the first digit: the number is
`0.DIGITS * 10 ^ point`. -/
def point (d : Decimal) : Int := digitCount d.coefficient + d.exponent

end Decimal

namespace Format

variable (f : Format)

/-- Twice the lower end of the interval of reals that round to a positive magnitude,
in quanta. -/
def lowerEnd (m : Nat) : Nat := f.quanta (m - 1) + f.quanta m

/-- Twice the upper end of that interval, in quanta. -/
def upperEnd (m : Nat) : Nat := f.quanta m + f.quanta (m + 1)

/-- The place of the decimal point of a positive magnitude. Shifting by `reach` places
first makes the number at least one, so that its whole part has the digits. -/
def decimalPoint (m : Nat) : Int :=
  (digitCount (f.quanta m * 10 ^ f.reach / f.scale) : Int) - f.reach

/-- The nearer neighbour of a magnitude on the grid of `digits` digits that rounds to
the magnitude, if one of the two does. -/
def onGrid? (tie : Tie) (m : Nat) (digits : Nat) : Option Decimal :=
  let exponent := f.decimalPoint m - digits
  let up := 10 ^ (-exponent).toNat
  let step := 2 * f.scale * 10 ^ exponent.toNat
  let value := 2 * f.quanta m * up
  let owns (c : Nat) : Bool :=
    if m % 2 = 0 then
      decide (f.lowerEnd m * up ≤ c * step) && decide (c * step ≤ f.upperEnd m * up)
    else
      decide (f.lowerEnd m * up < c * step) && decide (c * step < f.upperEnd m * up)
  let below := value / step
  let rest := value % step
  let roundsUp : Bool :=
    if 2 * rest = step then
      match tie with
      | .upward => true
      | .toEven => below % 2 == 1
    else decide (step < 2 * rest)
  match owns below, owns (below + 1) with
  | true, true => some ⟨if roundsUp then below + 1 else below, exponent⟩
  | true, false => some ⟨below, exponent⟩
  | false, true => some ⟨below + 1, exponent⟩
  | false, false => none

/-- The first grid with a decimal that rounds to the magnitude decides; as many digits
as the format has bits are always enough. -/
def shortest (tie : Tie) (m : Nat) : Decimal :=
  if m = 0 then ⟨0, 0⟩
  else
    match (List.range f.precision).findSome? fun n => f.onGrid? tie m (n + 1) with
    | some d => d.trim
    | none => ⟨0, 0⟩

end Format

/-- A finite magnitude counted in units of `10 ^ -places`, a half going to the even
neighbour. -/
def Format.inUnits (f : Format) (places m : Nat) : Nat :=
  roundHalfEven (f.quanta m * 10 ^ places) f.scale

end Voicing
