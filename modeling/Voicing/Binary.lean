/-!
Binary floating-point numbers, computed exactly.

A `Format` fixes the width of the significand and of the exponent. A number of the
format is not-a-number or a sign and a *magnitude*: the exponent and fraction fields
read as one natural number, so magnitudes are ordered as the numbers are and the
largest one is infinity. Every finite number is a whole number of *quanta*, the
quantum being the least positive number; with that one unit all arithmetic is exact
arithmetic on natural numbers followed by one rounding.

* `Format.quanta` gives the quanta of a magnitude, `Format.nearest` the magnitude
  nearest to a quotient of quanta, a half going to the even neighbour.
* `Binary.key?` embeds the numbers into the integers; `≤` and `<` compare keys, so
  they are false as soon as one side is not a number, and the two zeros are alike.
-/

namespace Voicing

-- Powers are those of core, whichever other monoids are in scope.
attribute [local instance (high)] instPowNat

/-! ### Formats -/

/-- A binary format: `precision` bits of significand, the leading one included, and
`exponentBits` bits of exponent. -/
structure Format where
  precision : Nat
  exponentBits : Nat
deriving DecidableEq, Repr

namespace Format

/-- Single precision. -/
def single : Format := ⟨24, 8⟩

/-- Double precision. -/
def double : Format := ⟨53, 11⟩

/-- The number of magnitudes that share an exponent. -/
def binade (f : Format) : Nat := 2 ^ (f.precision - 1)

/-- The magnitude of infinity: all exponent bits set and no fraction. -/
def infinity (f : Format) : Nat := (2 ^ f.exponentBits - 1) * f.binade

/-- The number one is `2 ^ reach` quanta. -/
def reach (f : Format) : Nat := 2 ^ (f.exponentBits - 1) + f.precision - 3

/-- The quanta in one. -/
def scale (f : Format) : Nat := 2 ^ f.reach

/-- The quanta of a magnitude. In the lowest binade they are the magnitude itself,
and each further binade doubles the step. -/
def quanta (f : Format) (magnitude : Nat) : Nat :=
  if magnitude / f.binade = 0 then magnitude
  else (magnitude % f.binade + f.binade) * 2 ^ (magnitude / f.binade - 1)

end Format

/-- `n / d` rounded to a natural number, a half going to the even neighbour. -/
def roundHalfEven (n d : Nat) : Nat :=
  if 2 * (n % d) < d then n / d
  else if d < 2 * (n % d) then n / d + 1
  else n / d + n / d % 2

/-- The magnitude nearest to `n / d` quanta. The exponent is chosen so that the
quotient has at most `precision` bits; a carry out of the rounding moves into the
exponent by itself, since the fields are one number. -/
def Format.nearest (f : Format) (n d : Nat) : Nat :=
  let shift := (n / d).log2 + 1 - f.precision
  min (roundHalfEven n (d * 2 ^ shift) + shift * f.binade) f.infinity

/-! ### Numbers -/

/-- A number of a format. All encodings of not-a-number are one value. -/
inductive Binary (f : Format) where
  | nan
  | signed (negative : Bool) (magnitude : Nat) (le_infinity : magnitude ≤ f.infinity)
deriving DecidableEq

/-- Single precision numbers: velocities, controller values, bends, tempi. -/
abbrev Single := Binary .single

/-- Double precision numbers, the form in which written decimals are read first. -/
abbrev Double := Binary .double

namespace Binary

variable {f : Format}

/-- Zero of either sign. -/
def zero (negative : Bool) : Binary f := .signed negative 0 (Nat.zero_le _)

/-- Infinity of either sign. -/
def infinite (negative : Bool) : Binary f := .signed negative f.infinity (Nat.le_refl _)

/-- The number nearest to `n / d` quanta. -/
def ofQuanta (negative : Bool) (n d : Nat) : Binary f :=
  .signed negative (f.nearest n d) (Nat.min_le_right _ _)

/-- The number nearest to `n / d`. -/
def ofRatio (negative : Bool) (n d : Nat) : Binary f :=
  ofQuanta negative (n * f.scale) d

/-- The number nearest to a natural number. -/
def ofNat (n : Nat) : Binary f := ofRatio false n 1

/-- The number nearest to an integer. -/
def ofInt (i : Int) : Binary f := ofRatio (decide (i < 0)) i.natAbs 1

/-- The number nearest to `coefficient * 10 ^ exponent`. An exponent out of reach is
recognised by the number of digits and never computed. -/
def ofDecimal (negative : Bool) (coefficient : Nat) (exponent : Int) : Binary f :=
  let digits : Int := (Nat.toDigits 10 coefficient).length
  if coefficient = 0 then zero negative
  else if (f.reach : Int) < digits + exponent then infinite negative
  else if digits + exponent < -(f.reach : Int) then zero negative
  else ofRatio negative (coefficient * 10 ^ exponent.toNat) (10 ^ (-exponent).toNat)

instance (n : Nat) : OfNat (Binary f) n := ⟨ofNat n⟩

instance : OfScientific (Binary f) :=
  ⟨fun m below e => ofDecimal false m (if below then -(e : Int) else e)⟩

instance : Inhabited (Binary f) := ⟨zero false⟩

/-- The encoded word, sign bit first; not-a-number has none of its own. -/
def word? : Binary f → Option Nat
  | .nan => none
  | .signed negative m _ =>
    some (if negative then 2 ^ f.exponentBits * f.binade + m else m)

/-! ### Order -/

/-- The place of a number in the order of its format. -/
def key? : Binary f → Option Int
  | .nan => none
  | .signed negative m _ => some (if negative then -(m : Int) else m)

/-- Numeric `≤`, false if either side is not a number. -/
def le (x y : Binary f) : Bool :=
  match x.key?, y.key? with
  | some a, some b => decide (a ≤ b)
  | _, _ => false

/-- Numeric `<`, false if either side is not a number. -/
def lt (x y : Binary f) : Bool :=
  match x.key?, y.key? with
  | some a, some b => decide (a < b)
  | _, _ => false

instance : LE (Binary f) := ⟨fun x y => x.le y = true⟩
instance : LT (Binary f) := ⟨fun x y => x.lt y = true⟩
instance : DecidableLE (Binary f) := fun x y => inferInstanceAs (Decidable (x.le y = true))
instance : DecidableLT (Binary f) := fun x y => inferInstanceAs (Decidable (x.lt y = true))

/-- Numeric equality: the zeros are equal, and not-a-number equals nothing. -/
def sameValue (x y : Binary f) : Bool := decide (x ≤ y) && decide (y ≤ x)

theorem le_iff {x y : Binary f} :
    x ≤ y ↔ ∃ a b, x.key? = some a ∧ y.key? = some b ∧ a ≤ b := by
  change x.le y = true ↔ _
  unfold le
  cases x.key? <;> cases y.key? <;> simp

theorem lt_iff {x y : Binary f} :
    x < y ↔ ∃ a b, x.key? = some a ∧ y.key? = some b ∧ a < b := by
  change x.lt y = true ↔ _
  unfold lt
  cases x.key? <;> cases y.key? <;> simp

/-! ### Arithmetic -/

/-- The quanta of a signed magnitude. -/
def signedQuanta (f : Format) (negative : Bool) (magnitude : Nat) : Int :=
  if negative then -(f.quanta magnitude : Int) else f.quanta magnitude

/-- The sum, rounded once. A sum that vanishes is positive unless both zeros are
negative. -/
def add : Binary f → Binary f → Binary f
  | .signed a m _, .signed b n _ =>
    if m = f.infinity then
      if n = f.infinity ∧ a ≠ b then .nan else infinite a
    else if n = f.infinity then infinite b
    else
      let total := signedQuanta f a m + signedQuanta f b n
      if total = 0 then zero (a && b) else ofQuanta (decide (total < 0)) total.natAbs 1
  | _, _ => .nan

/-- The product, rounded once. -/
def mul : Binary f → Binary f → Binary f
  | .signed a m _, .signed b n _ =>
    if m = f.infinity ∨ n = f.infinity then
      if m = 0 ∨ n = 0 then .nan else infinite (a != b)
    else ofQuanta (a != b) (f.quanta m * f.quanta n) f.scale
  | _, _ => .nan

/-- The quotient, rounded once. -/
def div : Binary f → Binary f → Binary f
  | .signed a m _, .signed b n _ =>
    if m = f.infinity then
      if n = f.infinity then .nan else infinite (a != b)
    else if n = f.infinity then zero (a != b)
    else if n = 0 then
      if m = 0 then .nan else infinite (a != b)
    else ofQuanta (a != b) (f.quanta m * f.scale) (f.quanta n)
  | _, _ => .nan

/-- The number with the other sign. -/
def neg : Binary f → Binary f
  | .nan => .nan
  | .signed negative m h => .signed (!negative) m h

instance : Add (Binary f) := ⟨add⟩
instance : Mul (Binary f) := ⟨mul⟩
instance : Div (Binary f) := ⟨div⟩
instance : Neg (Binary f) := ⟨neg⟩

/-- The nearest number of another format. -/
def convert (g : Format) : Binary f → Binary g
  | .nan => .nan
  | .signed negative m _ =>
    if m = f.infinity then infinite negative
    else ofQuanta negative (f.quanta m * g.scale) f.scale

/-- The nearest natural number, a half going up; what is negative or not a number
counts as zero, and nothing exceeds `limit`. -/
def toNatWithin (limit : Nat) : Binary f → Nat
  | .nan => 0
  | .signed negative m _ =>
    if negative then 0
    else if m = f.infinity then limit
    else min limit ((2 * f.quanta m + f.scale) / (2 * f.scale))

end Binary

end Voicing
