import Voicing.Decimal.Style

/-!
Intervals of notes, numbers and controller values.

An `Interval` is a pair of bounds and nothing more: the low bound may lie above the
high one, in which case nothing is inside. Membership is asked in two ways, with the
high bound left out (`contains`) or counted in (`includes`). Over numbers that have a
not-a-number, a bound that is none makes every question come out false.
-/

namespace Voicing

/-- A pair of bounds. -/
structure Interval (α : Type) where
  low : α
  high : α
deriving DecidableEq, Repr

namespace Interval

variable {α : Type}

section Order

variable [LE α] [DecidableLE α]

/-- Closed membership: `low ≤ x ≤ high`. -/
def includes (i : Interval α) (x : α) : Bool := decide (i.low ≤ x) && decide (x ≤ i.high)

/-- The bounds are in order. -/
def isOrdered (i : Interval α) : Bool := decide (i.low ≤ i.high)

theorem includes_iff {i : Interval α} {x : α} :
    i.includes x = true ↔ i.low ≤ x ∧ x ≤ i.high := by
  simp [includes]

theorem isOrdered_iff {i : Interval α} : i.isOrdered = true ↔ i.low ≤ i.high := by
  simp [isOrdered]

variable [LT α] [DecidableLT α]

/-- Half-open membership: `low ≤ x < high`. -/
def contains (i : Interval α) (x : α) : Bool := decide (i.low ≤ x) && decide (x < i.high)

theorem contains_iff {i : Interval α} {x : α} :
    i.contains x = true ↔ i.low ≤ x ∧ x < i.high := by
  simp [contains]

end Order

/-- The two bounds in brackets. -/
def render (text : α → String) (i : Interval α) : String :=
  "[" ++ text i.low ++ ", " ++ text i.high ++ "]"

/-- Both bounds have the same numeric value. -/
def sameValues {f : Format} (i j : Interval (Binary f)) : Bool :=
  i.low.sameValue j.low && i.high.sameValue j.high

end Interval

end Voicing
