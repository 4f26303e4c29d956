import Voicing.Interval
import Voicing.Yaml.Value

/-!
Reading values liberally.

Each reader below takes a value for something of one kind. It accepts more than one way
of writing it: a number may be written as text or as a boolean, a boolean as a number or
as one of a few words, a text as a number, and a record as the list of its fields in
order. Whole numbers have to fit the width that is asked for. What is not meant as the
kind at all is refused.
-/

namespace Voicing.Yaml.Value

/-! ### Values of one kind -/

/-- The boolean that a word stands for, in any case. -/
def wordBoolean? (text : String) : Option Bool :=
  let word := String.ofList (text.toList.map Char.toLower)
  if ["true", "on", "yes"].contains word then some true
  else if ["false", "off", "no"].contains word then some false
  else none

/-- The greatest natural number that is told apart from greater ones. -/
def greatestNatural : Nat := UInt64.size - 1

/-- A natural number up to `limit`. A real number is rounded, and a negative one counts
as zero. -/
def natural? (limit : Nat) (v : Value) : Option Nat :=
  let read : Option Nat :=
    match v with
    | .integer i => if 0 ≤ i then some i.toNat else none
    | .boolean b => some b.toNat
    | .real x => some (x.toNatWithin greatestNatural)
    | .text s =>
      match wordBoolean? s with
      | some b => some b.toNat
      | none => readNatural? greatestNatural s.toList
    | .null | .sequence _ | .table _ => none
  read.filter (· ≤ limit)

/-- A number, read in double precision first. -/
def number? (v : Value) : Option Single :=
  let read : Option Double :=
    match v with
    | .integer i => some (.ofInt i)
    | .boolean b => some (.ofNat b.toNat)
    | .real x => some x
    | .text s =>
      match wordBoolean? s with
      | some b => some (.ofNat b.toNat)
      | none => Binary.read? s.toList
    | .null | .sequence _ | .table _ => none
  read.map (·.convert .single)

/-- A boolean. A number is one if it is not zero. -/
def boolean? : Value → Option Bool
  | .boolean b => some b
  | .integer i => some (i != 0)
  | .real x => some (!x.sameValue 0)
  | .text s => if s = "1" then some true else if s = "0" then some false else wordBoolean? s
  | .null | .sequence _ | .table _ => none

/-- A text. Booleans and numbers are texts as well. -/
def text? : Value → Option String
  | .text s => some s
  | .boolean b => some (if b then "true" else "false")
  | .integer i => some (integerText i)
  | .real x => some (x.render .message)
  | .null | .sequence _ | .table _ => none

/-- The name of a choice, which may also be the only key of a table. -/
def choice? {α : Type} (ofName? : String → Option α) : Value → Option α
  | .text s => ofName? s
  | .table [(name, _)] => ofName? name
  | _ => none

/-- A value that may be null. -/
def optional? {α : Type} (read? : Value → Option α) : Value → Option (Option α)
  | .null => some none
  | v => (read? v).map some

/-- The first two values of a list, as bounds. -/
def interval? {α : Type} (read? : Value → Option α) : Value → Option (Interval α)
  | .sequence (low :: high :: _) => do
    let low ← read? low
    let high ← read? high
    some ⟨low, high⟩
  | _ => none

/-- A list. -/
def list? {α : Type} (read? : Value → Option α) : Value → Option (List α)
  | .sequence items => items.mapM read?
  | _ => none

/-- A natural number of eight bits. -/
def byte? (v : Value) : Option UInt8 := (natural? (UInt8.size - 1) v).map UInt8.ofNat

/-- A natural number of 16 bits. -/
def word16? (v : Value) : Option UInt16 := (natural? (UInt16.size - 1) v).map UInt16.ofNat

/-- A natural number of 32 bits. -/
def word32? (v : Value) : Option UInt32 := (natural? (UInt32.size - 1) v).map UInt32.ofNat

/-- A natural number of 64 bits. -/
def word64? (v : Value) : Option UInt64 := (natural? greatestNatural v).map UInt64.ofNat

/-! ### Values with fields -/

abbrev Fields := List (String × Value)

/-- The fields of a table, or of a list that has them in order. -/
def fields? (names : List String) : Value → Option Fields
  | .table entries => some entries
  | .sequence items => some (names.zip items)
  | _ => none

/-- A field that may be left out. -/
def fieldOr {α : Type} (fields : Fields) (name : String) (default : α)
    (read? : Value → Option α) : Option α :=
  match fields.lookup name with
  | some v => read? v
  | none => some default

/-- A field that has to be there. -/
def field? {α : Type} (fields : Fields) (name : String) (read? : Value → Option α) :
    Option α :=
  (fields.lookup name).bind read?

end Voicing.Yaml.Value
