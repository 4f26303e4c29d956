import Voicing.Yaml.Value

/-!
Keys that are paths.

A key of a document may lead further than to an entry: `layers[0].name` leads to the field
`name` of the first item of `layers`. `Value.expand` puts the values of a document where
their keys lead. Whatever is missing on the way is made, and what is no table or list where
one is needed makes room for it. A key that is not written like a path is a name.
-/

namespace Voicing.Yaml

/-- A step from a value to one inside it. -/
inductive Step where
  | field (name : String)
  /-- Negative numbers count from the end. -/
  | item (number : Int)
deriving DecidableEq, Repr

/-- The way from a document to a value inside it. -/
structure Path where
  root : String
  steps : List Step
deriving DecidableEq, Repr

namespace Path

/-- The number between the brackets of an item, with blanks around it. -/
def readNumber? (text : List Char) : Option Int :=
  let digits := ((text.dropWhile isBlank).reverse.dropWhile isBlank).reverse
  if digits.head? = some '+' then none
  else readInteger? 10 Scalar.leastInteger Scalar.greatestInteger digits

/-- Reads the steps of a path: names after points, and numbers between brackets. -/
def readSteps? : List Char → Option (List Step)
  | [] => some []
  | c :: cs =>
    if c = '.' then
      let name := cs.takeWhile isNameChar
      if name.isEmpty then none
      else (readSteps? (cs.drop name.length)).map (.field (String.ofList name) :: ·)
    else if c = '[' then
      let inner := cs.takeWhile (· != ']')
      if cs.length ≤ inner.length then none
      else
        match readNumber? inner with
        | some number => (readSteps? (cs.drop (inner.length + 1))).map (.item number :: ·)
        | none => none
    else none
termination_by text => text.length
decreasing_by all_goals simp only [List.length_drop, List.length_cons]; omega

/-- Reads a path: a name and the steps from there. -/
def read? (text : List Char) : Option Path :=
  let name := text.takeWhile isNameChar
  if name.isEmpty then none
  else (readSteps? (text.drop name.length)).map (⟨String.ofList name, ·⟩)

/-- Where a key leads. -/
def ofKey (key : String) : Path := (read? key.toList).getD ⟨key, []⟩

end Path

namespace Value

/-- The entries of a table. Other values have none. -/
def entries : Value → List (String × Value)
  | .table entries => entries
  | _ => []

/-- The items of a list. Other values have none. -/
def items : Value → List Value
  | .sequence items => items
  | _ => []

/-- Changes an item of a list. A list that is too short for it is filled up with nulls, at
the beginning if the number counts from the end. -/
def updateItem (number : Int) (change : Value → Value) (items : List Value) : List Value :=
  let place := if number < 0 then items.length + number else number
  if place < 0 then (List.replicate (-place).toNat Value.null ++ items).modify 0 change
  else
    let missing := place.toNat + 1 - items.length
    (items ++ List.replicate missing Value.null).modify place.toNat change

/-- Changes the value that some steps lead to. -/
def updateAt (change : Value → Value) : List Step → Value → Value
  | [], v => change v
  | .field name :: steps, v => .table (update name (updateAt change steps) v.entries)
  | .item number :: steps, v => .sequence (updateItem number (updateAt change steps) v.items)

mutual

/-- What becomes of a value when another one is put in its place: the entries of a table
are added to those that are there, and everything else replaces what is there. -/
def assign : Value → Value → Value
  | .table entries, old => .table (assignEntries entries old.entries)
  | value, _ => value

def assignEntries : List (String × Value) → List (String × Value) → List (String × Value)
  | [], old => old
  | (name, value) :: entries, old => assignEntries entries (update name (assign value) old)

end

/-- A document with the values of its entries where their keys lead. -/
def expand : Value → Value
  | .table entries =>
    .table <| entries.foldl
      (fun table (key, value) =>
        let path := Path.ofKey key
        update path.root (updateAt (assign value) path.steps) table)
      []
  | v => v

end Value

end Voicing.Yaml
