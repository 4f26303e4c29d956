import Voicing.Yaml.Node
import Voicing.Decimal.Style

/-!
The values of a YAML document.

A plain scalar without a tag is null, a boolean, an integer or a real number if it is
written like one, and text otherwise. The tags of the language itself ask for one of
these; where the scalar is not written so, or a reference leads to a node that is not
complete, there is *nothing*. `Value.read?` gives the value of a text. It is refused if
a mapping has a key twice, or one that is no scalar, null or nothing, or if a real number
has no decimal.
-/

namespace Voicing.Yaml

/-- What a scalar stands for. Real numbers keep their text. -/
inductive Scalar where
  | nothing
  | null
  | boolean (value : Bool)
  | integer (value : Int)
  | real (text : String)
  | text (text : String)
deriving DecidableEq, Repr

namespace Scalar

/-- Integers are those of 64 bits. -/
def leastInteger : Int := -0x8000000000000000

def greatestInteger : Int := 0x7fffffffffffffff

/-- The integer of a text in a base. -/
def integer? (base : Nat) (text : List Char) : Option Scalar :=
  (readInteger? base leastInteger greatestInteger text).map .integer

/-- The integer of a text behind a mark: a base, or a second sign. -/
def markedInteger? : List Char → Option Scalar
  | '0' :: 'x' :: digits => integer? 16 digits
  | '0' :: 'o' :: digits => integer? 8 digits
  | '+' :: digits => integer? 10 digits
  | _ => none

/-- The spellings of infinity and not-a-number. -/
def unboundedNames : List String :=
  [".inf", ".Inf", ".INF", "+.inf", "+.Inf", "+.INF", "-.inf", "-.Inf", "-.INF",
    ".nan", ".NaN", ".NAN"]

/-- A text is written like a real number: a decimal with a digit at least, or infinity or
not-a-number. -/
def isReal (text : String) : Bool :=
  unboundedNames.contains text
    || (text.toList.any Char.isDigit && (Binary.read? text.toList : Option Double).isSome)

/-- The boolean of a text: one of two words, in small letters, in capitals, or with a
capital at the beginning. -/
def boolean? (text : String) : Option Bool :=
  if ["true", "True", "TRUE"].contains text then some true
  else if ["false", "False", "FALSE"].contains text then some false
  else none

/-- What a plain scalar without a tag stands for. -/
def ofPlain (text : String) : Scalar :=
  match markedInteger? text.toList with
  | some scalar => scalar
  | none =>
    if ["", "~", "null"].contains text then .null
    else
      match boolean? text, integer? 10 text.toList with
      | some b, _ => .boolean b
      | none, some scalar => scalar
      | none, none => if isReal text then .real text else .text text

/-- What a plain scalar with a tag of the language itself stands for. -/
def ofCoreTag (kind : String) (text : String) : Scalar :=
  match kind with
  | "bool" => ((boolean? text).map .boolean).getD .nothing
  | "int" => (integer? 10 text.toList).getD .nothing
  | "float" => if isReal text then .real text else .nothing
  | "null" => if text = "~" ∨ text = "null" then .null else .nothing
  | _ => .text text

/-- What a scalar stands for. One in quotes, in a block, or with a foreign tag is text. -/
def ofNode (tag : Option Tag) (plain : Bool) (text : String) : Scalar :=
  if plain then
    match tag with
    | none => ofPlain text
    | some tag =>
      if tag.expansion = Node.coreExpansion then ofCoreTag tag.suffix text else .text text
  else .text text

/-- The name that a scalar has as a key; null and nothing have none. -/
def keyName? : Scalar → Option String
  | .text s | .real s => some s
  | .integer i => some (integerText i)
  | .boolean b => some (if b then "true" else "false")
  | .null | .nothing => none

end Scalar

/-- A node with its references resolved. -/
inductive Resolved where
  | scalar (value : Scalar)
  | sequence (items : List Resolved)
  | mapping (entries : List (Resolved × Resolved))
deriving Inhabited

namespace Resolved

/-- A reference that leads nowhere yet. -/
def nothing : Resolved := .scalar .nothing

def isNothing : Resolved → Bool
  | .scalar .nothing => true
  | _ => false

/-- Keys and values in turn as pairs. What is nothing cannot be a key: the next item
takes its place. A key at the end without a value is dropped. -/
def pairs : List Resolved → List (Resolved × Resolved)
  | [] => []
  | [_] => []
  | k :: v :: rest => if k.isNothing then pairs (v :: rest) else (k, v) :: pairs rest

mutual

/-- Two nodes have the same content, the entries of mappings in the same order. -/
def same : Resolved → Resolved → Bool
  | .scalar a, .scalar b => a == b
  | .sequence items, .sequence others => sameItems items others
  | .mapping entries, .mapping others => sameEntries entries others
  | _, _ => false

def sameItems : List Resolved → List Resolved → Bool
  | [], [] => true
  | a :: items, b :: others => same a b && sameItems items others
  | _, _ => false

def sameEntries : List (Resolved × Resolved) → List (Resolved × Resolved) → Bool
  | [], [] => true
  | (a, x) :: entries, (b, y) :: others => same a b && same x y && sameEntries entries others
  | _, _ => false

end

/-- No key comes twice. -/
def keysDiffer : List (Resolved × Resolved) → Bool
  | [] => true
  | entry :: entries => !entries.any (fun other => same entry.1 other.1) && keysDiffer entries

/-- What the anchors read so far stand for, latest first. -/
abbrev Anchors := List (String × Resolved)

/-- Gives an anchor its node. A node that has just begun is nothing yet. -/
def declare (name : Option String) (node : Resolved) (anchors : Anchors) : Anchors :=
  match name with
  | some name => (name, node) :: anchors
  | none => anchors

/-- Gives an anchor declared at the beginning of a node its value at the end of it,
unless the name was given to a node inside it. `before` is how many anchors there were
before the node. -/
def complete (name : Option String) (before : Nat) (node : Resolved) (anchors : Anchors) :
    Anchors :=
  match name with
  | some name => anchors.set (anchors.length - 1 - before) (name, node)
  | none => anchors

mutual

/-- Resolves the references of a node, in the order of the text. A mapping must not have a
key twice. -/
def ofNode? : Node → Anchors → Option (Resolved × Anchors)
  | .alias name, anchors => (anchors.lookup name).map fun node => (node, anchors)
  | .scalar properties plain text, anchors =>
    let node := Resolved.scalar (Scalar.ofNode properties.tag plain text)
    some (node, declare properties.anchor node anchors)
  | .sequence anchor items, anchors =>
    (ofNodes? items (declare anchor nothing anchors)).map fun (items, inner) =>
      let node := Resolved.sequence items
      (node, complete anchor anchors.length node inner)
  | .mapping anchor items, anchors =>
    (ofNodes? items (declare anchor nothing anchors)).bind fun (items, inner) =>
      let entries := pairs items
      if keysDiffer entries then
        let node := Resolved.mapping entries
        some (node, complete anchor anchors.length node inner)
      else none

def ofNodes? : List Node → Anchors → Option (List Resolved × Anchors)
  | [], anchors => some ([], anchors)
  | node :: nodes, anchors => do
    let (first, anchors) ← ofNode? node anchors
    let (others, anchors) ← ofNodes? nodes anchors
    some (first :: others, anchors)

end

end Resolved

/-- The value of a document. -/
inductive Value where
  | null
  | boolean (value : Bool)
  | integer (value : Int)
  | real (value : Double)
  | text (text : String)
  | sequence (items : List Value)
  | table (entries : List (String × Value))
deriving Inhabited

namespace Value

/-- The value of a scalar. -/
def ofScalar? : Scalar → Option Value
  | .nothing | .null => some .null
  | .boolean b => some (.boolean b)
  | .integer i => some (.integer i)
  | .real s => (Binary.read? s.toList).map .real
  | .text s => some (.text s)

/-- The name of a key, which has to be a scalar. -/
def keyName? : Resolved → Option String
  | .scalar s => s.keyName?
  | _ => none

/-- Changes the value of a name, which is null if it had none. -/
def update (name : String) (change : Value → Value) :
    List (String × Value) → List (String × Value)
  | [] => [(name, change .null)]
  | entry :: entries =>
    if entry.1 = name then (name, change entry.2) :: entries
    else entry :: update name change entries

/-- Gives a name a value, in the place of the one it had. -/
def insert (entries : List (String × Value)) (name : String) (value : Value) :
    List (String × Value) :=
  update name (fun _ => value) entries

mutual

/-- The value of a resolved node. -/
def ofResolved? : Resolved → Option Value
  | .scalar s => ofScalar? s
  | .sequence items => (ofItems? items).map .sequence
  | .mapping entries =>
    (ofEntries? entries).map fun named =>
      .table (named.foldl (fun table entry => insert table entry.1 entry.2) [])

def ofItems? : List Resolved → Option (List Value)
  | [] => some []
  | item :: items => do
    let first ← ofResolved? item
    let others ← ofItems? items
    some (first :: others)

def ofEntries? : List (Resolved × Resolved) → Option (List (String × Value))
  | [] => some []
  | (key, value) :: entries => do
    let name ← keyName? key
    let first ← ofResolved? value
    let others ← ofEntries? entries
    some ((name, first) :: others)

end

/-- The value of a text, an empty table if there is no document in it. -/
def read? (text : String) : Option Value :=
  match Node.read? text.toList with
  | none => none
  | some none => some (.table [])
  | some (some node) =>
    match Resolved.ofNode? node [] with
    | some (resolved, _) => ofResolved? resolved
    | none => none

end Value

end Voicing.Yaml
