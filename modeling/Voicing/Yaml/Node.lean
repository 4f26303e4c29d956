import Voicing.Yaml.Token

/-!
The nodes of a YAML document.

A `Node` is what the tokens of a document build: scalars, sequences, mappings and
references to anchored nodes. The keys and values of a mapping are its items in turn.
Nodes that are left out are scalars too. `Node.read?` builds the one document of a text;
a text without any document has none, and a text with several is refused.
-/

namespace Voicing.Yaml

/-- A tag with its handle replaced by what it stands for. -/
structure Tag where
  expansion : String
  suffix : String
deriving DecidableEq, Repr

/-- The properties in front of a node. -/
structure Properties where
  anchor : Option String := none
  tag : Option Tag := none
deriving DecidableEq, Repr

inductive Node where
  | scalar (properties : Properties) (plain : Bool) (text : String)
  | sequence (anchor : Option String) (items : List Node)
  /-- Keys and values in turn. -/
  | mapping (anchor : Option String) (items : List Node)
  | alias (name : String)
deriving Inhabited

namespace Node

/-- The node that is left out between other nodes. -/
def absent : Node := .scalar {} true "~"

/-- What the tag handles of a document stand for. -/
abbrev Handles := List (String × String)

/-- The expansion of the handle for the tags of the YAML language itself. -/
def coreExpansion : String := "tag:yaml.org,2002:"

/-- The tag of a handle and a suffix. A handle between two marks has to be declared. -/
def resolveTag? (handles : Handles) (handle suffix : String) : Option Tag :=
  match handles.lookup handle with
  | some expansion => some ⟨expansion, suffix⟩
  | none =>
    if handle = "!!" then some ⟨coreExpansion, suffix⟩
    else if 2 ≤ handle.length ∧ handle.toList.getLast? = some '!' then none
    else some ⟨handle, suffix⟩

/-- Takes the properties of a node off the tokens: an anchor and a tag in either order. -/
def takeProperties? (handles : Handles) :
    List Token → Option (Properties × List Token)
  | .anchor name :: .tag handle suffix :: rest
  | .tag handle suffix :: .anchor name :: rest =>
    (resolveTag? handles handle suffix).map fun tag => (⟨some name, some tag⟩, rest)
  | .anchor name :: rest => some (⟨some name, none⟩, rest)
  | .tag handle suffix :: rest =>
    (resolveTag? handles handle suffix).map fun tag => (⟨none, some tag⟩, rest)
  | rest => some ({}, rest)

/-- What a collection is being read as. -/
inductive Within where
  | blockSequence
  /-- A block sequence that is indented no deeper than the mapping around it. -/
  | flatSequence
  | blockMapping
  | flowSequence (first : Bool)
  | flowMapping (first : Bool)

/-- Where a node stands decides which collections it can be. -/
inductive Position where
  | flow
  | block
  /-- In a block mapping, where a sequence needs no indentation of its own. -/
  | blockMapping
deriving DecidableEq

mutual

/-- Takes a node off the tokens. -/
def take? (handles : Handles) (position : Position) :
    Nat → List Token → Option (Node × List Token)
  | 0, _ => none
  | fuel + 1, tokens =>
    match tokens with
    | .alias name :: rest => some (.alias name, rest)
    | _ => do
      let (properties, tokens) ← takeProperties? handles tokens
      let sequence (within : Within) (rest : List Token) : Option (Node × List Token) :=
        (takeItems? handles within fuel rest).map fun (items, rest) =>
          (.sequence properties.anchor items, rest)
      let mapping (within : Within) (rest : List Token) : Option (Node × List Token) :=
        (takeItems? handles within fuel rest).map fun (items, rest) =>
          (.mapping properties.anchor items, rest)
      match tokens, position with
      | .scalar plain text :: rest, _ => some (.scalar properties plain text, rest)
      | .entry :: _, .blockMapping => sequence .flatSequence tokens
      | .flowSequence :: rest, _ => sequence (.flowSequence true) rest
      | .flowMapping :: rest, _ => mapping (.flowMapping true) rest
      | .blockSequence :: rest, .block
      | .blockSequence :: rest, .blockMapping => sequence .blockSequence rest
      | .blockMapping :: rest, .block
      | .blockMapping :: rest, .blockMapping => mapping .blockMapping rest
      | _, _ =>
        if properties = {} then none else some (.scalar properties true "", tokens)

/-- Takes the items of a collection off the tokens, with the mark of its end. Where a key
in a flow sequence is left out, the mark behind it is passed over. -/
def takeItems? (handles : Handles) (within : Within) :
    Nat → List Token → Option (List Node × List Token)
  | 0, _ => none
  | fuel + 1, tokens =>
    let cons (node : Node) (within : Within) (rest : List Token) :
        Option (List Node × List Token) :=
      (takeItems? handles within fuel rest).map fun (nodes, rest) => (node :: nodes, rest)
    match within, tokens with
    | .blockSequence, .blockEnd :: rest => some ([], rest)
    | .blockSequence, .entry :: rest =>
      match rest with
      | .entry :: _ | .blockEnd :: _ => cons absent within rest
      | _ => do
        let (node, rest) ← take? handles .block fuel rest
        cons node within rest
    | .flatSequence, .entry :: rest =>
      match rest with
      | .entry :: _ | .key :: _ | .value :: _ | .blockEnd :: _ => cons absent within rest
      | _ => do
        let (node, rest) ← take? handles .block fuel rest
        cons node within rest
    | .flatSequence, rest => some ([], rest)
    | .blockMapping, .blockEnd :: rest => some ([], rest)
    | .blockMapping, .key :: _
    | .blockMapping, .value :: _ => do
      let (key, rest) ← takeKey? handles .blockMapping fuel tokens
      let (value, rest) ← takeValue? handles .blockMapping fuel rest
      let (nodes, rest) ← takeItems? handles within fuel rest
      some (key :: value :: nodes, rest)
    | .flowMapping _, .flowMappingEnd :: rest => some ([], rest)
    | .flowMapping false, .comma :: .flowMappingEnd :: rest => some ([], rest)
    | .flowMapping first, tokens => do
      let tokens ← match first, tokens with
        | true, tokens => some tokens
        | false, .comma :: rest => some rest
        | false, _ => none
      match tokens with
      | .key :: _ | .value :: _ => do
        let (key, rest) ← takeKey? handles .flow fuel tokens
        let (value, rest) ← takeValue? handles .flow fuel rest
        let (nodes, rest) ← takeItems? handles (.flowMapping false) fuel rest
        some (key :: value :: nodes, rest)
      | _ => do
        let (key, rest) ← take? handles .flow fuel tokens
        let (nodes, rest) ← takeItems? handles (.flowMapping false) fuel rest
        some (key :: absent :: nodes, rest)
    | .flowSequence _, .flowSequenceEnd :: rest => some ([], rest)
    | .flowSequence false, .comma :: .flowSequenceEnd :: rest => some ([], rest)
    | .flowSequence first, tokens => do
      let tokens ← match first, tokens with
        | true, tokens => some tokens
        | false, .comma :: rest => some rest
        | false, _ => none
      match tokens with
      | .key :: rest => do
        let (key, rest) ← match rest with
          | .value :: rest | .comma :: rest | .flowSequenceEnd :: rest => some (absent, rest)
          | _ => take? handles .flow fuel rest
        let (value, rest) ← takeValue? handles .flow fuel rest
        cons (.mapping none [key, value]) (.flowSequence false) rest
      | _ => do
        let (node, rest) ← take? handles .flow fuel tokens
        cons node (.flowSequence false) rest
    | _, _ => none

/-- Takes a key of a mapping off the tokens. It may be left out, with its mark or in front
of a value. -/
def takeKey? (handles : Handles) (position : Position) :
    Nat → List Token → Option (Node × List Token)
  | 0, _ => none
  | fuel + 1, tokens =>
    match tokens with
    | .value :: _ => some (absent, tokens)
    | .key :: rest =>
      match rest with
      | .value :: _ => some (absent, rest)
      | .key :: _ | .blockEnd :: _ =>
        if position = .flow then none else some (absent, rest)
      | .comma :: _ | .flowMappingEnd :: _ | .flowSequenceEnd :: _ =>
        if position = .flow then some (absent, rest) else none
      | _ => take? handles position fuel rest
    | _ => none

/-- Takes a value of a mapping off the tokens. It may be left out, with its mark or after
it. -/
def takeValue? (handles : Handles) (position : Position) :
    Nat → List Token → Option (Node × List Token)
  | 0, _ => none
  | fuel + 1, tokens =>
    match tokens with
    | .value :: rest =>
      match rest with
      | .key :: _ | .value :: _ | .blockEnd :: _ =>
        if position = .flow then none else some (absent, rest)
      | .comma :: _ | .flowMappingEnd :: _ | .flowSequenceEnd :: _ =>
        if position = .flow then some (absent, rest) else none
      | _ => take? handles position fuel rest
    | _ => some (absent, tokens)

end

/-! ### Documents -/

/-- Takes the directives of a document off the tokens: at most one version, and the last
directive alone counts for the handles. -/
def takeDirectives? : Bool → Handles → List Token → Option (Handles × List Token)
  | versioned, _, .version :: rest => if versioned then none else takeDirectives? true [] rest
  | versioned, _, .tagDirective handle expansion :: rest =>
    takeDirectives? versioned [(handle, expansion)] rest
  | versioned, _, .otherDirective :: rest => takeDirectives? versioned [] rest
  | _, handles, rest => some (handles, rest)

/-- Whether a token is a directive. -/
def isDirective : Token → Bool
  | .version | .tagDirective _ _ | .otherDirective => true
  | _ => false

/-- The ends of documents are passed over in front of the next one. -/
def dropEnds : List Token → List Token
  | .documentEnd :: rest => dropEnds rest
  | rest => rest

/-- The content of a document whose beginning is marked. -/
def takeContent? (handles : Handles) (tokens : List Token) : Option (Node × List Token) :=
  match tokens with
  | [] | .documentStart :: _ | .documentEnd :: _ => some (absent, tokens)
  | t :: _ =>
    if isDirective t then some (absent, tokens)
    else take? handles .block (4 * tokens.length + 4) tokens

/-- Takes a document off the tokens. Its beginning has to be marked if it has directives
or follows another document. -/
def takeDocument? (tokens : List Token) : Option (Node × List Token) :=
  match tokens with
  | .documentStart :: rest => takeContent? [] rest
  | t :: _ =>
    if isDirective t then
      match takeDirectives? false [] tokens with
      | some (handles, .documentStart :: rest) => takeContent? handles rest
      | _ => none
    else take? [] .block (4 * tokens.length + 4) tokens
  | [] => none

/-- The document of a list of tokens, `some none` if there is none in it. Nothing may
follow it but marks of its end. -/
def ofTokens? (tokens : List Token) : Option (Option Node) :=
  match dropEnds tokens with
  | [] => some none
  | tokens =>
    match takeDocument? tokens with
    | some (node, rest) => if (dropEnds rest).isEmpty then some (some node) else none
    | none => none

/-- The document of a text. -/
def read? (text : List Char) : Option (Option Node) := (Token.scan? text).bind ofTokens?

end Node

end Voicing.Yaml
