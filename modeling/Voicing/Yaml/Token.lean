import Voicing.Yaml.Scalar

/-!
The tokens of a YAML text.

Besides the marks that are written, tokens tell where block collections begin and end,
which only the indentation shows, which nodes are keys, which only the colon after them
shows, and which pairs in flow sequences are mappings of their own. So the reader keeps
the stack of indentations it is in, and for each flow collection it is in the place where
a key may have begun: when a colon follows, the token that announces a key is put in there.

`Token.scan?` gives the tokens of a text, or `none` where the text is refused.
-/

namespace Voicing.Yaml

inductive Token where
  | version
  | tagDirective (handle expansion : String)
  | otherDirective
  | documentStart
  | documentEnd
  | blockSequence
  | blockMapping
  | blockEnd
  | flowSequence
  | flowSequenceEnd
  | flowMapping
  | flowMappingEnd
  | entry
  | comma
  | key
  | value
  | alias (name : String)
  | anchor (name : String)
  | tag (handle suffix : String)
  | scalar (plain : Bool) (text : String)
deriving DecidableEq, Repr

/-- An indentation to return to. Only a block has an end of its own; the others ask what
follows on the next line to be indented by one. -/
structure Level where
  indent : Int
  block : Bool
deriving DecidableEq, Repr

/-- Where a key may have begun: the number of its first token and its place. A required
one stands where nothing but a key can. -/
structure Candidate where
  token : Nat
  place : Place
  required : Bool
deriving DecidableEq, Repr

/-- A text as far as it has been read. -/
structure Scan where
  rest : List Char
  place : Place
  /-- The tokens so far, last first. -/
  tokens : List Token
  /-- How many tokens there are so far. -/
  count : Nat
  indent : Int
  levels : List Level
  /-- A key may begin here. -/
  keyAllowed : Bool
  /-- The candidate of the innermost flow collection. -/
  candidate : Option Candidate
  /-- The candidates around the flow collections, innermost first. -/
  flows : List (Option Candidate)
  /-- Since a pair of its own ended last, a flow mapping has begun or a key inside a flow
  collection was announced. Colons make no pairs of their own then. -/
  mapped : Bool
  /-- The last colon made a pair of its own, a mapping without braces, and no comma or
  bracket has ended it. -/
  paired : Bool
  /-- Where a colon needs no blank after it, being adjacent to a quoted or flow key. -/
  adjacent : Option Nat

namespace Scan

/-- The most flow collections inside each other. -/
def deepest : Nat := 255

/-- The most characters of a key. -/
def longestKey : Nat := 1024

def start (text : List Char) : Scan where
  rest := text
  place := .start
  tokens := []
  count := 0
  indent := -1
  levels := []
  keyAllowed := true
  candidate := none
  flows := []
  mapped := false
  paired := false
  adjacent := none

/-! ### Small steps -/

def column (s : Scan) : Int := s.place.column

def inFlow (s : Scan) : Bool := !s.flows.isEmpty

def push (s : Scan) (t : Token) : Scan := { s with tokens := t :: s.tokens, count := s.count + 1 }

/-- Puts a token in front of the one with a number. -/
def insert (s : Scan) (i : Nat) (t : Token) : Scan :=
  let after := s.count - i
  { s with tokens := s.tokens.take after ++ t :: s.tokens.drop after, count := s.count + 1 }

def allowKey (s : Scan) (allowed : Bool) : Scan := { s with keyAllowed := allowed }

/-- After characters that are neither blanks nor line breaks. -/
def skip (s : Scan) (count : Nat) : Scan :=
  { s with rest := s.rest.drop count, place := s.place.marks count }

/-- After a scalar. -/
def taken (s : Scan) (t : Taken) : Scan := { s with rest := t.rest, place := t.place }

/-- Passes over what remains of a line without content. -/
def skipBlanks? (s : Scan) : Option (List Char × Scan) :=
  (skipToLineEnd? s.rest s.place).map fun (blanks, rest, place) =>
    (blanks, { s with rest := rest, place := place })

/-- Passes over the gap in front of the next token. A new line allows a key. -/
def skipGap? (s : Scan) : Option Scan :=
  let margin := if s.levels.isEmpty then none else some s.indent
  (skipGap margin .blanks false s.rest s.place).map fun (rest, place, broken) =>
    { s with
      rest := rest
      place := place
      keyAllowed := s.keyAllowed || (broken && !s.inFlow) }

/-! ### Indentation -/

/-- The indentation after leaving the innermost levels that are deeper than a column,
and the ends of blocks among them. -/
def leave (column : Int) : Int → List Level → Int × List Level × Nat
  | indent, [] => (indent, [], 0)
  | indent, level :: levels =>
    if column < indent then
      let (indent, levels, ends) := leave column level.indent levels
      (indent, levels, ends + if level.block then 1 else 0)
    else (indent, level :: levels, 0)

/-- Leaves all blocks that are deeper than a column. -/
def leaveTo (s : Scan) (column : Int) : Scan :=
  if s.inFlow then s
  else
    let (indent, levels, ends) := leave column s.indent s.levels
    { s with
      indent := indent
      levels := levels
      tokens := List.replicate ends .blockEnd ++ s.tokens
      count := s.count + ends }

/-- Leaves the levels that are no blocks. -/
def leaveInner (indent : Int) : List Level → Int × List Level
  | [] => (indent, [])
  | level :: levels =>
    if level.block then (indent, level :: levels) else leaveInner level.indent levels

def leaveInnerLevels (s : Scan) : Scan :=
  let (indent, levels) := leaveInner s.indent s.levels
  { s with indent := indent, levels := levels }

/-- Asks what follows to be indented by one against the block around. -/
def indentByOne (s : Scan) : Scan :=
  if !s.inFlow && s.levels.head?.any (·.block) then
    { s with levels := ⟨s.indent, false⟩ :: s.levels, indent := s.indent + 1 }
  else s

/-- Enters a block at a column if it is deeper than the one around. The token that begins
it goes to the end, or in front of the token with a number. -/
def enter (s : Scan) (column : Int) (position : Option Nat) (t : Token) : Scan :=
  if s.inFlow then s
  else
    let s :=
      match s.levels with
      | level :: levels =>
        if s.indent ≤ column ∧ !level.block then
          { s with indent := level.indent, levels := levels }
        else s
      | [] => s
    if s.indent < column then
      let s := { s with levels := ⟨s.indent, true⟩ :: s.levels, indent := column }
      match position with
      | some i => s.insert i t
      | none => s.push t
    else s

/-! ### Keys -/

/-- Remembers that a key may begin here. -/
def saveKey (s : Scan) : Scan :=
  if s.keyAllowed then
    let required := !s.inFlow && s.indent == s.column && s.levels.head?.any (·.block)
    { s with candidate := some ⟨s.count, s.place, required⟩ }
  else s

/-- Gives up the candidate, which is an error if it was required. -/
def dropKey? (s : Scan) : Option Scan :=
  if s.candidate.any (·.required) then none else some { s with candidate := none }

/-- A candidate is out of date on a later line or after too many characters. -/
def isStale (s : Scan) (c : Candidate) : Bool :=
  decide (c.place.line < s.place.line) || decide (c.place.index + longestKey < s.place.index)

/-- Gives up a candidate that is out of date. Inside flow collections none is. -/
def dropStale? (s : Scan) : Option Scan :=
  if !s.inFlow && s.candidate.any s.isStale then s.dropKey? else some s

/-! ### Tokens -/

/-- A mark that begins or ends a document. -/
def documentMark? (s : Scan) (t : Token) : Option Scan :=
  ((s.leaveTo (-1)).dropKey?).map fun s => ((s.allowKey false).skip 3).push t

/-- The end of a document, after which the line has to be empty. -/
def documentEnd? (s : Scan) : Option Scan := do
  let s ← s.documentMark? .documentEnd
  let (_, s) ← s.skipBlanks?
  if atLineEnd s.rest then some s else none

/-- A flow collection begins. -/
def openFlow? (s : Scan) (t : Token) : Option Scan :=
  if deepest ≤ s.flows.length then none
  else
    let s := s.saveKey.indentByOne
    let s : Scan := { s with flows := s.candidate :: s.flows, candidate := none }
    let s : Scan := { s with mapped := s.mapped || t == .flowMapping }
    (((s.allowKey true).skip 1).skipBlanks?).map fun (_, s) => s.push t

/-- Ends the pair that the last colon made, if it made one. -/
def endPair (s : Scan) : Scan :=
  if s.paired then { s with mapped := false, paired := false }.push .flowMappingEnd else s

/-- A flow collection ends. Outside of flow collections the mark ends nothing. -/
def closeFlow? (s : Scan) (t : Token) : Option Scan := do
  let s ← s.dropKey?
  let s :=
    match s.flows with
    | candidate :: flows => { s with flows := flows, candidate := candidate }
    | [] => s
  let s := if t = .flowSequenceEnd then s.endPair else s
  let (_, s) ← ((s.allowKey false).skip 1).skipBlanks?
  let s := if s.inFlow then { s with adjacent := some s.place.index } else s
  some (s.push t)

/-- A comma. -/
def comma? (s : Scan) : Option Scan := do
  let s ← s.dropKey?
  let (_, s) ← ((s.endPair.allowKey true).skip 1).skipBlanks?
  some (s.push .comma)

/-- The hyphen of a block sequence. -/
def entry? (s : Scan) : Option Scan := do
  if s.inFlow || !s.keyAllowed then none
  else
    let column := s.column
    let (blanks, s) ← ((s.skip 1).enter column none .blockSequence).skipBlanks?
    if blanks.contains '\t' ∧ s.rest.head? = some '-' ∧ atGap (s.rest.drop 1) then none
    else
      let s := if s.rest.head? = some '\n' ∨ atFlowMark s.rest then s.indentByOne else s
      let s ← s.dropKey?
      some ((s.allowKey true).push .entry)

/-- The question mark of a key that is announced. A space or a line break has to follow,
and no tab in front of the key. -/
def key? (s : Scan) : Option Scan := do
  if !s.inFlow && !s.keyAllowed then none
  else
    let s ← (s.enter s.column none .blockMapping).dropKey?
    let s := { (s.allowKey (!s.inFlow)).skip 1 with mapped := s.mapped || s.inFlow }
    let (rest, place) := skipSpaces false s.rest s.place
    if s.rest.length ≤ rest.length ∨ rest.head? = some '\t' then none
    else some ({ s with rest := rest, place := place }.push .key)

/-- The colon in front of a value. Inside flow collections the key and its value are a pair
of their own, with the key on one line, unless a flow mapping has begun. -/
def value? (s : Scan) : Option Scan := do
  let colon := s.place
  let paired := s.inFlow && !s.mapped
  let after := { s.skip 1 with paired := paired }
  let blanks := after.rest.takeWhile isBlank
  let content := after.rest.drop blanks.length
  let tabbed := blanks.head? == some '\t' && !blanks.contains ' '
    && content.head?.any fun c => c == '-' || isNameChar c
  if tabbed then none
  else
    match s.candidate with
    | some c =>
      if paired && decide (c.place.line < colon.line) then none
      else
        let s := after.insert c.token .key
        let s := if paired then s.insert c.token .flowMapping else s
        let s := (s.enter c.place.column (some c.token) .blockMapping).indentByOne
        some (({ s with candidate := none }.allowKey false).push .value)
    | none =>
      if s.inFlow then
        let s := if paired then after.push .flowMapping else after
        some ((s.allowKey false).push .value)
      else if s.keyAllowed then
        some (((after.enter colon.column none .blockMapping).indentByOne.allowKey true).push .value)
      else none

/-- An anchor, or a reference to one. -/
def anchor? (s : Scan) (t : String → Token) : Option Scan :=
  let name := (s.rest.drop 1).takeWhile isAnchorChar
  if name.isEmpty then none
  else some (((s.saveKey.allowKey false).skip (name.length + 1)).push (t (String.ofList name)))

/-- A plain scalar. -/
def plain? (s : Scan) : Option Scan := do
  let s := (s.saveKey.allowKey false).leaveInnerLevels
  if s.inFlow ∧ s.column < s.indent + 1 then none
  else
    let taken ← takePlain s.inFlow (s.indent + 1) .start [] [] 0 s.rest s.place
    let s := (s.taken taken).push (.scalar true (String.ofList taken.text))
    some (s.allowKey (s.keyAllowed || s.place.fresh))

/-- A quoted scalar. After it the line ends, or a colon or the next part of a flow
collection follows. -/
def quoted? (s : Scan) (single : Bool) : Option Scan := do
  let line := s.place.line
  let s := s.saveKey.allowKey false
  let taken ← takeQuoted single s.indent .word [] (s.rest.drop 1) (s.place.marks 1)
  let (_, s) ← (s.taken taken).skipBlanks?
  let follows := match s.rest with
    | [] => true
    | c :: _ =>
      c == '\n' || (c == ':' && (s.inFlow || s.place.line == line))
        || (s.inFlow && (c == ',' || c == ']' || c == '}'))
  if !follows then none
  else
    let s ← s.skipGap?
    some ({ s with adjacent := some s.place.index }.push (.scalar false (String.ofList taken.text)))

/-- A block scalar. -/
def block? (s : Scan) (literal : Bool) : Option Scan := do
  let s := (s.saveKey.allowKey true).leaveInnerLevels
  let taken ← takeBlock literal s.indent (s.rest.drop 1) (s.place.marks 1)
  some ((s.taken taken).push (.scalar false (String.ofList taken.text)))

/-! ### Tags and directives -/

/-- How many bytes an escaped character has that begins with a byte. -/
def escapeLength? (byte : Nat) : Option Nat :=
  if byte < 0x80 then some 1
  else if byte < 0xC0 then none
  else if byte < 0xE0 then some 2
  else if byte < 0xF0 then some 3
  else if byte < 0xF8 then some 4
  else none

/-- The characters of a tag. A percent sign and two digits are a byte, and the bytes of an
escaped character are the digits of its code in base 256. `left` is how many bytes of
such a character are missing, and `code` is what they are appended to. -/
def unescapeUri? (left code : Nat) : List Char → Option (List Char)
  | [] => if left = 0 then some [] else none
  | '%' :: a :: b :: rest => do
    let byte := (← digitValue? 16 a) * 16 + (← digitValue? 16 b)
    let count ←
      if left = 0 then escapeLength? byte
      else if 0x80 ≤ byte ∧ byte < 0xC0 then some left
      else none
    let code := code * 256 + byte
    if 1 < count then unescapeUri? (count - 1) code rest
    else if code.isValidChar then (unescapeUri? 0 0 rest).map (Char.ofNat code :: ·)
    else none
  | c :: rest =>
    if c = '%' ∨ left ≠ 0 then none else (unescapeUri? 0 0 rest).map (c :: ·)

/-- Takes the handle of a tag off a text: a mark, and a name with a second mark if there
is one. A directive allows only the mark itself to go without the second. -/
def takeHandle? (directive : Bool) (rest : List Char) : Option (List Char × List Char) :=
  match rest with
  | '!' :: rest =>
    let name := rest.takeWhile isNameChar
    match rest.drop name.length with
    | '!' :: after => some ('!' :: name ++ ['!'], after)
    | after => if directive && !name.isEmpty then none else some ('!' :: name, after)
  | _ => none

/-- A tag: in full between angle brackets, or a handle and a suffix. -/
def tag? (s : Scan) : Option Scan := do
  let s := s.saveKey.allowKey false
  let (t, rest) ← match s.rest with
    | '!' :: '<' :: rest => do
      let uri := rest.takeWhile isUriChar
      let text ← unescapeUri? 0 0 uri
      match rest.drop uri.length with
      | '>' :: after => some (Token.tag "" (String.ofList text), after)
      | _ => none
    | rest => do
      let (handle, after) ← takeHandle? false rest
      let suffix := after.takeWhile isTagChar
      let text ← unescapeUri? 0 0 suffix
      let after := after.drop suffix.length
      if 2 ≤ handle.length ∧ handle.getLast? = some '!' then
        if suffix.isEmpty then none
        else some (Token.tag (String.ofList handle) (String.ofList text), after)
      else
        let suffix := handle.drop 1 ++ text
        if suffix.isEmpty then some (Token.tag "" "!", after)
        else some (Token.tag "!" (String.ofList suffix), after)
  if atGap rest || (s.inFlow && atFlowMark rest) then
    some ((s.skip (s.rest.length - rest.length)).push t)
  else none

/-- A version number: two numbers of up to nine digits with a point between. -/
def takeVersion? (rest : List Char) : Option (List Char) :=
  let major := rest.takeWhile Char.isDigit
  match rest.drop major.length with
  | '.' :: rest =>
    let minor := rest.takeWhile Char.isDigit
    if major.isEmpty ∨ minor.isEmpty ∨ 9 < major.length ∨ 9 < minor.length then none
    else some (rest.drop minor.length)
  | _ => none

/-- A handle and what it stands for. -/
def takeTagDirective? (rest : List Char) : Option (Token × List Char) := do
  let (handle, rest) ← takeHandle? true rest
  let rest := rest.dropWhile isBlank
  let expansion := rest.takeWhile isUriChar
  let text ← unescapeUri? 0 0 expansion
  let rest := rest.drop expansion.length
  if expansion.head?.any (fun c => c == '!' || isTagChar c) ∧ atGap rest then
    some (.tagDirective (String.ofList handle) (String.ofList text), rest)
  else none

/-- A directive, which takes up its line. -/
def directive? (s : Scan) : Option Scan := do
  let s ← (s.leaveTo (-1)).dropKey?
  let s := s.allowKey false
  let body := s.rest.drop 1
  let name := body.takeWhile isNameChar
  let rest := body.drop name.length
  if name.isEmpty ∨ !atGap rest then none
  else
    let value := rest.dropWhile isBlank
    let (t, rest) ←
      if name = "YAML".toList then (takeVersion? value).map fun rest => (Token.version, rest)
      else if name = "TAG".toList then takeTagDirective? value
      else some (.otherDirective, value.dropWhile (· != '\n'))
    let (_, s) ← (s.skip (s.rest.length - rest.length)).skipBlanks?
    if atLineEnd s.rest then
      some ({ s with rest := s.rest.drop 1, place := s.place.newline }.push t)
    else none

/-! ### The whole text -/

/-- The next token, which begins with `c` and goes on with `next`. -/
def token? (s : Scan) (c : Char) (next : List Char) : Option Scan :=
  if s.place.column = 0 ∧ c = '%' then s.directive?
  else if s.place.column = 0 ∧ atTriple '-' s.rest then s.documentMark? .documentStart
  else if s.place.column = 0 ∧ atTriple '.' s.rest then s.documentEnd?
  else if s.column < s.indent then none
  else
    match c with
    | '[' => s.openFlow? .flowSequence
    | '\x7b' => s.openFlow? .flowMapping
    | ']' => s.closeFlow? .flowSequenceEnd
    | '\x7d' => s.closeFlow? .flowMappingEnd
    | ',' => s.comma?
    | '*' => s.anchor? .alias
    | '&' => s.anchor? .anchor
    | '!' => s.tag?
    | '\'' => s.quoted? true
    | '"' => s.quoted? false
    | '%' | '@' | '\x60' => none
    | _ =>
      if c = '-' ∧ atGap next then s.entry?
      else if c = '?' ∧ atGap next then s.key?
      else if c = ':' ∧ (atGap next ∨ (s.inFlow ∧
          (atFlowMark next ∨ s.adjacent = some s.place.index))) then s.value?
      else if (c = '|' ∨ c = '>') ∧ !s.inFlow then s.block? (c == '|')
      else s.plain?

/-- The end of the text: all blocks end, and no required key may be left open. -/
def finish? (s : Scan) : Option (List Token) :=
  if s.candidate.any (·.required) || s.flows.any (·.any (·.required)) then none
  else some (s.leaveTo (-1)).tokens.reverse

/-- The tokens of the rest of a text. Every token takes a character at least, so there is
fuel enough if there is more of it than there are characters. -/
def run? : Nat → Scan → Option (List Token)
  | 0, _ => none
  | fuel + 1, s => do
    let s ← (← s.skipGap?).dropStale?
    let s := s.leaveTo s.column
    match s.rest with
    | [] => s.finish?
    | c :: next => run? fuel (← s.token? c next)

end Scan

/-- The tokens of a text. -/
def Token.scan? (text : List Char) : Option (List Token) :=
  let chars := normalize text
  Scan.run? (chars.length + 1) (Scan.start chars)

end Voicing.Yaml
