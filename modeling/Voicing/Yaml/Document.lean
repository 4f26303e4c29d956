import Voicing.Decimal.Style

/-!
Writing YAML documents.

A `Document` is a tree of scalars, sequences and mappings, written in block form: the
items of a sequence stand under their key without indentation, a mapping inside anything
is indented by two. Plain scalars are written as they are given. Text is written plain
where that reads back as the same text; a text with newlines is a literal block, one that
could be taken for something else is in single quotes, and one with characters that
cannot be shown is in double quotes. Lines are never folded.
-/

namespace Voicing.Yaml

inductive Document where
  /-- Written as it is given. -/
  | plain (text : String)
  /-- Written so that it reads back as text. -/
  | text (text : String)
  | sequence (items : List Document)
  | mapping (entries : List (String × Document))
deriving Inhabited

/-- The forms of a text. -/
inductive TextForm where
  | plain
  | singleQuoted
  | doubleQuoted
  | literal
deriving DecidableEq, Repr

/-! ### Choosing a form -/

/-- The characters at which a writer breaks lines. -/
def isLineBreak (c : Char) : Bool :=
  c == '\n' || c == '\r' || c == '\u0085' || c == '\u2028' || c == '\u2029'

/-- A blank, a line break or the null character. -/
def isWhite (c : Char) : Bool := c == ' ' || c == '\t' || isLineBreak c || c == '\x00'

/-- The characters that can be shown. -/
def isShown (c : Char) : Bool :=
  let n := c.toNat
  c == '\n' || (decide (0x20 ≤ n) && decide (n ≤ 0x7E))
    || (decide (0xA0 ≤ n) && n != 0xFEFF && n != 0xFFFE && n != 0xFFFF)

/-- Some two neighbours are in a relation. -/
def anyNeighbours (p : Char → Char → Bool) : List Char → Bool
  | a :: b :: rest => p a b || anyNeighbours p (b :: rest)
  | _ => false

/-- The marks that no plain scalar begins with. -/
def openingMarks : List Char := "#,[]&*!|>'\"%@\x60\x7b\x7d".toList

/-- The beginning is one of a plain scalar. -/
def beginsPlain : List Char → Bool
  | [] => true
  | c :: rest =>
    let alone := rest.head?.all isWhite
    let first := (c :: rest).take 3
    !openingMarks.contains c && !((c == '?' || c == ':' || c == '-') && alone)
      && first != ['-', '-', '-'] && first != ['.', '.', '.']

/-- Something inside or at the end would end a plain scalar: a colon in front of white
space, or a hash after it. -/
def endsPlain (cs : List Char) : Bool :=
  anyNeighbours (fun a b => (a == ':' && isWhite b) || (b == '#' && isWhite a)) cs
    || cs.getLast? == some ':'

/-- Words that would be read as something else than text, in any case. -/
def reservedWords : List String :=
  ["y", "n", "yes", "no", "on", "off", "true", "false", "null", "nil", "~", "nan"]

/-- The text could be taken for a number, a boolean or null. -/
def isAmbiguous (cs : List Char) : Bool :=
  match cs with
  | [] => true
  | c :: _ =>
    c.isDigit || ['-', '.', '+'].contains c
      || reservedWords.contains (String.ofList (cs.map Char.toLower))

def hasHidden (cs : List Char) : Bool := cs.any (!isShown ·)

def hasSpaceBeforeBreak (cs : List Char) : Bool :=
  anyNeighbours (fun a b => a == ' ' && isLineBreak b) cs

def hasSpaceAfterBreak (cs : List Char) : Bool :=
  anyNeighbours (fun a b => isLineBreak a && b == ' ') cs

def isSpaceOrBreak (c : Char) : Bool := c == ' ' || isLineBreak c

/-- The form in which a text is written. -/
def TextForm.of (cs : List Char) : TextForm :=
  let quoted : TextForm :=
    if hasHidden cs || hasSpaceBeforeBreak cs || hasSpaceAfterBreak cs then .doubleQuoted
    else .singleQuoted
  if cs.contains '\n' then
    if hasHidden cs || hasSpaceBeforeBreak cs || cs.getLast? == some ' ' then .doubleQuoted
    else .literal
  else if isAmbiguous cs then quoted
  else if cs.any isLineBreak || hasHidden cs || !beginsPlain cs || endsPlain cs
      || cs.head?.any isSpaceOrBreak || cs.getLast?.any isSpaceOrBreak then quoted
  else .plain

/-! ### Writing text -/

def spaces (count : Nat) : List Char := List.replicate count ' '

/-- The digits of a code, in upper case and filled up with zeros. -/
def hexDigits (width n : Nat) : List Char :=
  let digits := (Nat.toDigits 16 n).map Char.toUpper
  zeros (width - digits.length) ++ digits

/-- The form of a character in double quotes. -/
def escaped (c : Char) : List Char :=
  if isShown c && !isLineBreak c && c != '"' && c != '\\' then [c]
  else
    match c with
    | '\x00' => ['\\', '0']
    | '\x07' => ['\\', 'a']
    | '\x08' => ['\\', 'b']
    | '\t' => ['\\', 't']
    | '\n' => ['\\', 'n']
    | '\x0b' => ['\\', 'v']
    | '\x0c' => ['\\', 'f']
    | '\r' => ['\\', 'r']
    | '\x1b' => ['\\', 'e']
    | '"' => ['\\', '"']
    | '\\' => ['\\', '\\']
    | '\u0085' => ['\\', 'N']
    | '\u2028' => ['\\', 'L']
    | '\u2029' => ['\\', 'P']
    | _ =>
      let n := c.toNat
      if n ≤ 0xFF then '\\' :: 'x' :: hexDigits 2 n
      else if n ≤ 0xFFFF then '\\' :: 'u' :: hexDigits 4 n
      else '\\' :: 'U' :: hexDigits 8 n

/-- The characters of a text with `indent` blanks at the beginning of every line that is
not empty. `fresh` tells whether the text stands at the beginning of a line. -/
def indented (indent : Nat) : Bool → List Char → List Char
  | _, [] => []
  | fresh, c :: cs =>
    if isLineBreak c then c :: indented indent true cs
    else (if fresh then spaces indent else []) ++ c :: indented indent false cs

/-- A text between single quotes, its own doubled. -/
def singleQuoted (indent : Nat) (cs : List Char) : List Char :=
  let doubled := cs.flatMap fun c => if c = '\'' then ['\'', '\''] else [c]
  let closing := if cs.getLast?.any isLineBreak then spaces indent else []
  '\'' :: indented indent false doubled ++ closing ++ ['\'']

/-- A text between double quotes. -/
def doubleQuoted (cs : List Char) : List Char := '"' :: cs.flatMap escaped ++ ['"']

/-- The head of a literal block: its mark, the indentation if the first line does not show
it, and what becomes of the line breaks at the end. -/
def literalHead (cs : List Char) : List Char :=
  let hint := if cs.head?.any isSpaceOrBreak then ['2'] else []
  let ends := cs.reverse.takeWhile isLineBreak
  let chomping :=
    if ends.isEmpty then ['-']
    else if ends.length = 1 ∧ ends.length < cs.length then []
    else ['+']
  '|' :: hint ++ chomping

/-- A literal block up to its last line break. -/
def literal (indent : Nat) (cs : List Char) : List Char :=
  literalHead cs ++ '\n' :: indented indent true cs
    ++ if cs.getLast?.any isLineBreak then [] else ['\n']

/-- A text as a scalar, to the end of its last line. -/
def writeText (indent : Nat) (text : String) : List Char :=
  let cs := text.toList
  match TextForm.of cs with
  | .plain => cs ++ ['\n']
  | .singleQuoted => singleQuoted indent cs ++ ['\n']
  | .doubleQuoted => doubleQuoted cs ++ ['\n']
  | .literal => literal indent cs

/-! ### Writing documents -/

namespace Document

mutual

/-- A document whose first line is begun already, the others being indented. -/
def write (indent : Nat) : Document → List Char
  | .plain s => s.toList ++ ['\n']
  | .text s => writeText (indent + 2) s
  | .sequence [] => ['[', ']', '\n']
  | .sequence (item :: items) => '-' :: ' ' :: write (indent + 2) item ++ writeItems indent items
  | .mapping [] => ['\x7b', '\x7d', '\n']
  | .mapping (entry :: entries) =>
    entry.1.toList ++ ':' :: writeUnder indent entry.2 ++ writeEntries indent entries

/-- The items of a sequence, each on a line of its own. -/
def writeItems (indent : Nat) : List Document → List Char
  | [] => []
  | item :: items =>
    spaces indent ++ '-' :: ' ' :: write (indent + 2) item ++ writeItems indent items

/-- The entries of a mapping, each on a line of its own. -/
def writeEntries (indent : Nat) : List (String × Document) → List Char
  | [] => []
  | (name, value) :: entries =>
    spaces indent ++ name.toList ++ ':' :: writeUnder indent value ++ writeEntries indent entries

/-- What follows the colon of an entry: a scalar on the same line, a collection on the
next. -/
def writeUnder (indent : Nat) : Document → List Char
  | .plain s => ' ' :: s.toList ++ ['\n']
  | .text s => ' ' :: writeText (indent + 2) s
  | .sequence [] => [' ', '[', ']', '\n']
  | .sequence (item :: items) => '\n' :: writeItems indent (item :: items)
  | .mapping [] => [' ', '\x7b', '\x7d', '\n']
  | .mapping (entry :: entries) => '\n' :: writeEntries (indent + 2) (entry :: entries)

end

/-- The text of a document. -/
def render (d : Document) : String := String.ofList (d.write 0)

end Document

end Voicing.Yaml
