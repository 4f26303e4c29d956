/-!
The characters of a YAML text and where they stand.

A text is read with every line break as a newline, up to a null character if there is
one. A `Place` counts lines, columns and characters and knows whether anything but
blanks has been seen on its line. `skipGap` passes over blanks, comments and line breaks
to the next token.
-/

namespace Voicing.Yaml

/-- The characters up to a null character, line breaks of all kinds as newlines. -/
def normalize : List Char → List Char
  | [] => []
  | '\r' :: '\n' :: rest => '\n' :: normalize rest
  | c :: rest =>
    if c = '\r' then '\n' :: normalize rest
    else if c = '\x00' then []
    else c :: normalize rest

/-! ### Kinds of characters -/

def isBlank (c : Char) : Bool := c == ' ' || c == '\t'

/-- The marks that give flow collections their form. -/
def isFlowMark (c : Char) : Bool := c == ',' || c == '[' || c == ']' || c == '{' || c == '}'

/-- The text goes on with a line break or not at all. -/
def atLineEnd : List Char → Bool
  | [] => true
  | c :: _ => c == '\n'

/-- The text goes on with a blank or a line break or not at all. -/
def atGap : List Char → Bool
  | [] => true
  | c :: _ => isBlank c || c == '\n'

/-- The text goes on with a flow mark. -/
def atFlowMark : List Char → Bool
  | [] => false
  | c :: _ => isFlowMark c

/-- The text goes on with a mark thrice and a gap. -/
def atTriple (mark : Char) : List Char → Bool
  | a :: b :: c :: rest => a == mark && b == mark && c == mark && atGap rest
  | _ => false

/-- The text goes on with a line that begins or ends a document. -/
def atDocumentMark (rest : List Char) : Bool := atTriple '-' rest || atTriple '.' rest

/-- Letters, digits, hyphen and underscore, of ASCII only. -/
def isNameChar (c : Char) : Bool := c.isAlphanum || c == '-' || c == '_'

/-- The characters of a tag, percent escapes included. -/
def isUriChar (c : Char) : Bool :=
  c.isAlphanum || c == '-' || "#;/?:@&=+$,_.!~*()[]%".toList.contains c || c == '\''

/-- The characters of the part of a tag after its handle. -/
def isTagChar (c : Char) : Bool := isUriChar c && !isFlowMark c && c != '!'

/-- The characters of an anchor. -/
def isAnchorChar (c : Char) : Bool :=
  !isBlank c && c != '\n' && !isFlowMark c && c != '\ufeff'

/-! ### Places -/

/-- Where a character stands. -/
structure Place where
  line : Nat
  column : Nat
  index : Nat
  /-- Only blanks have been seen on the line. -/
  fresh : Bool
deriving DecidableEq, Repr

namespace Place

def start : Place := ⟨0, 0, 0, true⟩

/-- After blanks. -/
def blanks (p : Place) (count : Nat) : Place :=
  { p with column := p.column + count, index := p.index + count }

/-- After characters that are no blanks. -/
def marks (p : Place) (count : Nat) : Place := { p.blanks count with fresh := false }

/-- After a line break. -/
def newline (p : Place) : Place := ⟨p.line + 1, 0, p.index + 1, true⟩

/-- After a character of any kind. -/
def after (p : Place) (c : Char) : Place :=
  if c = '\n' then p.newline else if isBlank c then p.blanks 1 else p.marks 1

end Place

/-! ### Gaps -/

/-- The rest of a line that holds nothing but blanks and a comment. The blanks in front
are part of the answer, and a comment needs some. -/
def skipToLineEnd? (rest : List Char) (p : Place) : Option (List Char × List Char × Place) :=
  let blanks := rest.takeWhile isBlank
  let after := rest.drop blanks.length
  let p := p.blanks blanks.length
  match after with
  | '#' :: _ =>
    if blanks.isEmpty then none
    else
      let comment := after.takeWhile (· != '\n')
      some (blanks, after.drop comment.length, p.marks comment.length)
  | _ => some (blanks, after, p)

/-- Passes over spaces, comments and line breaks. `comment` tells whether a comment has
begun. -/
def skipSpaces : Bool → List Char → Place → List Char × Place
  | _, [], p => ([], p)
  | comment, c :: cs, p =>
    if c = '\n' then skipSpaces false cs p.newline
    else if comment ∨ c = '#' then skipSpaces true cs (p.marks 1)
    else if c = ' ' then skipSpaces false cs (p.blanks 1)
    else (c :: cs, p)

/-- What `skipGap` is passing over. -/
inductive Gap where
  | blanks
  /-- A line indented by a tab, which must not hold anything. -/
  | tabbed
  | comment
deriving DecidableEq, Repr

/-- Passes over blanks, comments and line breaks, and tells whether a line break was
among them. A tab left of `margin` at the beginning of a line is refused unless the line
is empty otherwise. -/
def skipGap (margin : Option Int) :
    Gap → Bool → List Char → Place → Option (List Char × Place × Bool)
  | _, broken, [], p => some ([], p, broken)
  | gap, broken, c :: cs, p =>
    if c = '\n' then skipGap margin .blanks true cs p.newline
    else if gap = .comment then skipGap margin .comment broken cs (p.marks 1)
    else if c = ' ' then skipGap margin gap broken cs (p.blanks 1)
    else if c = '\t' then
      let left := p.fresh && margin.any fun m => decide ((p.column : Int) < m)
      skipGap margin (if left then .tabbed else gap) broken cs (p.blanks 1)
    else if c = '#' then skipGap margin .comment broken cs (p.marks 1)
    else if gap = .tabbed then none
    else some (c :: cs, p, broken)

end Voicing.Yaml
