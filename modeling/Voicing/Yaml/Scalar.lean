import Voicing.Yaml.Text
import Voicing.Decimal.Read

/-!
The scalars of a YAML text.

Scalars are written plain, in quotes or as blocks of lines. In the first two ways a line
break between words is one space and each further one a line break; a block keeps its
line breaks if it is literal and folds them if it is not. Each reader below takes the
characters of a scalar off the text one by one and answers `none` where the text is
refused.
-/

namespace Voicing.Yaml

/-- A scalar taken off a text: its characters, and the rest of the text. -/
structure Taken where
  text : List Char
  rest : List Char
  place : Place

/-- A scalar whose characters are given last first. -/
def Taken.ofReversed (text rest : List Char) (place : Place) : Taken :=
  ⟨text.reverse, rest, place⟩

/-- The characters that stand for the gap between two words, last first. -/
def foldGap (spaces : List Char) : Nat → List Char
  | 0 => spaces
  | 1 => [' ']
  | breaks + 1 => List.replicate breaks '\n'

/-! ### Plain scalars -/

/-- What the reader of a plain scalar is passing over. -/
inductive PlainPart where
  | start
  | word
  | gap
  | tabbed
  | comment
deriving DecidableEq, Repr

/-- A character can be part of a plain scalar, given what follows it. -/
def isPlainChar (inFlow : Bool) (c : Char) (next : List Char) : Bool :=
  !(c == ':' && (atGap next || inFlow && atFlowMark next)) && !(inFlow && isFlowMark c)

/-- Reads a plain scalar. `text` and `spaces` are kept last character first, and
`breaks` counts the line breaks since the last word, without those after comments.
Outside of flow collections a line left of `margin` ends the scalar. -/
def takePlain (inFlow : Bool) (margin : Int) :
    PlainPart → List Char → List Char → Nat → List Char → Place → Option Taken
  | _, text, _, _, [], p => some (.ofReversed text [] p)
  | part, text, spaces, breaks, c :: cs, p =>
    let dash := inFlow && c == '-' && atFlowMark cs
    if part = .comment ∧ c ≠ '\n' then
      takePlain inFlow margin .comment text spaces breaks cs (p.marks 1)
    else if c = '\n' then
      if part = .start then some (.ofReversed text (c :: cs) p)
      else
        let breaks := if part = .comment then breaks else breaks + 1
        takePlain inFlow margin .gap text [] breaks cs p.newline
    else if isBlank c then
      match part with
      | .start => some (.ofReversed text (c :: cs) p)
      | .word => takePlain inFlow margin .gap text [c] 0 cs (p.blanks 1)
      | _ =>
        if !p.fresh then takePlain inFlow margin part text (c :: spaces) breaks cs (p.blanks 1)
        else if c = '\t' ∧ (p.column : Int) < margin then
          takePlain inFlow margin .tabbed text spaces breaks cs (p.blanks 1)
        else takePlain inFlow margin part text spaces breaks cs (p.blanks 1)
    else if part = .tabbed then
      if c = '#' then takePlain inFlow margin .comment text spaces breaks cs (p.marks 1)
      else none
    else if part = .gap ∧ !inFlow ∧ (p.column : Int) < margin then
      some (.ofReversed text (c :: cs) p)
    else if part = .gap ∧ (c = '#' ∨ (p.fresh ∧ p.column = 0 ∧ atDocumentMark (c :: cs))) then
      some (.ofReversed text (c :: cs) p)
    else if part ≠ .word ∧ dash then none
    else if isPlainChar inFlow c cs then
      let text := if part = .gap then foldGap spaces breaks ++ text else text
      takePlain inFlow margin .word (c :: text) [] 0 cs (p.marks 1)
    else some (.ofReversed text (c :: cs) p)

/-! ### Quoted scalars -/

/-- A gap inside quotes: blanks on one line, line breaks, or line breaks of which the
first is escaped. -/
inductive QuotedGap where
  | spaces (last : List Char)
  | folded (breaks : Nat)
  | escaped (breaks : Nat)
deriving DecidableEq, Repr

/-- The characters that stand for a gap inside quotes, last first. -/
def QuotedGap.text : QuotedGap → List Char
  | .spaces last => last
  | .folded breaks => foldGap [] (breaks + 1)
  | .escaped breaks => List.replicate breaks '\n'

/-- What the reader of a quoted scalar is passing over. -/
inductive QuotedPart where
  | word
  | gap (gap : QuotedGap)
  /-- After a single quote: another one, or the end. -/
  | quote
  | escape
  | hex (left : Nat) (value : Nat)
deriving DecidableEq, Repr

/-- What a character makes of a quoted scalar. -/
inductive QuotedMove where
  | refuse
  /-- The scalar goes on. -/
  | go (part : QuotedPart) (text : List Char)
  /-- The character ends the scalar. -/
  | endAfter (text : List Char)
  /-- The scalar ended before the character. -/
  | endBefore (text : List Char)

/-- The character of a short escape. -/
def shortEscape? (c : Char) : Option Char :=
  match c with
  | '0' => some '\x00'
  | 'a' => some '\x07'
  | 'b' => some '\x08'
  | 't' | '\t' => some '\t'
  | 'n' => some '\n'
  | 'v' => some '\x0b'
  | 'f' => some '\x0c'
  | 'r' => some '\r'
  | 'e' => some '\x1b'
  | ' ' => some ' '
  | '"' => some '"'
  | '/' => some '/'
  | '\\' => some '\\'
  | 'N' => some '\u0085'
  | '_' => some '\u00a0'
  | 'L' => some '\u2028'
  | 'P' => some '\u2029'
  | _ => none

/-- How many digits the code of a long escape has. -/
def escapeDigits? (c : Char) : Option Nat :=
  match c with
  | 'x' => some 2
  | 'u' => some 4
  | 'U' => some 8
  | _ => none

/-- A character of a word inside quotes. -/
def wordMove (single : Bool) (text : List Char) (c : Char) : QuotedMove :=
  if isBlank c then .go (.gap (.spaces [c])) text
  else if c = '\n' then .go (.gap (.folded 0)) text
  else if single then if c = '\'' then .go .quote text else .go .word (c :: text)
  else if c = '"' then .endAfter text
  else if c = '\\' then .go .escape text
  else .go .word (c :: text)

/-- A character of a gap inside quotes. Lines have to keep to the indentation, without
tabs, and must not look like the beginning or end of a document. Only the quote that ends
the scalar may follow an escaped line break at the very beginning of the line. -/
def gapMove (single : Bool) (indent : Int) (gap : QuotedGap) (text : List Char)
    (c : Char) (cs : List Char) (p : Place) : QuotedMove :=
  let left := decide ((p.column : Int) < indent)
  if isBlank c then
    match gap with
    | .spaces last => .go (.gap (.spaces (c :: last))) text
    | _ => if c = '\t' ∧ left then .refuse else .go (.gap gap) text
  else if c = '\n' then
    match gap with
    | .spaces _ => .go (.gap (.folded 0)) text
    | .folded n => .go (.gap (.folded (n + 1))) text
    | .escaped n => .go (.gap (.escaped (n + 1))) text
  else if c = '"' ∧ gap = .escaped 0 ∧ p.column = 0 then .endAfter text
  else if left ∨ (p.column = 0 ∧ atDocumentMark (c :: cs)) then .refuse
  else wordMove single (gap.text ++ text) c

/-- The character after a backslash. -/
def escapeMove (text : List Char) (c : Char) : QuotedMove :=
  if c = '\n' then .go (.gap (.escaped 0)) text
  else
    match shortEscape? c, escapeDigits? c with
    | some d, _ => .go .word (d :: text)
    | none, some n => .go (.hex n 0) text
    | none, none => .refuse

/-- A digit of the code of a character. -/
def hexMove (left value : Nat) (text : List Char) (c : Char) : QuotedMove :=
  match digitValue? 16 c with
  | none => .refuse
  | some d =>
    let value := value * 16 + d
    if 1 < left then .go (.hex (left - 1) value) text
    else if value.isValidChar then .go .word (Char.ofNat value :: text)
    else .refuse

/-- What the next character makes of a quoted scalar. -/
def quotedMove (single : Bool) (indent : Int) (part : QuotedPart) (text : List Char)
    (c : Char) (cs : List Char) (p : Place) : QuotedMove :=
  match part with
  | .word => wordMove single text c
  | .gap gap => gapMove single indent gap text c cs p
  | .quote => if c = '\'' then .go .word (c :: text) else .endBefore text
  | .escape => escapeMove text c
  | .hex left value => hexMove left value text c

/-- Reads a quoted scalar after its opening quote, its characters last first. -/
def takeQuoted (single : Bool) (indent : Int) :
    QuotedPart → List Char → List Char → Place → Option Taken
  | .quote, text, [], p => some (.ofReversed text [] p)
  | _, _, [], _ => none
  | part, text, c :: cs, p =>
    match quotedMove single indent part text c cs p with
    | .refuse => none
    | .go part text => takeQuoted single indent part text cs (p.after c)
    | .endAfter text => some (.ofReversed text cs (p.marks 1))
    | .endBefore text => some (.ofReversed text (c :: cs) p)

/-! ### Block scalars -/

/-- What becomes of the line breaks at the end of a block. -/
inductive Chomping where
  | clip
  | strip
  | keep
deriving DecidableEq, Repr

/-- The head of a block: its chomping and its indentation, zero if that is left open. -/
structure BlockHead where
  chomping : Chomping
  increment : Nat
deriving DecidableEq, Repr

/-- Takes a chomping mark off a text. -/
def takeChomping : List Char → Option (Chomping × List Char)
  | '+' :: rest => some (.keep, rest)
  | '-' :: rest => some (.strip, rest)
  | _ => none

/-- Takes an indentation digit off a text: none, or the digit unless it is zero. -/
def takeIncrement? : List Char → Option (Nat × List Char)
  | [] => some (0, [])
  | c :: rest =>
    if c.isDigit then if c = '0' then none else some (c.toNat - '0'.toNat, rest)
    else some (0, c :: rest)

/-- Reads the head of a block: the two marks in either order. -/
def takeBlockHead? (text : List Char) : Option (BlockHead × List Char) :=
  match takeChomping text with
  | some (chomping, rest) =>
    (takeIncrement? rest).map fun (increment, rest) => (⟨chomping, increment⟩, rest)
  | none =>
    (takeIncrement? text).map fun (increment, rest) =>
      match (if increment = 0 then none else takeChomping rest) with
      | some (chomping, rest) => (⟨chomping, increment⟩, rest)
      | none => (⟨.clip, increment⟩, rest)

/-- The lines in front of a block's first line. -/
structure BlockLead where
  rest : List Char
  place : Place
  breaks : Nat
  /-- The most blanks in front of any of the lines. -/
  widest : Nat

/-- Passes over empty lines and the blanks in front of the first line that is none, at
most as many as the indentation if it is known. -/
def skipBlockLead (indent : Option Nat) : Nat → Nat → List Char → Place → BlockLead
  | breaks, widest, [], p => ⟨[], p, breaks, max widest p.column⟩
  | breaks, widest, c :: cs, p =>
    if c = ' ' ∧ indent.all (p.column < ·) then
      skipBlockLead indent breaks widest cs (p.blanks 1)
    else if c = '\n' then
      skipBlockLead indent (breaks + 1) (max widest p.column) cs p.newline
    else ⟨c :: cs, p, breaks, max widest p.column⟩

/-- A block as far as it has been read, its characters last first. -/
structure BlockState where
  text : List Char
  /-- The last line was ended. -/
  ended : Bool
  /-- The empty lines after it. -/
  empty : Nat
  /-- The last line began with a blank. -/
  indented : Bool

/-- The characters between the last line and one that begins with `c`, last first. Folded
lines are joined unless one of them begins with a blank. -/
def BlockState.joint (literal : Bool) (s : BlockState) (c : Char) : List Char :=
  if !literal && s.ended && !s.indented && !isBlank c then
    if s.empty = 0 then [' '] else List.replicate s.empty '\n'
  else List.replicate (s.empty + if s.ended then 1 else 0) '\n'

/-- Reads the lines of a block with an indentation. `inLine` tells whether the reader is
past the indentation of a line. -/
def takeBlockLines (literal : Bool) (indent : Nat) :
    Bool → BlockState → List Char → Place → BlockState × List Char × Place
  | _, s, [], p => (s, [], p)
  | true, s, c :: cs, p =>
    if c = '\n' then
      takeBlockLines literal indent false { s with ended := true, empty := 0 } cs p.newline
    else takeBlockLines literal indent true { s with text := c :: s.text } cs (p.after c)
  | false, s, c :: cs, p =>
    if c = ' ' ∧ p.column < indent then takeBlockLines literal indent false s cs (p.blanks 1)
    else if c = '\n' then
      takeBlockLines literal indent false { s with empty := s.empty + 1 } cs p.newline
    else if p.column = indent ∧ !(indent == 0 && atTriple '.' (c :: cs)) then
      let begun : BlockState :=
        ⟨c :: (s.joint literal c ++ s.text), false, 0, isBlank c⟩
      takeBlockLines literal indent true begun cs (p.after c)
    else (s, c :: cs, p)

/-- The line breaks at the end of a block, last first. A text that ends in the middle of
a line counts as ending with a break. -/
def BlockState.tail (chomping : Chomping) (cut : Bool) (s : BlockState) : List Char :=
  let breaks := (if s.ended then 1 else 0) + if cut then 1 else 0
  match chomping with
  | .strip => []
  | .clip => List.replicate breaks '\n'
  | .keep => List.replicate (breaks + s.empty) '\n'

/-- The text of a block that the end of the document left without lines. -/
def emptyBlock (chomping : Chomping) (headEnded : Bool) (breaks : Nat) : List Char :=
  let one := if headEnded then ['\n'] else []
  match chomping with
  | .strip => []
  | .clip => one
  | .keep => if breaks = 0 then one else List.replicate breaks '\n'

/-- Reads a block scalar after its mark, inside a collection with the indentation
`outer`. -/
def takeBlock (literal : Bool) (outer : Int) (rest : List Char) (p : Place) : Option Taken :=
  (takeBlockHead? rest).bind fun (head, body) =>
    (skipToLineEnd? body (p.marks (rest.length - body.length))).bind fun (_, rest, p) =>
      if !atLineEnd rest then none
      else
        let headEnded := !rest.isEmpty
        let body := rest.drop 1
        let p := if headEnded then p.newline else p
        if body.head? = some '\t' then none
        else
          let given : Option Nat :=
            if head.increment = 0 then none else some ((max outer 0).toNat + head.increment)
          let lead := skipBlockLead given 0 0 body p
          let indent := given.getD (max lead.widest (outer + 1).toNat)
          if lead.rest.isEmpty then
            some ⟨emptyBlock head.chomping headEnded lead.breaks, [], lead.place⟩
          else if lead.place.column < indent ∧ outer < lead.place.column then none
          else
            let (s, rest, p) :=
              takeBlockLines literal indent false ⟨[], false, lead.breaks, false⟩ lead.rest
                lead.place
            let cut := rest.isEmpty && decide (max indent 1 ≤ p.column)
            some ⟨(s.tail head.chomping cut ++ s.text).reverse, rest, p⟩

end Voicing.Yaml
