import Voicing.Bank.Read
import Voicing.Text.Utf8

/-!
Bank files.

A path names a bank file with or without its ending. Reading goes through a function that
gives the contents of a file, so that what is loaded is determined by the contents of the
files alone.
-/

namespace Voicing.Bank

/-! ### Paths -/

/-- The name without slashes at its end and parts that only name the same place again. -/
def trimPath : List Char → List Char
  | [] => []
  | c :: cs =>
    match c, trimPath cs with
    | '/', [] | '/', ['.'] => []
    | _, rest => c :: rest

/-- The last part of a path. -/
def lastPart (path : List Char) : List Char :=
  (path.reverse.takeWhile (· != '/')).reverse

/-- A name has an ending: a point that is not its first character. -/
def hasEnding (name : List Char) : Bool := (name.drop 1).contains '.'

/-- The files that a path can mean: itself, or the same with an ending. A path to a
directory above has no name to put an ending on, and behind a name that has one already no
slashes are passed over. -/
def candidates (path : String) : List String :=
  let base := trimPath path.toList
  let name := lastPart base
  if name = [] ∨ name = ['.'] ∨ name = ['.', '.'] then [path]
  else if hasEnding name ∧ base ≠ path.toList then [path]
  else [path, String.ofList base ++ ".yaml", String.ofList base ++ ".yml"]

/-! ### Contents -/

/-- The bank in a list of bytes. -/
def parseBytes (bytes : List UInt8) : Except LoadFault Bank :=
  parse (Text.decode (Text.dropByteOrderMark bytes))

/-- The contents of the first of some files that there is. -/
def firstFile {m : Type → Type} [Monad m] (readFile : String → m (Option (List UInt8))) :
    List String → m (Option (List UInt8))
  | [] => pure none
  | path :: paths => do
    match ← readFile path with
    | some bytes => pure (some bytes)
    | none => firstFile readFile paths

/-- The bank in the file that a path means. `readFile` answers with the contents of a
file, if there is one. -/
def load {m : Type → Type} [Monad m] (readFile : String → m (Option (List UInt8)))
    (path : String) : m (Except LoadFault Bank) := do
  match ← firstFile readFile (candidates path) with
  | some bytes => pure (parseBytes bytes)
  | none => pure (.error .unreadable)

end Voicing.Bank
