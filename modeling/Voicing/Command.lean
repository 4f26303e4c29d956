import Voicing.Listing

/-!
The command line.

A `Command` is what the arguments ask for: a listing of the layers of a bank, a replay of
a MIDI file through a bank, the version, or help. `Command.ofArguments?` reads the
arguments and `Command.run` says how the program ends. Files are read through a function
that is given to it, so that a run is determined by the contents of the files.
-/

namespace Voicing

/-! ### Arguments -/

/-- What the program can be asked about. -/
inductive Topic where
  | program
  | layers
  | replay
deriving DecidableEq, Repr

/-- What the program can be asked to do. -/
inductive Command where
  | layers (bank : String)
  | replay (bank midi : String) (seed : Option UInt64)
  | version
  | help (topic : Topic)
deriving DecidableEq, Repr

/-- What an argument is where options may stand. -/
inductive Argument where
  /-- The name of a file. -/
  | name (name : String)
  /-- What follows are names only. -/
  | namesOnly
  | help
  /-- The seed, with its value if that is part of the argument. -/
  | seed (value : Option String)
  | unknown
deriving DecidableEq, Repr

namespace Argument

/-- Arguments that begin with a dash are options; the dash alone is a name. -/
def ofString (s : String) : Argument :=
  match s.toList with
  | ['-', '-'] => .namesOnly
  | '-' :: '-' :: option =>
    let value := option.dropWhile (· != '=')
    match String.ofList (option.takeWhile (· != '=')), value with
    | "help", [] => .help
    | "seed", [] => .seed none
    | "seed", _ :: value => .seed (some (String.ofList value))
    | _, _ => .unknown
  | '-' :: 'h' :: _ => .help
  | ['-', 's'] => .seed none
  | '-' :: 's' :: '=' :: value => .seed (some (String.ofList value))
  | '-' :: 's' :: value => .seed (some (String.ofList value))
  | '-' :: _ :: _ => .unknown
  | _ => .name s

end Argument

/-- Arguments sorted into names and the seed. -/
structure SortedArguments where
  names : List String := []
  seed : Option UInt64 := none
deriving DecidableEq, Repr

namespace SortedArguments

/-- The greatest seed. -/
def greatestSeed : Nat := UInt64.size - 1

/-- Adds a name, of which there is a greatest number. -/
def addName? (most : Nat) (s : SortedArguments) (name : String) : Option SortedArguments :=
  if s.names.length < most then some { s with names := s.names ++ [name] } else none

/-- Adds all names that are left. -/
def addNames? (most : Nat) (s : SortedArguments) : List String → Option SortedArguments
  | [] => some s
  | name :: names => (s.addName? most name).bind (addNames? most · names)

/-- Gives the seed its value, once. -/
def addSeed? (s : SortedArguments) (value : String) : Option SortedArguments :=
  match s.seed, readNatural? greatestSeed value.toList with
  | none, some seed => some { s with seed := some (UInt64.ofNat seed) }
  | _, _ => none

end SortedArguments

/-- What comes of arguments: help is asked for, or they can be sorted. -/
inductive Request where
  | help
  | sorted (arguments : SortedArguments)
deriving DecidableEq, Repr

namespace Request

/-- Sorts arguments, of which at most `most` are names, and one may be a seed if `seeded`
allows it. The value of a seed must not look like an option itself. -/
def ofArguments? (most : Nat) (seeded : Bool) : SortedArguments → List String → Option Request
  | sofar, [] => some (.sorted sofar)
  | sofar, argument :: rest =>
    match Argument.ofString argument with
    | .name name => (sofar.addName? most name).bind (ofArguments? most seeded · rest)
    | .namesOnly => (sofar.addNames? most rest).map .sorted
    | .help => some .help
    | .seed (some value) =>
      if seeded then (sofar.addSeed? value).bind (ofArguments? most seeded · rest) else none
    | .seed none =>
      match rest with
      | [] => none
      | value :: rest =>
        match Argument.ofString value with
        | .name value =>
          if seeded then (sofar.addSeed? value).bind (ofArguments? most seeded · rest) else none
        | _ => none
    | .unknown => none

end Request

namespace Command

/-- The command of sorted arguments. -/
def ofLayersArguments? (arguments : List String) : Option Command :=
  match Request.ofArguments? 1 false {} arguments with
  | some .help => some (.help .layers)
  | some (.sorted ⟨[bank], _⟩) => some (.layers bank)
  | _ => none

/-- The replay that arguments ask for. -/
def ofReplayArguments? (arguments : List String) : Option Command :=
  match Request.ofArguments? 2 true {} arguments with
  | some .help => some (.help .replay)
  | some (.sorted ⟨[bank, midi], seed⟩) => some (.replay bank midi seed)
  | _ => none

/-- The help that arguments ask for. -/
def ofHelpArguments? : List String → Option Command
  | [] => some (.help .program)
  | ["layers"] => some (.help .layers)
  | ["replay"] => some (.help .replay)
  | _ => none

/-- What the arguments of the program ask for, if they make sense. -/
def ofArguments? : List String → Option Command
  | [] => none
  | first :: rest =>
    match first with
    | "layers" => ofLayersArguments? rest
    | "replay" => ofReplayArguments? rest
    | "help" => ofHelpArguments? rest
    | "--version" => some .version
    | "--help" => some (.help .program)
    | _ =>
      match first.toList with
      | '-' :: 'V' :: _ => some .version
      | '-' :: 'h' :: _ => some (.help .program)
      | _ => none

end Command

/-! ### Runs -/

/-- Why a command could not be carried out. -/
inductive Failure where
  | layers (fault : Bank.LoadFault)
  | replay (fault : ReplayFault)
deriving DecidableEq

/-- How the program ends. -/
inductive Outcome where
  | printed (text : String)
  | failed (failure : Failure)
  /-- The arguments make no sense. -/
  | misused
deriving DecidableEq

/-- The exit code of an outcome. -/
def Outcome.exitCode : Outcome → UInt32
  | .printed _ => 0
  | .failed _ => 1
  | .misused => 2

/-- The report of a fault of a bank. -/
def Bank.Fault.report (fault : Bank.Fault) : String :=
  let reason := "reason: \"" ++ fault.reason ++ "\""
  match fault with
  | .channel _ => "InvalidBank \x7b " ++ reason ++ " \x7d"
  | .layer i _ => "Invalid \x7b layer: " ++ digitsOf i ++ ", " ++ reason ++ " \x7d"

/-- The report of a bank that could not be had. -/
def Bank.LoadFault.report : Bank.LoadFault → String
  | .unreadable => "Load"
  | .faulty fault => fault.report

/-- The report of a replay that did not take place. -/
def ReplayFault.report : ReplayFault → String
  | .bank fault => "Config(" ++ fault.report ++ ")"
  | .noMidiFile => "Io"
  | .midi _ => "Midi"

/-- The report of a failure. -/
def Failure.report : Failure → String
  | .layers fault => fault.report
  | .replay fault => fault.report

/-- The name and the version of the program. -/
def versionText : String := joinLines ["layergate 0.1.0"]

/-- The help on a topic. -/
def helpText : Topic → String
  | .program => joinLines [
      "Trigger decisions for sample playback layers.", "",
      "Usage: layergate <COMMAND>", "",
      "Commands:",
      "  layers  Lists and verifies the layers in a sound bank",
      "  replay  Replays a MIDI file through a sound bank and prints every trigger",
      "  help    Print this message or the help of the given subcommand(s)", "",
      "Options:",
      "  -h, --help     Print help",
      "  -V, --version  Print version"]
  | .layers => joinLines [
      "Lists and verifies the layers in a sound bank", "",
      "Usage: layergate layers <BANK_PATH>", "",
      "Arguments:",
      "  <BANK_PATH>  The path to the sound bank", "",
      "Options:",
      "  -h, --help  Print help"]
  | .replay => joinLines [
      "Replays a MIDI file through a sound bank and prints every trigger", "",
      "Usage: layergate replay [OPTIONS] <BANK_PATH> <MIDI_PATH>", "",
      "Arguments:",
      "  <BANK_PATH>  The path to the sound bank",
      "  <MIDI_PATH>  The path to the MIDI file", "",
      "Options:",
      "  -s, --seed <SEED>  Overrides the random seed of the bank",
      "  -h, --help         Print help"]

/-- How a command ends. `draws` serves where no seed is given. -/
def Command.run {m : Type → Type} [Monad m] (readFile : String → m (Option (List UInt8)))
    (draws : KeyStream) : Command → m Outcome
  | .version => pure (.printed versionText)
  | .help topic => pure (.printed (helpText topic))
  | .layers path => do
    match ← Bank.load readFile path with
    | .error fault => pure (.failed (.layers fault))
    | .ok bank => pure (.printed (joinLines (bank.lines path)))
  | .replay bank midi seed => do
    match ← replayFiles readFile bank midi seed draws with
    | .error fault => pure (.failed (.replay fault))
    | .ok triggers => pure (.printed (joinLines (TimedTrigger.lines triggers)))

/-- How the program ends when it is called with arguments. -/
def runArguments {m : Type → Type} [Monad m] (readFile : String → m (Option (List UInt8)))
    (draws : KeyStream) (arguments : List String) : m Outcome :=
  match Command.ofArguments? arguments with
  | some command => command.run readFile draws
  | none => pure .misused

end Voicing
