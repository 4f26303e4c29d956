import Voicing.Command

/-!
The program: reads files, prints what a run of the arguments comes to, and exits.
-/

namespace Voicing

/-- The contents of a file, if it can be read. -/
def readFile (path : String) : IO (Option (List UInt8)) := do
  try
    let bytes ← IO.FS.readBinFile path
    pure (some bytes.toList)
  catch _ => pure none

/-- A stream of draws that differs from run to run. -/
def freshDraws : IO KeyStream := do
  let bytes ← IO.getRandomBytes 8
  pure (.ofSeed (bytes.toList.foldl (fun seed b => seed * 256 + b.toUInt64) 0))

end Voicing

open Voicing in
/-- Runs the program. -/
def main (arguments : List String) : IO UInt32 := do
  let outcome ← runArguments readFile (← freshDraws) arguments
  match outcome with
  | .printed text => IO.print text
  | .failed failure => IO.eprintln ("Error: " ++ failure.report)
  | .misused => IO.eprint (helpText .program)
  pure outcome.exitCode
