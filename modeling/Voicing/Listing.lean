import Voicing.Replay

/-!
What the program prints about banks and replays, line by line.
-/

namespace Voicing

/-- A line about each of some controller ranges. -/
def ControllerRange.lines (verb : String) (entries : List ControllerRange) : List String :=
  entries.map fun e =>
    "    " ++ verb ++ " cc " ++ digitsOf e.controller.toNat ++ " in "
      ++ e.range.render (·.render .message)

/-- The lines about the layer with a number. -/
def Settings.lines (index : Nat) (s : Settings) : List String :=
  let keys := s.keys.render (digitsOf ·.toNat)
  let velocities := s.velocities.render (·.render .message)
  let mode := s.mode.title ++ if s.mode.isRelease then ", on note-off" else ""
  ("- " ++ digitsOf index ++ ": " ++ s.name.getD "unnamed" ++ " (keys " ++ keys
      ++ ", velocity " ++ velocities ++ ", trigger " ++ mode ++ ")")
    :: (ControllerRange.lines "requires" s.conditions
      ++ ControllerRange.lines "triggers on" s.triggers)

/-- The lines about a bank that was read from `path`. -/
def Bank.lines (path : String) (b : Bank) : List String :=
  if b.layers.isEmpty then ["No layers found in " ++ path ++ "."]
  else
    ("Channel: " ++ (b.channel.map (digitsOf ·.toNat)).getD "all")
      :: ("Layers (count: " ++ digitsOf b.layers.length ++ "):")
      :: (b.layers.mapIdx Settings.lines).flatten

/-- The line about a trigger. Its value has three decimals. -/
def TimedTrigger.line (t : TimedTrigger) : String :=
  let report := t.trigger.report
  "- tick " ++ digitsOf t.tick ++ ": layer " ++ digitsOf t.trigger.layer ++ " "
    ++ report.kind.name ++ " " ++ digitsOf report.number.toNat ++ " ("
    ++ report.value.fixed 3 ++ ")"

/-- The lines about a replay. -/
def TimedTrigger.lines (triggers : List TimedTrigger) : List String :=
  if triggers.isEmpty then ["No triggers."]
  else ("Triggers (count: " ++ digitsOf triggers.length ++ "):") :: triggers.map (·.line)

/-- A text of lines, each of them ended. -/
def joinLines (lines : List String) : String := String.join (lines.map (· ++ "\n"))

end Voicing
