import Voicing.Controller
import Voicing.Interval

/-!
Banks and the settings of their layers.

A `Bank` is a list of layers that share one instrument. The `Settings` of a layer say
which notes, velocities, draws and controller positions it answers to and which musical
context makes it sound. Settings are plain data: nothing here requires them to make
sense (`Voicing.Bank.Fault` says when they do).
-/

namespace Voicing

/-- The musical context that makes a layer sound. -/
inductive Mode where
  /-- Every note-on. -/
  | attack
  /-- A note-on while no other note is held. -/
  | first
  /-- A note-on while another note is held. -/
  | legato
  /-- Every note-off, whatever the pedals. -/
  | releaseKey
  /-- A note-off, held back while a pedal holds the note. -/
  | release
deriving DecidableEq, Repr

namespace Mode

/-- Every mode, in the order of their declaration. -/
def all : List Mode := [.attack, .first, .legato, .releaseKey, .release]

/-- The name of a mode in bank files. -/
def name : Mode → String
  | .attack => "attack"
  | .first => "first"
  | .legato => "legato"
  | .releaseKey => "release_key"
  | .release => "release"

/-- The name of a mode in reports. -/
def title : Mode → String
  | .attack => "Attack"
  | .first => "First"
  | .legato => "Legato"
  | .releaseKey => "ReleaseKey"
  | .release => "Release"

/-- The mode of a name. -/
def ofName? (s : String) : Option Mode := all.find? (·.name == s)

/-- The modes that sound on a note-off. -/
def isRelease : Mode → Bool
  | .releaseKey | .release => true
  | .attack | .first | .legato => false

end Mode

/-- The velocity that is held against a layer's velocities. -/
inductive VelocitySource where
  /-- The velocity of the event itself. -/
  | current
  /-- The velocity of the latest note-on of any note. -/
  | previous
deriving DecidableEq, Repr

namespace VelocitySource

/-- Every source, in the order of their declaration. -/
def all : List VelocitySource := [.current, .previous]

/-- The name of a source in bank files. -/
def name : VelocitySource → String
  | .current => "current"
  | .previous => "previous"

/-- The source of a name. -/
def ofName? (s : String) : Option VelocitySource := all.find? (·.name == s)

end VelocitySource

/-- The values of a controller that a layer asks for, both bounds included. -/
structure ControllerRange where
  controller : Controller
  range : Interval Single
deriving DecidableEq

/-- A pedal: the controller that moves it, the value from which on it counts as
pressed, and whether the layer minds it at all. -/
structure Pedal where
  controller : Controller
  threshold : Single
  minded : Bool
deriving DecidableEq

/-- Whether a value presses the pedal. -/
def Pedal.isPressedBy (p : Pedal) (value : Single) : Bool :=
  p.minded && decide (p.threshold ≤ value)

/-- The settings of a layer. What is left out answers to everything. -/
structure Settings where
  name : Option String := none
  /-- The notes the layer answers to. -/
  keys : Interval Note := ⟨0, 127⟩
  /-- The velocities the layer answers to. -/
  velocities : Interval Single := ⟨0, 1⟩
  /-- The slice of the random draw that is the layer's own. -/
  draws : Interval Single := ⟨0, 1⟩
  /-- Controller values that have to hold for the layer to sound. -/
  conditions : List ControllerRange := []
  /-- Controller values that make the layer sound by themselves. -/
  triggers : List ControllerRange := []
  /-- How many turns a round has. -/
  sequenceLength : UInt32 := 1
  /-- The layer's own turn in a round, the first being one. -/
  sequencePosition : UInt32 := 1
  mode : Mode := .attack
  sustain : Pedal := ⟨.sustain, 0.5, true⟩
  sostenuto : Pedal := ⟨.sostenuto, 0.5, true⟩
  /-- Accepted aftertouch of the played note. -/
  polyAftertouches : Interval Single := ⟨0, 1⟩
  bends : Interval Single := ⟨-1, 1⟩
  aftertouches : Interval Single := ⟨0, 1⟩
  /-- Accepted tempi in beats per minute. -/
  tempi : Interval Single := ⟨0, 500⟩
  velocitySource : VelocitySource := .current
  /-- Whether notes may make the layer sound. -/
  onNote : Bool := true
  /-- Whether controllers may; if left open, they may when a trigger is listed. -/
  onController? : Option Bool := none
  /-- The notes that act as key switches; if left open, any note does. -/
  keyswitches : Option (Interval Note) := none
  /-- The key switch that enables the layer. -/
  keyswitch : Option Note := none
  /-- The note that has to be played right before. -/
  previousKey : Option Note := none
deriving DecidableEq

namespace Settings

instance : Inhabited Settings := ⟨{}⟩

/-- The range of the first entry for a controller. -/
def rangeOf? (entries : List ControllerRange) (c : Controller) : Option (Interval Single) :=
  (entries.find? (·.controller == c)).map (·.range)

/-- The condition on a controller, the first one listed. -/
def condition? (s : Settings) (c : Controller) : Option (Interval Single) :=
  rangeOf? s.conditions c

/-- The trigger range of a controller, the first one listed. -/
def trigger? (s : Settings) (c : Controller) : Option (Interval Single) :=
  rangeOf? s.triggers c

/-- Whether controllers may make the layer sound. -/
def onController (s : Settings) : Bool := s.onController?.getD (!s.triggers.isEmpty)

/-- Whether the layer waits for a key switch. -/
def usesKeyswitch (s : Settings) : Bool := s.keyswitch.isSome

/-- Whether the layer asks for the note played before. -/
def usesPreviousKey (s : Settings) : Bool := s.previousKey.isSome

/-- Whether the layer takes turns. -/
def usesSequence (s : Settings) : Bool := s.sequenceLength != 1 || s.sequencePosition != 1

/-- The turns of a round; there is always at least one. -/
def roundLength (s : Settings) : Nat := max s.sequenceLength.toNat 1

end Settings

/-- A sound bank. -/
structure Bank where
  /-- The only channel to listen to, the first being one. -/
  channel : Option UInt8 := none
  /-- The seed of the random draws. -/
  seed : Option UInt64 := none
  layers : List Settings := []
deriving DecidableEq

/-! ### Numeric agreement

Two banks agree if they are equal except that numbers are compared by value: the two
zeros agree, and not-a-number agrees with nothing. -/

def ControllerRange.agrees (a b : ControllerRange) : Bool :=
  a.controller == b.controller && a.range.sameValues b.range

def Pedal.agrees (a b : Pedal) : Bool :=
  a.controller == b.controller && a.threshold.sameValue b.threshold && a.minded == b.minded

/-- Two lists agree item by item. -/
def agreeAll {α : Type} (agrees : α → α → Bool) : List α → List α → Bool
  | [], [] => true
  | a :: as, b :: bs => agrees a b && agreeAll agrees as bs
  | _, _ => false

def Settings.agrees (a b : Settings) : Bool :=
  a.name == b.name && a.keys == b.keys
    && a.velocities.sameValues b.velocities && a.draws.sameValues b.draws
    && agreeAll ControllerRange.agrees a.conditions b.conditions
    && agreeAll ControllerRange.agrees a.triggers b.triggers
    && a.sequenceLength == b.sequenceLength && a.sequencePosition == b.sequencePosition
    && a.mode == b.mode && a.sustain.agrees b.sustain && a.sostenuto.agrees b.sostenuto
    && a.polyAftertouches.sameValues b.polyAftertouches && a.bends.sameValues b.bends
    && a.aftertouches.sameValues b.aftertouches && a.tempi.sameValues b.tempi
    && a.velocitySource == b.velocitySource && a.onNote == b.onNote
    && a.onController? == b.onController? && a.keyswitches == b.keyswitches
    && a.keyswitch == b.keyswitch && a.previousKey == b.previousKey

def Bank.agrees (a b : Bank) : Bool :=
  a.channel == b.channel && a.seed == b.seed && agreeAll Settings.agrees a.layers b.layers

end Voicing
