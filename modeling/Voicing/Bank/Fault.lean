import Voicing.Bank.Settings

/-!
What can be wrong with a bank.

A `Settings.Fault` is a rule that the settings of a layer break, and `Settings.faults`
lists the broken rules in the order in which they are looked at. `Bank.fault?` is the
first fault of a bank: its channel, or else the first fault of the first faulty layer.
-/

namespace Voicing

/-- The number ranges of a layer whose bounds have to be in order. -/
inductive RangeField where
  | velocities
  | draws
  | polyAftertouches
  | bends
  | aftertouches
  | tempi
deriving DecidableEq, Repr

namespace RangeField

/-- Every range field, in the order of their inspection. -/
def all : List RangeField :=
  [.velocities, .draws, .polyAftertouches, .bends, .aftertouches, .tempi]

/-- The name of a field in bank files and messages. -/
def name : RangeField → String
  | .velocities => "velocity_range"
  | .draws => "random_range"
  | .polyAftertouches => "poly_aftertouch_range"
  | .bends => "bend_range"
  | .aftertouches => "aftertouch_range"
  | .tempi => "bpm_range"

/-- The range in a layer's settings. -/
def get (s : Settings) : RangeField → Interval Single
  | .velocities => s.velocities
  | .draws => s.draws
  | .polyAftertouches => s.polyAftertouches
  | .bends => s.bends
  | .aftertouches => s.aftertouches
  | .tempi => s.tempi

end RangeField

/-- The two pedals. -/
inductive PedalKind where
  | sustain
  | sostenuto
deriving DecidableEq, Repr

namespace PedalKind

def all : List PedalKind := [.sustain, .sostenuto]

def name : PedalKind → String
  | .sustain => "sustain"
  | .sostenuto => "sostenuto"

def get (s : Settings) : PedalKind → Pedal
  | .sustain => s.sustain
  | .sostenuto => s.sostenuto

end PedalKind

/-- The two notes that can open a key gate. -/
inductive SwitchKind where
  | keyswitch
  | previousKey
deriving DecidableEq, Repr

namespace SwitchKind

def all : List SwitchKind := [.keyswitch, .previousKey]

def name : SwitchKind → String
  | .keyswitch => "last_keyswitch"
  | .previousKey => "previous_keyswitch"

def get (s : Settings) : SwitchKind → Option Note
  | .keyswitch => s.keyswitch
  | .previousKey => s.previousKey

end SwitchKind

namespace Settings

/-- A rule that the settings of a layer break. -/
inductive Fault where
  /-- A round without a turn. -/
  | sequenceLength
  /-- A turn before the first. -/
  | sequencePosition
  /-- Keys that are out of order or beyond the keyboard. -/
  | keys (keys : Interval Note)
  /-- A range with its bounds out of order. -/
  | inverted (field : RangeField) (range : Interval Single)
  /-- A pedal threshold outside the controller values. -/
  | threshold (pedal : PedalKind) (value : Single)
  /-- A condition or trigger on a controller that is not remembered. -/
  | controller (number : Controller)
  /-- A condition or trigger with its bounds out of order. -/
  | controllerRange (entry : ControllerRange)
  /-- Key switches that are out of order or beyond the keyboard. -/
  | keyswitches (keys : Interval Note)
  /-- A switch that is no playable note. -/
  | switch (kind : SwitchKind)
deriving DecidableEq

namespace Fault

/-- The wording of a fault. -/
def message : Fault → String
  | .sequenceLength => "sequence_length must be at least 1"
  | .sequencePosition => "sequence_position must be at least 1"
  | .keys i => "key_range " ++ i.render (digitsOf ·.toNat) ++ " is invalid"
  | .inverted field i => field.name ++ " " ++ i.render (·.render .message) ++ " is inverted"
  | .threshold pedal x =>
    pedal.name ++ "_threshold " ++ x.render .message ++ " is outside [0, 1]"
  | .controller c =>
    "controller " ++ digitsOf c.toNat ++ " is beyond the supported "
      ++ digitsOf controllerCount ++ " controllers"
  | .controllerRange e =>
    "range " ++ e.range.render (·.render .message) ++ " for controller "
      ++ digitsOf e.controller.toNat ++ " is inverted"
  | .keyswitches i => "keyswitch_range " ++ i.render (digitsOf ·.toNat) ++ " is invalid"
  | .switch kind => kind.name ++ " must be a MIDI note"

end Fault

/-- A range of playable notes with its bounds in order. -/
def isKeyRange (i : Interval Note) : Bool := i.isOrdered && decide (i.high.toNat < noteCount)

/-- The fault of a condition or trigger, if any. -/
def entryFault? (e : ControllerRange) : Option Fault :=
  if controllerCount ≤ e.controller.toNat then some (.controller e.controller)
  else if e.range.isOrdered then none
  else some (.controllerRange e)

/-- The broken rules, in the order of their inspection. -/
def faults (s : Settings) : List Fault :=
  (if s.sequenceLength < 1 then [.sequenceLength] else [])
    ++ (if s.sequencePosition < 1 then [.sequencePosition] else [])
    ++ (if isKeyRange s.keys then [] else [.keys s.keys])
    ++ (RangeField.all.filter fun field => !(field.get s).isOrdered).map
        (fun field => .inverted field (field.get s))
    ++ (PedalKind.all.filter fun kind =>
          !(Interval.mk 0 1).includes (kind.get s).threshold).map
        (fun kind => .threshold kind (kind.get s).threshold)
    ++ (s.conditions ++ s.triggers).filterMap entryFault?
    ++ (s.keyswitches.toList.filter (!isKeyRange ·)).map .keyswitches
    ++ (SwitchKind.all.filter fun kind =>
          (kind.get s).any fun note => decide (noteCount ≤ note.toNat)).map .switch

/-- The first broken rule. -/
def fault? (s : Settings) : Option Fault := s.faults.head?

end Settings

namespace Bank

/-- What is wrong with a bank. -/
inductive Fault where
  | channel (number : UInt8)
  | layer (index : Nat) (fault : Settings.Fault)
deriving DecidableEq

namespace Fault

/-- What is wrong, without saying where. -/
def reason : Fault → String
  | .channel c => "channel " ++ digitsOf c.toNat ++ " is outside 1-16"
  | .layer _ fault => fault.message

/-- The whole message. -/
def message : Fault → String
  | fault@(.channel _) => "Invalid sound bank: " ++ fault.reason
  | fault@(.layer i _) => "Invalid layer " ++ digitsOf i ++ ": " ++ fault.reason

end Fault

/-- The first fault in a list of layers, the first of which has the number `i`. -/
def layerFault? : Nat → List Settings → Option Fault
  | _, [] => none
  | i, s :: ss =>
    match s.fault? with
    | some fault => some (.layer i fault)
    | none => layerFault? (i + 1) ss

/-- The first fault of a bank. -/
def fault? (b : Bank) : Option Fault :=
  match b.channel.filter fun c => !(decide (1 ≤ c) && decide (c ≤ 16)) with
  | some c => some (.channel c)
  | none => layerFault? 0 b.layers

end Bank

end Voicing
