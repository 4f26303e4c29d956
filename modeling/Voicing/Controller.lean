/-!
Notes and controllers.

A note is a byte, of which the first `noteCount` are keys of the keyboard. A controller
is a number below `controllerCount`; the first 128 are those of MIDI and some of the
others follow what is played.
-/

namespace Voicing

/-- A note number. Only numbers below `noteCount` can be played. -/
abbrev Note := UInt8

/-- A controller number. Only numbers below `controllerCount` are remembered. -/
abbrev Controller := UInt16

/-- The number of notes that can be played. -/
def noteCount : Nat := 128

/-- The number of controllers that are remembered. -/
def controllerCount : Nat := 512

/-- All notes that can be played, in ascending order. -/
def allNotes : List Note := (List.range noteCount).map UInt8.ofNat

/-- All controllers that are remembered, in ascending order. -/
def allControllers : List Controller := (List.range controllerCount).map UInt16.ofNat

namespace Controller

/-- The usual controller of the sustain pedal. -/
def sustain : Controller := 64

/-- The usual controller of the sostenuto pedal. -/
def sostenuto : Controller := 66

/-- The controller whose arrival puts all controllers to rest. -/
def resetAll : Controller := 121

/-- Follows the pitch bend, brought to `[0, 1]`. -/
def pitchBend : Controller := 128

/-- Follows the channel aftertouch. -/
def channelAftertouch : Controller := 129

/-- Follows the latest polyphonic aftertouch of any note. -/
def polyAftertouch : Controller := 130

/-- Follows the velocity of the latest note-on. -/
def noteOnVelocity : Controller := 131

/-- Follows the velocity of the latest note-off. -/
def noteOffVelocity : Controller := 132

/-- Follows the number of the latest note-on, brought to `[0, 1]`. -/
def noteNumber : Controller := 133

/-- One while any note is held, and zero otherwise. -/
def noteGate : Controller := 134

/-- Flips between zero and one on every note-on. -/
def alternate : Controller := 137

end Controller

end Voicing
