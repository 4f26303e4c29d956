import Voicing.Bank.Settings
import Voicing.Layer.Gates
import Voicing.Layer.Held
import Voicing.Memory

/-!
The decisions of one layer.

A `Layer` is its settings, its gates, the turns it has counted, the positions of its two
pedals and the releases they hold back. Each kind of event moves the gate of that kind;
notes and controllers also ask whether the layer sounds. It does if the event
*qualifies*, which takes a turn, and all gates are open afterwards.

`Layer.Event` lists what a layer can be told and `Layer.step` says what comes of it.
-/

namespace Voicing

/-- A layer at work. -/
structure Layer where
  settings : Settings
  gates : Gates
  /-- How many turns have been taken, by this layer or its neighbours in the round. -/
  turns : UInt64
  sustainDown : Bool
  sostenutoDown : Bool
  /-- The releases that wait for the sustain pedal. -/
  sustained : HeldReleases
  /-- The notes that the sostenuto pedal caught. -/
  caught : HeldReleases
deriving DecidableEq

namespace Layer

/-- A layer before any event. Only the gates that wait for a note or a turn are closed. -/
def initial (s : Settings) : Layer where
  settings := s
  gates :=
    { key := !s.usesKeyswitch
      previousKey := !s.usesPreviousKey
      sequence := !s.usesSequence
      bend := true
      tempo := true
      aftertouch := true
      controllers := .allOpen }
  turns := 0
  sustainDown := false
  sostenutoDown := false
  sustained := .empty
  caught := .empty

/-- Whether the layer can sound. -/
def isReady (l : Layer) : Bool := l.gates.areOpen

/-! ### Conditions on notes and draws -/

/-- The note and the velocity are the layer's, all bounds included. -/
def acceptsNote (l : Layer) (n : Note) (v : Single) : Bool :=
  l.settings.keys.includes n && l.settings.velocities.includes v

/-- The draw is in the layer's slice. Draws are below one, so a slice that ends at one
or later also owns everything from one on. -/
def acceptsDraw (l : Layer) (r : Single) : Bool :=
  let slice := l.settings.draws
  slice.contains r || (decide (1 ≤ r) && slice.isOrdered && decide (1 ≤ slice.high))

/-- The velocity that is held against the layer's velocities. -/
def heardVelocity (l : Layer) (m : Memory) (v : Single) : Single :=
  match l.settings.velocitySource with
  | .current => v
  | .previous => m.lastVelocity

/-- What note-on and note-off both require. -/
def admits (l : Layer) (m : Memory) (n : Note) (v r : Single) : Bool :=
  l.settings.onNote && l.acceptsNote n (l.heardVelocity m v) && l.acceptsDraw r
    && l.settings.polyAftertouches.includes (m.polyAftertouch n)

/-! ### Taking turns -/

/-- Whether the next turn is the layer's own. -/
def isOwnTurn (l : Layer) : Bool :=
  l.turns.toNat % l.settings.roundLength + 1 == l.settings.sequencePosition.toNat

/-- Counts a turn and opens the sequence gate if it was the layer's own. -/
def takeTurn (l : Layer) : Layer :=
  { l with gates := { l.gates with sequence := l.isOwnTurn }, turns := l.turns + 1 }

/-- What comes of a qualifying event: a turn is taken, and the layer sounds if it is
ready then. -/
def sound (l : Layer) : Layer × Bool := (l.takeTurn, l.takeTurn.isReady)

/-! ### Notes -/

/-- A note-on moves the key gates. `previous` is the note-on before it. -/
def switchKeys (l : Layer) (n : Note) (previous : Option Note) : Layer :=
  let previousKey := match l.settings.previousKey with
    | some wanted => previous == some wanted
    | none => l.gates.previousKey
  let key := match l.settings.keyswitch with
    | some wanted =>
      if (l.settings.keyswitches.map (·.includes n)).getD true then n == wanted
      else l.gates.key
    | none => l.gates.key
  { l with gates := { l.gates with key := key, previousKey := previousKey } }

/-- The mode asks for the note-on that has just been remembered. -/
def modeAsks (l : Layer) (m : Memory) : Bool :=
  match l.settings.mode with
  | .attack => true
  | .first => m.held == 1
  | .legato => decide (1 < m.held)
  | .releaseKey | .release => false

/-- Whether a note-on makes the layer sound. -/
def noteOn (l : Layer) (m : Memory) (n : Note) (v r : Single) : Layer × Bool :=
  if l.admits m n v r && l.modeAsks m then l.sound else (l, false)

/-- The sostenuto pedal holds the note. -/
def isCaught (l : Layer) (n : Note) : Bool := l.caught.holds n && l.sostenutoDown

/-- A release under the pedals: a caught note stays silent, a note under the sustain
pedal is put aside with the velocity it was struck with. -/
def releaseUnderPedals (l : Layer) (m : Memory) (n : Note) : Layer × Bool :=
  if l.isCaught n then (l, false)
  else
    let l := if l.caught.holds n then { l with caught := l.caught.remove n } else l
    if l.sustainDown then
      ({ l with sustained := l.sustained.push ⟨n, m.velocity n⟩ }, false)
    else l.sound

/-- Whether a note-off makes the layer sound. -/
def noteOff (l : Layer) (m : Memory) (n : Note) (v r : Single) : Layer × Bool :=
  if l.admits m n v r then
    match l.settings.mode with
    | .releaseKey => l.sound
    | .release => l.releaseUnderPedals m n
    | .attack | .first | .legato => (l, false)
  else (l, false)

/-! ### Controllers -/

/-- The layer's notes that are pressed, in ascending order. -/
def pressedKeys (l : Layer) (m : Memory) : List Note :=
  allNotes.filter fun n => l.settings.keys.includes n && m.isPressed n

/-- Adds the pressed notes to those the sostenuto pedal caught. -/
def catchNotes (l : Layer) (m : Memory) : HeldReleases :=
  (l.pressedKeys m).foldl (fun held n => held.push ⟨n, m.velocity n⟩) l.caught

/-- The sustain pedal follows its controller. -/
def moveSustain (l : Layer) (c : Controller) (v : Single) : Layer :=
  if c = l.settings.sustain.controller then
    { l with sustainDown := l.settings.sustain.isPressedBy v }
  else l

/-- The sostenuto pedal follows its controller. Going down it catches the pressed notes,
coming up it lets go of what it caught without a sound. -/
def moveSostenuto (l : Layer) (m : Memory) (c : Controller) (v : Single) : Layer :=
  if c = l.settings.sostenuto.controller then
    let down := l.settings.sostenuto.isPressedBy v
    { l with
      sostenutoDown := down
      caught :=
        if down && !l.sostenutoDown then l.catchNotes m
        else if !down && l.sostenutoDown then .empty
        else l.caught }
  else l

/-- Whether a value meets the condition on its controller. -/
def meetsCondition (l : Layer) (c : Controller) (v : Single) : Bool :=
  ((l.settings.condition? c).map (·.includes v)).getD true

/-- The gate of a controller follows its value. -/
def moveGate (l : Layer) (c : Controller) (v : Single) : Layer :=
  { l with gates := { l.gates with
      controllers := l.gates.controllers.set c (l.meetsCondition c v) } }

/-- Whether a controller value is one that makes the layer sound by itself. -/
def isTrigger (l : Layer) (c : Controller) (v : Single) : Bool :=
  l.settings.onController && ((l.settings.trigger? c).map (·.includes v)).getD false

/-- A controller moves pedals and gate; whether it makes the layer sound. -/
def controller (l : Layer) (m : Memory) (c : Controller) (v : Single) : Layer × Bool :=
  let moved := ((l.moveSustain c v).moveSostenuto m c v).moveGate c v
  if moved.isTrigger c v then moved.sound else (moved, false)

/-! ### Bend, aftertouch and tempo -/

/-- The bend gate follows the bend. -/
def setBend (l : Layer) (v : Single) : Layer :=
  { l with gates := { l.gates with bend := l.settings.bends.includes v } }

/-- The aftertouch gate follows the channel aftertouch. -/
def setAftertouch (l : Layer) (v : Single) : Layer :=
  { l with gates := { l.gates with aftertouch := l.settings.aftertouches.includes v } }

/-- The tempo gate follows the beats per minute of a beat that lasts `seconds`. -/
def setTempo (l : Layer) (seconds : Single) : Layer :=
  { l with gates := { l.gates with tempo := l.settings.tempi.includes (60 / seconds) } }

/-- The layer without the releases that waited for the sustain pedal. -/
def dropSustained (l : Layer) : Layer := { l with sustained := .empty }

/-! ### Events -/

/-- What a layer can be told. Notes and controllers come with the memory in which they
are already recorded, notes also with a draw. -/
inductive Event where
  | switchKeys (note : Note) (previous : Option Note)
  | noteOn (memory : Memory) (note : Note) (velocity draw : Single)
  | noteOff (memory : Memory) (note : Note) (velocity draw : Single)
  | controller (memory : Memory) (number : Controller) (value : Single)
  | bend (value : Single)
  | aftertouch (value : Single)
  | tempo (seconds : Single)
  | dropSustained

/-- The layer after an event, and whether the event makes it sound. -/
def step (l : Layer) : Event → Layer × Bool
  | .switchKeys n previous => (l.switchKeys n previous, false)
  | .noteOn m n v r => l.noteOn m n v r
  | .noteOff m n v r => l.noteOff m n v r
  | .controller m c v => l.controller m c v
  | .bend v => (l.setBend v, false)
  | .aftertouch v => (l.setAftertouch v, false)
  | .tempo s => (l.setTempo s, false)
  | .dropSustained => (l.dropSustained, false)

/-- The layer after a run of events, in order. -/
def run (l : Layer) (events : List Event) : Layer := events.foldl (fun l e => (l.step e).1) l

end Layer

end Voicing
