import Voicing.KeyStream
import Voicing.Layer.State
import Voicing.Midi.Message

/-!
All layers of a bank at work.

An `Engine` is one memory, the layers that read it, and the stream of draws. An event is
remembered first and then offered to each layer in turn. Every note-on, note-off and
controller takes one draw, which all layers share; releases that a lifted sustain pedal
lets go are decided again, each with a draw of its own.

`Engine.Event` lists what can happen and `Engine.step` answers with the engine afterwards
and the triggers, in the order in which they sound.
-/

namespace Voicing

/-- The kind of event that made a layer sound. -/
inductive TriggerKind where
  | attack
  | release
  | controller
deriving DecidableEq, Repr

/-- The word for a kind in reports. -/
def TriggerKind.name : TriggerKind → String
  | .attack => "attack"
  | .release => "release"
  | .controller => "cc"

/-- What made a layer sound: the note and velocity, or the controller and value. -/
structure Report where
  kind : TriggerKind
  number : UInt16
  value : Single
deriving DecidableEq

/-- A layer, by its place in the bank, sounds. -/
structure Trigger where
  layer : Nat
  report : Report
deriving DecidableEq

/-! ### One layer's answer -/

/-- What a layer makes of an event: the layer afterwards, the stream after the draws it
took, and its reports. -/
structure Answer where
  layer : Layer
  draws : KeyStream
  reports : List Report

namespace Layer

/-- A report if the layer sounds. -/
def reportIf (kind : TriggerKind) (number : UInt16) (value : Single) (sounds : Bool) :
    List Report :=
  if sounds then [⟨kind, number, value⟩] else []

/-- The answer of a layer that does nothing but change. -/
def silently (l : Layer) (draws : KeyStream) : Answer := ⟨l, draws, []⟩

/-- Decides releases again, each with a fresh draw. -/
def redecide (m : Memory) : List Release → KeyStream → Layer → Answer
  | [], draws, l => ⟨l, draws, []⟩
  | r :: rs, draws, l =>
    let (l, sounds) := l.noteOff m r.note r.velocity draws.draw
    let rest := redecide m rs draws.next l
    ⟨rest.layer, rest.draws,
      reportIf .release r.note.toUInt16 r.velocity sounds ++ rest.reports⟩

/-- If the sustain pedal was lifted, decides again what it held back. -/
def releaseLifted (m : Memory) (wasDown : Bool) (draws : KeyStream) (l : Layer) : Answer :=
  if wasDown && !l.sustainDown then redecide m l.sustained.toList draws l.dropSustained
  else l.silently draws

/-- A controller: the layer's own trigger, then what a lifted pedal lets go. -/
def answerController (m : Memory) (c : Controller) (v : Single) (draws : KeyStream)
    (l : Layer) : Answer :=
  let (moved, sounds) := l.controller m c v
  let lifted := moved.releaseLifted m l.sustainDown draws
  { lifted with reports := reportIf .controller c v sounds ++ lifted.reports }

/-- The layer told that the bend, the aftertouch and every controller are at zero.
Whether a controller at zero would make it sound is not reported. -/
def rest (m : Memory) (l : Layer) : Layer :=
  allControllers.foldl (fun l c => (l.controller m c 0).1) ((l.setBend 0).setAftertouch 0)

/-- All controllers go to rest; only what a lifted pedal lets go can sound. -/
def answerReset (m : Memory) (draws : KeyStream) (l : Layer) : Answer :=
  (l.rest m).releaseLifted m l.sustainDown draws

end Layer

/-! ### All layers -/

/-- What all layers together make of an event. -/
structure Round where
  layers : List Layer
  draws : KeyStream
  triggers : List Trigger

/-- Offers an event to a list of layers, the first of which has the number `i`; each
takes its draws where the one before it left off. -/
def offer (answer : KeyStream → Layer → Answer) : Nat → KeyStream → List Layer → Round
  | _, draws, [] => ⟨[], draws, []⟩
  | i, draws, l :: ls =>
    let own := answer draws l
    let others := offer answer (i + 1) own.draws ls
    ⟨own.layer :: others.layers, others.draws, own.reports.map (Trigger.mk i) ++ others.triggers⟩

/-- The layers of a bank and what they share. -/
structure Engine where
  memory : Memory
  layers : List Layer
  /-- The only channel that is listened to, the first being zero. -/
  channel : Option UInt8
  draws : KeyStream
deriving DecidableEq

namespace Engine

/-- The engine of a bank before any event. Its draws come from the bank's seed, or else
from the stream it is given. -/
def ofBank (b : Bank) (draws : KeyStream) : Engine where
  memory := .initial
  layers := b.layers.map .initial
  channel := b.channel.map fun c => if c = 0 then 0 else c - 1
  draws := (b.seed.map KeyStream.ofSeed).getD draws

/-- Offers an event to all layers. -/
def offerAll (e : Engine) (answer : KeyStream → Layer → Answer) : Engine × List Trigger :=
  let round := offer answer 0 e.draws e.layers
  ({ e with layers := round.layers, draws := round.draws }, round.triggers)

/-- Remembers an event. -/
def remember (e : Engine) (event : Memory.Event) : Engine :=
  { e with memory := e.memory.apply event }

/-- Leaves the next draw behind. -/
def passDraw (e : Engine) : Engine := { e with draws := e.draws.next }

def noteOn (e : Engine) (n : Note) (v : Single) : Engine × List Trigger :=
  let previous := e.memory.lastNote
  let draw := e.draws.draw
  let e := (e.remember (.noteOn n v)).passDraw
  e.offerAll fun draws l =>
    let (l, sounds) := (l.switchKeys n previous).noteOn e.memory n v draw
    ⟨l, draws, Layer.reportIf .attack n.toUInt16 v sounds⟩

def noteOff (e : Engine) (n : Note) (v : Single) : Engine × List Trigger :=
  let draw := e.draws.draw
  let e := (e.remember (.noteOff n v)).passDraw
  e.offerAll fun draws l =>
    let (l, sounds) := l.noteOff e.memory n v draw
    ⟨l, draws, Layer.reportIf .release n.toUInt16 v sounds⟩

/-- All controllers go to rest, and the layers hear of it. -/
def restControllers (e : Engine) : Engine × List Trigger :=
  let e := e.remember .resetControllers
  e.offerAll (Layer.answerReset e.memory)

/-- A controller arrives. -/
def hearController (e : Engine) (c : Controller) (v : Single) : Engine × List Trigger :=
  let e := (e.remember (.controller c v)).passDraw
  e.offerAll (Layer.answerController e.memory c v)

/-- A controller; the one that resets all others does so before it counts itself. -/
def controller (e : Engine) (c : Controller) (v : Single) : Engine × List Trigger :=
  if c = .resetAll then
    let (rested, lifted) := e.restControllers
    let (after, own) := rested.hearController c v
    (after, lifted ++ own)
  else e.hearController c v

def bend (e : Engine) (v : Single) : Engine × List Trigger :=
  (e.remember (.bend v)).offerAll fun draws l => (l.setBend v).silently draws

def aftertouch (e : Engine) (v : Single) : Engine × List Trigger :=
  (e.remember (.aftertouch v)).offerAll fun draws l => (l.setAftertouch v).silently draws

/-- Polyphonic aftertouch is only remembered; the next decision on the note reads it. -/
def polyAftertouch (e : Engine) (n : Note) (v : Single) : Engine × List Trigger :=
  (e.remember (.polyAftertouch n v), [])

def tempo (e : Engine) (seconds : Single) : Engine × List Trigger :=
  e.offerAll fun draws l => (l.setTempo seconds).silently draws

/-- All controllers go to rest; what a lifted pedal lets go is decided but not reported. -/
def resetControllers (e : Engine) : Engine × List Trigger := (e.restControllers.1, [])

/-- Everything but the stream of draws starts over. -/
def reset (e : Engine) : Engine × List Trigger :=
  ({ e with memory := .initial, layers := e.layers.map fun l => .initial l.settings }, [])

/-- Whether messages on a channel are listened to. -/
def hears (e : Engine) (channel : Fin 16) : Bool :=
  e.channel.all fun c => c.toNat == channel.val

/-- A message on a channel. A note-on without velocity is a note-off. -/
def message (e : Engine) (m : Midi.ChannelMessage) : Engine × List Trigger :=
  if e.hears m.channel then
    match m.message with
    | .noteOn key velocity =>
      if velocity = 0 then e.noteOff key.note 0 else e.noteOn key.note velocity.level
    | .noteOff key velocity => e.noteOff key.note velocity.level
    | .controller number value => e.controller (UInt16.ofNat number.val) value.level
    | .bend position => e.bend (Midi.bendLevel position)
    | .aftertouch value => e.aftertouch value.level
    | .polyAftertouch key value => e.polyAftertouch key.note value.level
    | .program _ => (e, [])
  else (e, [])

/-- A raw message. What is no channel message is ignored. -/
def rawMessage (e : Engine) (bytes : List UInt8) : Engine × List Trigger :=
  match Midi.ChannelMessage.ofBytes? bytes with
  | some m => e.message m
  | none => (e, [])

/-- What can happen to an engine. -/
inductive Event where
  | noteOn (note : Note) (velocity : Single)
  | noteOff (note : Note) (velocity : Single)
  | controller (number : Controller) (value : Single)
  | bend (value : Single)
  | aftertouch (value : Single)
  | polyAftertouch (note : Note) (value : Single)
  | tempo (seconds : Single)
  | resetControllers
  | reset
  | message (message : Midi.ChannelMessage)
  | rawMessage (bytes : List UInt8)
deriving DecidableEq

/-- The engine after an event, and the triggers. -/
def step (e : Engine) : Event → Engine × List Trigger
  | .noteOn n v => e.noteOn n v
  | .noteOff n v => e.noteOff n v
  | .controller c v => e.controller c v
  | .bend v => e.bend v
  | .aftertouch v => e.aftertouch v
  | .polyAftertouch n v => e.polyAftertouch n v
  | .tempo s => e.tempo s
  | .resetControllers => e.resetControllers
  | .reset => e.reset
  | .message m => e.message m
  | .rawMessage bytes => e.rawMessage bytes

/-- The engine after a run of events, and the triggers of each event. -/
def run (e : Engine) : List Event → Engine × List (List Trigger)
  | [] => (e, [])
  | event :: events =>
    let (e, triggers) := e.step event
    let (e, others) := e.run events
    (e, triggers :: others)

end Engine

end Voicing
