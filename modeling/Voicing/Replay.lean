import Voicing.Bank.File
import Voicing.Engine
import Voicing.Midi.File

/-!
Replaying a MIDI file.

The tracks of a file become one timeline of events at absolute ticks: sequential tracks
follow each other, all others begin together and are merged in the order of their ticks,
where events at one tick stay in the order of their tracks. The engine is fed the
timeline, and each trigger gets the tick of the event it answers. `replayFiles` does all
of it for a bank and a MIDI file given by their names.
-/

namespace Voicing

namespace Midi

/-- An event at an absolute tick. -/
structure Scheduled where
  tick : Nat
  event : TrackEvent
deriving DecidableEq, Repr

/-- The events of a track at their ticks, when the track begins at `tick`. -/
def schedule (tick : Nat) : List Timed → List Scheduled
  | [] => []
  | t :: ts => ⟨tick + t.delta, t.event⟩ :: schedule (tick + t.delta) ts

/-- The ticks that a track takes. -/
def duration (track : List Timed) : Nat := track.foldr (fun t ticks => t.delta + ticks) 0

/-- Tracks one after the other, the first beginning at `tick`. -/
def scheduleAll (tick : Nat) : List (List Timed) → List Scheduled
  | [] => []
  | track :: tracks => schedule tick track ++ scheduleAll (tick + duration track) tracks

/-- The timeline of a file. -/
def File.timeline (f : File) : List Scheduled :=
  let events :=
    match f.arrangement with
    | .sequential => scheduleAll 0 f.tracks
    | .single | .parallel => f.tracks.flatMap (schedule 0)
  events.mergeSort fun a b => decide (a.tick ≤ b.tick)

end Midi

/-- A trigger and the tick of the event it answers. -/
structure TimedTrigger where
  tick : Nat
  trigger : Trigger
deriving DecidableEq

namespace Engine

/-- The seconds of a quarter note that lasts so many microseconds. -/
def quarterSeconds (micros : Nat) : Single := Binary.ofNat micros / 1000000

/-- An event of a track. -/
def trackEvent (e : Engine) : Midi.TrackEvent → Engine × List Trigger
  | .message m => e.message m
  | .tempo micros => e.tempo (quarterSeconds micros)
  | .other => (e, [])

/-- The engine after a timeline, and the triggers at their ticks. -/
def replayTimeline (e : Engine) : List Midi.Scheduled → Engine × List TimedTrigger
  | [] => (e, [])
  | s :: rest =>
    let (e, triggers) := e.trackEvent s.event
    let (e, others) := e.replayTimeline rest
    (e, triggers.map (TimedTrigger.mk s.tick) ++ others)

/-- The engine after a file, and the triggers at their ticks. -/
def replay (e : Engine) (f : Midi.File) : Engine × List TimedTrigger :=
  e.replayTimeline f.timeline

/-- The engine after the file in a list of bytes. Where there is no file nothing happens
to the engine. -/
def replayBytes (e : Engine) (bytes : Midi.Bytes) :
    Engine × Except Midi.FileFault (List TimedTrigger) :=
  match Midi.File.read bytes with
  | .error fault => (e, .error fault)
  | .ok file =>
    let (e, triggers) := e.replay file
    (e, .ok triggers)

end Engine

/-! ### Files -/

/-- Why a replay did not take place. -/
inductive ReplayFault where
  | bank (fault : Bank.LoadFault)
  | noMidiFile
  | midi (fault : Midi.FileFault)
deriving DecidableEq

/-- The bank with its seed replaced, if there is another. -/
def Bank.reseed (b : Bank) (seed : Option UInt64) : Bank :=
  { b with seed := seed.or b.seed }

/-- The triggers of a MIDI file under a bank. The bank is read first, and only a bank
without faults lets the MIDI file be read. A seed that is given stands in for the bank's
own; without either the draws come from `draws`. -/
def replayFiles {m : Type → Type} [Monad m] (readFile : String → m (Option (List UInt8)))
    (bankPath midiPath : String) (seed : Option UInt64) (draws : KeyStream) :
    m (Except ReplayFault (List TimedTrigger)) := do
  match ← Bank.load readFile bankPath with
  | .error fault => pure (.error (.bank fault))
  | .ok bank =>
    match ← readFile midiPath with
    | none => pure (.error .noMidiFile)
    | some bytes =>
      let engine := Engine.ofBank (bank.reseed seed) draws
      pure ((engine.replayBytes bytes).2.mapError .midi)

end Voicing
