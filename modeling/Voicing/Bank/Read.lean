import Voicing.Bank.Fault
import Voicing.Yaml.Liberal
import Voicing.Yaml.Path

/-!
Reading banks.

A bank is written as a YAML document, whose keys may be paths. Fields that mean nothing
are passed over, and those left out keep their default. A text from which no bank can be
read so is *unreadable*; a bank that can be read still has to be free of faults.
-/

namespace Voicing

open Yaml (Value)
open Yaml.Value

/-- A controller range, both fields being needed. -/
def ControllerRange.ofValue? (v : Value) : Option ControllerRange := do
  let fields ← fields? ["cc", "range"] v
  let controller ← field? fields "cc" word16?
  let range ← field? fields "range" (interval? number?)
  some ⟨controller, range⟩

namespace Settings

/-- The fields of a layer in order. -/
def fieldNames : List String :=
  ["name", "key_range", "velocity_range", "random_range", "cc_conditions", "cc_triggers",
    "sequence_length", "sequence_position", "trigger", "sustain_cc", "sostenuto_cc",
    "sustain_threshold", "sostenuto_threshold", "check_sustain", "check_sostenuto",
    "poly_aftertouch_range", "bend_range", "aftertouch_range", "bpm_range",
    "velocity_override", "trigger_on_note", "trigger_on_cc", "keyswitch_range",
    "last_keyswitch", "previous_keyswitch"]

/-- The settings of a layer. Everything may be left out. -/
def ofValue? (v : Value) : Option Settings := do
  let fields ← fields? fieldNames v
  let d : Settings := {}
  let name ← fieldOr fields "name" d.name (optional? text?)
  let keys ← fieldOr fields "key_range" d.keys (interval? byte?)
  let velocities ← fieldOr fields "velocity_range" d.velocities (interval? number?)
  let draws ← fieldOr fields "random_range" d.draws (interval? number?)
  let conditions ← fieldOr fields "cc_conditions" d.conditions (list? ControllerRange.ofValue?)
  let triggers ← fieldOr fields "cc_triggers" d.triggers (list? ControllerRange.ofValue?)
  let sequenceLength ← fieldOr fields "sequence_length" d.sequenceLength word32?
  let sequencePosition ← fieldOr fields "sequence_position" d.sequencePosition word32?
  let mode ← fieldOr fields "trigger" d.mode (choice? Mode.ofName?)
  let sustainController ← fieldOr fields "sustain_cc" d.sustain.controller word16?
  let sostenutoController ← fieldOr fields "sostenuto_cc" d.sostenuto.controller word16?
  let sustainThreshold ← fieldOr fields "sustain_threshold" d.sustain.threshold number?
  let sostenutoThreshold ← fieldOr fields "sostenuto_threshold" d.sostenuto.threshold number?
  let sustainMinded ← fieldOr fields "check_sustain" d.sustain.minded boolean?
  let sostenutoMinded ← fieldOr fields "check_sostenuto" d.sostenuto.minded boolean?
  let polyAftertouches ←
    fieldOr fields "poly_aftertouch_range" d.polyAftertouches (interval? number?)
  let bends ← fieldOr fields "bend_range" d.bends (interval? number?)
  let aftertouches ← fieldOr fields "aftertouch_range" d.aftertouches (interval? number?)
  let tempi ← fieldOr fields "bpm_range" d.tempi (interval? number?)
  let velocitySource ←
    fieldOr fields "velocity_override" d.velocitySource (choice? VelocitySource.ofName?)
  let onNote ← fieldOr fields "trigger_on_note" d.onNote boolean?
  let onController? ← fieldOr fields "trigger_on_cc" d.onController? (optional? boolean?)
  let keyswitches ←
    fieldOr fields "keyswitch_range" d.keyswitches (optional? (interval? byte?))
  let keyswitch ← fieldOr fields "last_keyswitch" d.keyswitch (optional? byte?)
  let previousKey ← fieldOr fields "previous_keyswitch" d.previousKey (optional? byte?)
  some
    { name, keys, velocities, draws, conditions, triggers, sequenceLength, sequencePosition,
      mode
      sustain := ⟨sustainController, sustainThreshold, sustainMinded⟩
      sostenuto := ⟨sostenutoController, sostenutoThreshold, sostenutoMinded⟩
      polyAftertouches, bends, aftertouches, tempi, velocitySource, onNote, onController?,
      keyswitches, keyswitch, previousKey }

end Settings

namespace Bank

/-- The bank of a document, which has to be a table. -/
def ofValue? : Value → Option Bank
  | .table fields => do
    let channel ← fieldOr fields "channel" none (optional? byte?)
    let seed ← fieldOr fields "seed" none (optional? word64?)
    let layers ← fieldOr fields "layers" [] (list? Settings.ofValue?)
    some ⟨channel, seed, layers⟩
  | _ => none

/-- Why there is no bank. -/
inductive LoadFault where
  | unreadable
  | faulty (fault : Fault)
deriving DecidableEq

/-- The bank if it has no fault. -/
def check (b : Bank) : Except Fault Bank :=
  match b.fault? with
  | some fault => .error fault
  | none => .ok b

/-- The bank of a text. -/
def parse (text : String) : Except LoadFault Bank :=
  match (Value.read? text).bind fun document => ofValue? document.expand with
  | none => .error .unreadable
  | some b => b.check.mapError .faulty

end Bank

end Voicing
