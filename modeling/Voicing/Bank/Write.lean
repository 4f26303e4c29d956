import Voicing.Bank.Settings
import Voicing.Yaml.Document

/-!
Writing banks.

A bank is written as a YAML document with every field of every layer, in the order in
which a layer can also be listed.
-/

namespace Voicing

open Yaml (Document)

namespace Yaml.Document

/-- A number in the style of bank files. -/
def number (x : Single) : Document := .plain (x.render .bankFile)

def natural (n : Nat) : Document := .plain (digitsOf n)

def boolean (b : Bool) : Document := .plain (if b then "true" else "false")

/-- Null if there is nothing to write. -/
def optional {α : Type} (write : α → Document) : Option α → Document
  | none => .plain "null"
  | some a => write a

/-- The two bounds as a list. -/
def interval {α : Type} (write : α → Document) (i : Interval α) : Document :=
  .sequence [write i.low, write i.high]

def note (n : Note) : Document := natural n.toNat

def numbers (i : Interval Single) : Document := interval number i

def notes (i : Interval Note) : Document := interval note i

def controllerRange (e : ControllerRange) : Document :=
  .mapping [("cc", natural e.controller.toNat), ("range", numbers e.range)]

end Yaml.Document

open Yaml.Document

/-- A layer as a mapping of all its fields. -/
def Settings.document (s : Settings) : Document :=
  .mapping [
    ("name", optional .text s.name),
    ("key_range", notes s.keys),
    ("velocity_range", numbers s.velocities),
    ("random_range", numbers s.draws),
    ("cc_conditions", .sequence (s.conditions.map controllerRange)),
    ("cc_triggers", .sequence (s.triggers.map controllerRange)),
    ("sequence_length", natural s.sequenceLength.toNat),
    ("sequence_position", natural s.sequencePosition.toNat),
    ("trigger", .plain s.mode.name),
    ("sustain_cc", natural s.sustain.controller.toNat),
    ("sostenuto_cc", natural s.sostenuto.controller.toNat),
    ("sustain_threshold", number s.sustain.threshold),
    ("sostenuto_threshold", number s.sostenuto.threshold),
    ("check_sustain", boolean s.sustain.minded),
    ("check_sostenuto", boolean s.sostenuto.minded),
    ("poly_aftertouch_range", numbers s.polyAftertouches),
    ("bend_range", numbers s.bends),
    ("aftertouch_range", numbers s.aftertouches),
    ("bpm_range", numbers s.tempi),
    ("velocity_override", .plain s.velocitySource.name),
    ("trigger_on_note", boolean s.onNote),
    ("trigger_on_cc", optional boolean s.onController?),
    ("keyswitch_range", optional notes s.keyswitches),
    ("last_keyswitch", optional note s.keyswitch),
    ("previous_keyswitch", optional note s.previousKey)]

/-- A bank as a mapping. -/
def Bank.document (b : Bank) : Document :=
  .mapping [
    ("channel", optional (natural ·.toNat) b.channel),
    ("seed", optional (natural ·.toNat) b.seed),
    ("layers", .sequence (b.layers.map Settings.document))]

/-- The text of a bank file. -/
def Bank.render (b : Bank) : String := b.document.render

end Voicing
