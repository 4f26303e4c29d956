import Voicing.Controller
import Voicing.Binary

/-!
MIDI channel messages.

A message is a status byte, whose high half is the kind and whose low half is the
channel, and one or two data bytes below 128. `ChannelMessage.read?` takes a message off
the data bytes that follow a status.
-/

namespace Voicing.Midi

/-- A data byte: seven bits. -/
abbrev Data := Fin 128

/-- Zero is a data byte, the zero of core whichever others are in scope. -/
instance Data.neZero : @NeZero Nat Zero.ofOfNat0 128 := ⟨by decide⟩

/-- A data byte as a level between zero and one. -/
def Data.level (d : Data) : Single := Binary.ofNat d.val / 127

/-- A data byte as a note. -/
def Data.note (d : Data) : Note := UInt8.ofNat d.val

/-- What a channel can be told. -/
inductive Message where
  | noteOff (key velocity : Data)
  | noteOn (key velocity : Data)
  | polyAftertouch (key value : Data)
  | controller (number value : Data)
  | program (number : Data)
  | aftertouch (value : Data)
  /-- The bend wheel, at rest in the middle. -/
  | bend (position : Fin 16384)
deriving DecidableEq, Repr

/-- The bend of a wheel position, from minus one up to one. -/
def bendLevel (position : Fin 16384) : Single := Binary.ofInt (position.val - 8192) / 8192

/-- A message and the channel it is on, the first channel being zero. -/
structure ChannelMessage where
  channel : Fin 16
  message : Message
deriving DecidableEq, Repr

/-- Takes a data byte off a list of bytes. -/
def readData? : List UInt8 → Option (Data × List UInt8)
  | [] => none
  | b :: rest => if h : b.toNat < 128 then some (⟨b.toNat, h⟩, rest) else none

/-- The bytes `0x80` to `0xEF`, which begin channel messages. -/
def isChannelStatus (status : UInt8) : Bool := decide (0x80 ≤ status) && decide (status < 0xF0)

/-- The message of a kind, which is the high half of its status, with the bytes after
it. The kinds twelve and thirteen have one data byte and the others two. -/
def Message.read? (kind : Nat) (bytes : List UInt8) : Option (Message × List UInt8) :=
  (readData? bytes).bind fun (first, rest) =>
    match kind with
    | 12 => some (.program first, rest)
    | 13 => some (.aftertouch first, rest)
    | _ =>
      (readData? rest).bind fun (second, rest) =>
        match kind with
        | 8 => some (.noteOff first second, rest)
        | 9 => some (.noteOn first second, rest)
        | 10 => some (.polyAftertouch first second, rest)
        | 11 => some (.controller first second, rest)
        | 14 => some (.bend ⟨first.val + 128 * second.val, by omega⟩, rest)
        | _ => none

namespace ChannelMessage

/-- Takes the message of a status off the bytes after it. -/
def read? (status : UInt8) (bytes : List UInt8) : Option (ChannelMessage × List UInt8) :=
  if isChannelStatus status then
    (Message.read? (status.toNat / 16) bytes).map fun (message, rest) =>
      (⟨⟨status.toNat % 16, Nat.mod_lt _ (by decide)⟩, message⟩, rest)
  else none

/-- The message at the head of a list of bytes. What follows it is ignored. -/
def ofBytes? : List UInt8 → Option ChannelMessage
  | [] => none
  | status :: bytes => (read? status bytes).map (·.1)

end ChannelMessage

end Voicing.Midi
