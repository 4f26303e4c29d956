import Voicing.Midi.Message

/-!
MIDI files.

A file is a list of chunks: a header, which says how the tracks belong together, and the
tracks, which are lists of events, each with the ticks since the event before. The file
may be wrapped in a container of its own. `File.read` tells a file from the few ways in
which there is none; damage further on only cuts things short. A chunk longer than the
file ends with it, a chunk that cannot be read ends the file, and an event that cannot
be read ends its track.
-/

namespace Voicing.Midi

/-- How the tracks of a file belong together. -/
inductive Arrangement where
  | single
  | parallel
  | sequential
deriving DecidableEq, Repr

/-- What a track holds. -/
inductive TrackEvent where
  | message (message : ChannelMessage)
  /-- Microseconds per quarter note. -/
  | tempo (micros : Nat)
  /-- Anything that only takes its time. -/
  | other
deriving DecidableEq, Repr

/-- An event and the ticks since the event before it. -/
structure Timed where
  delta : Nat
  event : TrackEvent
deriving DecidableEq, Repr

/-- The tracks of a file. -/
structure File where
  arrangement : Arrangement
  tracks : List (List Timed)
deriving DecidableEq, Repr

/-- Why there is no file. -/
inductive FileFault where
  | notMidi
  | noContainer
  | noContainerKind
  | otherContainer
  | noData
  | noHeader
  | badHeader
  | trackFirst
deriving DecidableEq, Repr

/-- The wording of a fault. -/
def FileFault.message (fault : FileFault) : String :=
  "Unable to parse MIDI file: invalid midi: " ++
    match fault with
    | .notMidi => "not a midi file"
    | .noContainer => "no main riff chunk"
    | .noContainerKind => "failed to read riff formtype"
    | .otherContainer => "not an rmid riff file"
    | .noData => "no rmid data chunk"
    | .noHeader => "no midi header chunk"
    | .badHeader => "invalid midi header"
    | .trackFirst => "expected header, found track"

/-! ### Bytes -/

abbrev Bytes := List UInt8

/-- A number with the most significant byte first. -/
def bigEndian (bytes : Bytes) : Nat := bytes.foldl (fun n b => n * 256 + b.toNat) 0

/-- The bytes of an ASCII text. -/
def ascii (s : String) : Bytes := s.toList.map fun c => UInt8.ofNat c.toNat

/-- Takes a number of up to `most` bytes off, seven bits in each, the last of them being
the first below 128. The end of the bytes ends the number as well. -/
def readVariable : Nat → Nat → Bytes → Nat × Bytes
  | 0, sofar, bytes => (sofar, bytes)
  | _ + 1, sofar, [] => (sofar, [])
  | most + 1, sofar, b :: rest =>
    let sofar := sofar * 128 + b.toNat % 128
    if b < 0x80 then (sofar, rest) else readVariable most sofar rest

/-- Takes off a number of at most four bytes. -/
def readLength (bytes : Bytes) : Nat × Bytes := readVariable 4 0 bytes

/-- Takes off as many bytes as a length in front says, or all there are. -/
def readCounted (bytes : Bytes) : Bytes × Bytes :=
  let (n, rest) := readLength bytes
  (rest.take n, rest.drop n)

/-! ### Tracks -/

/-- The frames of a second by their code. -/
def framesPerSecond : Nat → Nat
  | 0 => 24
  | 1 => 25
  | 2 => 29
  | _ => 30

/-- A time code in range: hours, minutes, seconds, frames, hundredths of a frame. -/
def isTimeCode : Bytes → Bool
  | hours :: minutes :: seconds :: frames :: parts :: _ =>
    decide (hours.toNat % 32 < 24) && decide (minutes.toNat < 60) && decide (seconds.toNat < 60)
      && decide (frames.toNat < framesPerSecond (hours.toNat / 32 % 4))
      && decide (parts.toNat < 100)
  | _ => true

/-- A meta event: only the tempo matters, and a time code or key signature that makes no
sense is refused. -/
def metaEvent? (kind : UInt8) (body : Bytes) : Option TrackEvent :=
  if kind = 0x51 then
    some (if 3 ≤ body.length then .tempo (bigEndian (body.take 3)) else .other)
  else if kind = 0x54 then if isTimeCode body then some .other else none
  else if kind = 0x59 then if 2 ≤ body.length then some .other else none
  else some .other

/-- Takes an event off, given the status that is running. A status of a channel message
keeps running; other events end it. -/
def readEvent? (running : Option UInt8) :
    Bytes → Option (TrackEvent × Option UInt8 × Bytes)
  | [] => none
  | b :: rest =>
    if b < 0x80 then
      running.bind fun status =>
        (ChannelMessage.read? status (b :: rest)).map fun (m, rest) =>
          (.message m, some status, rest)
    else if isChannelStatus b then
      (ChannelMessage.read? b rest).map fun (m, rest) => (.message m, some b, rest)
    else if b = 0xFF then
      match rest with
      | [] => none
      | kind :: rest =>
        let (body, rest) := readCounted rest
        (metaEvent? kind body).map fun event => (event, none, rest)
    else if b = 0xF0 ∨ b = 0xF7 then some (.other, none, (readCounted rest).2)
    else none

/-- The events up to the first that cannot be read. Each takes a byte or more, so `fuel`
is never exhausted if there is as much of it as there are bytes. -/
def readEvents : Nat → Option UInt8 → Bytes → List Timed
  | 0, _, _ => []
  | _ + 1, _, [] => []
  | fuel + 1, running, bytes =>
    let (delta, rest) := readLength bytes
    match readEvent? running rest with
    | some (event, running, rest) => ⟨delta, event⟩ :: readEvents fuel running rest
    | none => []

/-- The events of a track. -/
def readTrack (bytes : Bytes) : List Timed := readEvents bytes.length none bytes

/-! ### Chunks -/

/-- The tempo division of a header: ticks per quarter note, or frames of a known rate. -/
def isDivision (high : UInt8) : Bool :=
  decide (high < 0x80) || [24, 25, 29, 30].contains (256 - high.toNat)

/-- The arrangement that a header announces. Its count of tracks is not used. -/
def readHeader? : Bytes → Option Arrangement
  | f₁ :: f₂ :: _ :: _ :: high :: _ :: _ =>
    if isDivision high then
      match bigEndian [f₁, f₂] with
      | 0 => some .single
      | 1 => some .parallel
      | 2 => some .sequential
      | _ => none
    else none
  | _ => none

/-- What a chunk can be. -/
inductive Chunk where
  | header (arrangement : Arrangement)
  | track (body : Bytes)
  | unreadable

/-- The chunk of a name, if the name means anything. -/
def Chunk.ofBody? (name body : Bytes) : Option Chunk :=
  if name = ascii "MThd" then some (((readHeader? body).map .header).getD .unreadable)
  else if name = ascii "MTrk" then some (.track body)
  else none

/-- The chunks that mean something. A rest too short for a name and a length counts as
an unreadable one. -/
def readChunks : Bytes → List Chunk
  | [] => []
  | n₁ :: n₂ :: n₃ :: n₄ :: l₁ :: l₂ :: l₃ :: l₄ :: rest =>
    let length := bigEndian [l₁, l₂, l₃, l₄]
    let others := readChunks (rest.drop length)
    match Chunk.ofBody? [n₁, n₂, n₃, n₄] (rest.take length) with
    | some chunk => chunk :: others
    | none => others
  | _ => [.unreadable]
termination_by bytes => bytes.length
decreasing_by simp; omega

/-- The tracks up to the first unreadable chunk. Further headers are ignored. -/
def tracksOf : List Chunk → List (List Timed)
  | .track body :: rest => readTrack body :: tracksOf rest
  | .header _ :: rest => tracksOf rest
  | .unreadable :: _ | [] => []

/-- The file in a list of chunks, which has to begin with a header. -/
def File.ofChunks : List Chunk → Except FileFault File
  | [] => .error .noHeader
  | .unreadable :: _ => .error .badHeader
  | .track _ :: _ => .error .trackFirst
  | .header arrangement :: rest => .ok ⟨arrangement, tracksOf rest⟩

/-! ### Containers -/

/-- The chunks of a container with their names: lengths have the least significant byte
first, and a chunk of odd length is followed by a byte of filling. -/
def readParts : Bytes → List (Bytes × Bytes)
  | n₁ :: n₂ :: n₃ :: n₄ :: l₁ :: l₂ :: l₃ :: l₄ :: rest =>
    let length := bigEndian [l₄, l₃, l₂, l₁]
    ([n₁, n₂, n₃, n₄], rest.take length) :: readParts (rest.drop (length + length % 2))
  | _ => []
termination_by bytes => bytes.length
decreasing_by simp; omega

/-- The file inside a container. -/
def unwrap (bytes : Bytes) : Except FileFault Bytes :=
  match readParts bytes with
  | [] => .error .noContainer
  | (_, body) :: _ =>
    if body.length < 4 then .error .noContainerKind
    else if body.take 4 ≠ ascii "RMID" then .error .otherContainer
    else
      match (readParts (body.drop 4)).find? fun (name, _) => name == ascii "data" with
      | some (_, data) => .ok data
      | none => .error .noData

/-- The file in a list of bytes. -/
def File.read (bytes : Bytes) : Except FileFault File :=
  if bytes.take 4 = ascii "RIFF" then
    (unwrap bytes).bind fun data => File.ofChunks (readChunks data)
  else if bytes.take 4 = ascii "MThd" then File.ofChunks (readChunks bytes)
  else .error .notMidi

end Voicing.Midi
