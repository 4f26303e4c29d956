import Voicing.Replay
import Voicing.Proofs.Cue
import Mathlib.Data.List.Basic

/-!
A replay is the stable merge of the tracks, played live.

Every event of a file has a place: its tick, which is all the time its own track took up to
it, the number of its track and its number in the track. A timeline lists the events in the
order of their places, and a replay tells the engine one event of the timeline after the other.

* `Midi.sorted_places`: sorting by ticks alone leaves the events in the order of their places.
* `Midi.timeline_eq`: so the timeline of a file that is not sequential is its events in order.
* `Engine.replayTimeline_eq`: a timeline is replayed by performing its live events.
* `replay_merges_tracks`: what becomes of the bytes of a file that is not sequential.
-/

namespace Voicing

namespace Midi

/-! ### Messages as bytes -/

/-- A data byte as a byte. -/
def Data.byte (d : Data) : UInt8 := UInt8.ofNat d.val

/-- The high half of the status of a message. -/
def Message.kind : Message → Nat
  | .noteOff .. => 8
  | .noteOn .. => 9
  | .polyAftertouch .. => 10
  | .controller .. => 11
  | .program _ => 12
  | .aftertouch _ => 13
  | .bend _ => 14

/-- The data bytes of a message. Of a wheel position the low half comes first. -/
def Message.data : Message → List Data
  | .noteOff key velocity => [key, velocity]
  | .noteOn key velocity => [key, velocity]
  | .polyAftertouch key value => [key, value]
  | .controller number value => [number, value]
  | .program number => [number]
  | .aftertouch value => [value]
  | .bend position =>
    [⟨position.val % 128, Nat.mod_lt _ (by decide)⟩, ⟨position.val / 128, by omega⟩]

/-- The bytes of a message on a channel. -/
def ChannelMessage.bytes (m : ChannelMessage) : List UInt8 :=
  UInt8.ofNat (m.message.kind * 16 + m.channel.val) :: m.message.data.map Data.byte

theorem Data.toNat_byte (d : Data) : d.byte.toNat = d.val := by
  rw [Data.byte, UInt8.toNat_ofNat', Nat.mod_eq_of_lt (by omega)]

@[simp] theorem readData?_byte (d : Data) (rest : List UInt8) :
    readData? (d.byte :: rest) = some (d, rest) := by
  simp only [readData?, Data.toNat_byte, d.isLt, dite_true]

theorem Message.kind_bounds (m : Message) : 8 ≤ m.kind ∧ m.kind < 15 := by
  cases m <;> simp [kind]

theorem Message.read?_data (m : Message) :
    Message.read? m.kind (m.data.map Data.byte) = some (m, []) := by
  cases m with
  | bend position =>
      have whole : position.val % 128 + 128 * (position.val / 128) = position.val :=
        Nat.mod_add_div _ _
      simp [Message.read?, Message.kind, Message.data, whole]
  | _ => simp [Message.read?, Message.kind, Message.data]

/-- A message is told by its bytes. -/
theorem ChannelMessage.ofBytes?_bytes (m : ChannelMessage) : ofBytes? m.bytes = some m := by
  obtain ⟨channel, message⟩ := m
  obtain ⟨low, high⟩ := message.kind_bounds
  have status : (UInt8.ofNat (message.kind * 16 + channel.val)).toNat =
      message.kind * 16 + channel.val := by
    rw [UInt8.toNat_ofNat', Nat.mod_eq_of_lt (by omega)]
  have begins : isChannelStatus (UInt8.ofNat (message.kind * 16 + channel.val)) = true := by
    simp only [isChannelStatus, Bool.and_eq_true, decide_eq_true_eq, UInt8.le_iff_toNat_le,
      UInt8.lt_iff_toNat_lt, status, UInt8.reduceToNat]
    omega
  have halves : (message.kind * 16 + channel.val) / 16 = message.kind ∧
      (message.kind * 16 + channel.val) % 16 = channel.val := by omega
  simp only [bytes, ofBytes?, ChannelMessage.read?, begins, status, halves, if_true,
    message.read?_data, Option.map_some]

/-! ### Places -/

/-- An event of a file in its place. -/
structure Placed where
  /-- The ticks of its track up to it, its own delta included. -/
  tick : Nat
  track : Nat
  /-- Its number in its track. -/
  index : Nat
  event : TrackEvent
deriving DecidableEq

/-- Whether an event comes first in the file, track by track. -/
def Placed.Earlier (a b : Placed) : Prop :=
  a.track < b.track ∨ a.track = b.track ∧ a.index < b.index

/-- Whether an event comes first in time, and in the file where they are at one tick. -/
def Placed.Before (a b : Placed) : Prop := a.tick < b.tick ∨ a.tick = b.tick ∧ a.Earlier b

/-- The events of a track in their places. -/
def placesOf (number : Nat) (track : List Timed) : List Placed :=
  track.mapIdx fun i timed => ⟨duration (track.take (i + 1)), number, i, timed.event⟩

/-- The events of all tracks in their places. -/
def places (tracks : List (List Timed)) : List Placed := (tracks.mapIdx placesOf).flatten

/-- A list of all events of the tracks, each before those that come after its place. -/
structure InOrder (tracks : List (List Timed)) (order : List Placed) : Prop where
  perm : order.Perm (places tracks)
  pairwise : order.Pairwise Placed.Before

/-- The event at its tick. -/
def Placed.scheduled (p : Placed) : Scheduled := ⟨p.tick, p.event⟩

theorem schedule_eq_mapIdx (start : Nat) (track : List Timed) :
    schedule start track =
      track.mapIdx fun i timed => ⟨start + duration (track.take (i + 1)), timed.event⟩ := by
  induction track generalizing start with
  | nil => rfl
  | cons timed track ih =>
      rw [schedule, ih, List.mapIdx_cons]
      simp [duration, Nat.add_assoc]

theorem map_scheduled_placesOf (number : Nat) (track : List Timed) :
    (placesOf number track).map Placed.scheduled = schedule 0 track := by
  rw [schedule_eq_mapIdx, placesOf]
  refine List.ext_getElem (by simp) fun i _ _ => ?_
  simp [Placed.scheduled]

theorem map_scheduled_places (tracks : List (List Timed)) :
    (places tracks).map Placed.scheduled = tracks.flatMap (schedule 0) := by
  have each : (tracks.mapIdx placesOf).map (List.map Placed.scheduled) =
      tracks.map (schedule 0) := by
    refine List.ext_getElem (by simp) fun i _ _ => ?_
    simp [map_scheduled_placesOf]
  rw [places, List.map_flatten, each, List.flatMap]

theorem track_of_mem_placesOf {number : Nat} {track : List Timed} {p : Placed}
    (mem : p ∈ placesOf number track) : p.track = number := by
  obtain ⟨i, _, rfl⟩ := List.mem_mapIdx.mp mem
  rfl

theorem pairwise_earlier_placesOf (number : Nat) (track : List Timed) :
    (placesOf number track).Pairwise Placed.Earlier := by
  rw [List.pairwise_iff_getElem]
  intro i j _ _ below
  exact .inr (by simpa [placesOf] using below)

theorem pairwise_earlier_places (tracks : List (List Timed)) :
    (places tracks).Pairwise Placed.Earlier := by
  rw [places, List.pairwise_flatten]
  refine ⟨fun l mem => ?_, ?_⟩
  · obtain ⟨i, _, rfl⟩ := List.mem_mapIdx.mp mem
    exact pairwise_earlier_placesOf i _
  · rw [List.pairwise_iff_getElem]
    intro i j _ _ below a inA b inB
    rw [List.getElem_mapIdx] at inA inB
    exact .inl (by rw [track_of_mem_placesOf inA, track_of_mem_placesOf inB]; exact below)

instance : DecidableRel Placed.Before := fun a b =>
  inferInstanceAs (Decidable (a.tick < b.tick ∨ a.tick = b.tick ∧
    (a.track < b.track ∨ a.track = b.track ∧ a.index < b.index)))

theorem Placed.Before.asymm {a b : Placed} (before : a.Before b) : ¬ b.Before a := by
  unfold Placed.Before Placed.Earlier at *
  omega

end Midi

/-! ### Sorting -/

section Sorting

variable {α : Type} (key : α → Nat)

/-- Whether the key of the first is at most that of the second. -/
def keyLe (a b : α) : Bool := decide (key a ≤ key b)

theorem keyLe_trans (a b c : α) (ab : keyLe key a b = true) (bc : keyLe key b c = true) :
    keyLe key a c = true :=
  decide_eq_true (Nat.le_trans (of_decide_eq_true ab) (of_decide_eq_true bc))

theorem keyLe_total (a b : α) : (keyLe key a b || keyLe key b a) = true := by
  simpa [keyLe] using Nat.le_total (key a) (key b)

/-- A list sorted by a key. -/
def sortOn (xs : List α) : List α := xs.mergeSort (keyLe key)

theorem pairwise_sortOn (xs : List α) : (sortOn key xs).Pairwise fun a b => key a ≤ key b :=
  (List.pairwise_mergeSort (keyLe_trans key) (keyLe_total key) xs).imp of_decide_eq_true

/-- The elements of one key stay as they were among themselves. -/
theorem filter_sortOn (k : Nat) (xs : List α) :
    (sortOn key xs).filter (fun a => key a = k) = xs.filter fun a => key a = k := by
  have same : (xs.filter fun a => key a = k).Pairwise fun a b => keyLe key a b = true := by
    refine List.pairwise_of_forall_mem_list fun a inA b inB => ?_
    rw [List.mem_filter, decide_eq_true_eq] at inA inB
    exact decide_eq_true (Nat.le_of_eq (inA.2.trans inB.2.symm))
  have kept : (xs.filter fun a => key a = k).Sublist (sortOn key xs) :=
    List.sublist_mergeSort (keyLe_trans key) (keyLe_total key) same List.filter_sublist
  have within : (xs.filter fun a => key a = k).Sublist
      ((sortOn key xs).filter fun a => key a = k) := by
    simpa [List.filter_filter] using kept.filter fun a => decide (key a = k)
  have sameLength := ((List.mergeSort_perm xs (keyLe key)).filter fun a => key a = k).length_eq
  exact (within.eq_of_length sameLength.symm).symm

/-- A sorted list is in the order of the key, and for one key in the order it had before. -/
theorem pairwise_sortOn_stable {r : α → α → Prop} {xs : List α} (before : xs.Pairwise r) :
    (sortOn key xs).Pairwise fun a b => key a < key b ∨ key a = key b ∧ r a b := by
  rw [List.pairwise_iff_forall_sublist]
  intro a b pair
  have le : key a ≤ key b :=
    List.pairwise_iff_forall_sublist.mp (pairwise_sortOn key xs) pair
  rcases Nat.lt_or_eq_of_le le with lt | eq
  · exact .inl lt
  · have tied : [a, b].Sublist (xs.filter fun c => key c = key a) := by
      rw [← filter_sortOn]
      simpa [eq] using pair.filter fun c => decide (key c = key a)
    exact .inr ⟨eq, List.pairwise_iff_forall_sublist.mp before (tied.trans List.filter_sublist)⟩

end Sorting

namespace Midi

/-- Sorting by ticks alone leaves the events in the order of their places. -/
theorem sorted_places (tracks : List (List Timed)) :
    InOrder tracks (sortOn Placed.tick (places tracks)) :=
  ⟨List.mergeSort_perm _ _, pairwise_sortOn_stable _ (pairwise_earlier_places tracks)⟩

/-- Events have only one order. -/
theorem InOrder.unique {tracks : List (List Timed)} {order other : List Placed}
    (first : InOrder tracks order) (second : InOrder tracks other) : order = other :=
  List.Perm.eq_of_pairwise (fun _ _ _ _ ab ba => absurd ba ab.asymm) first.pairwise
    second.pairwise (first.perm.trans second.perm.symm)

/-- The timeline of a file that is not sequential is its events in order. -/
theorem timeline_eq {f : File} (merged : f.arrangement ≠ .sequential) {order : List Placed}
    (ordered : InOrder f.tracks order) : f.timeline = order.map Placed.scheduled := by
  have sorted : (sortOn Placed.tick (places f.tracks)).map Placed.scheduled =
      (f.tracks.flatMap (schedule 0)).mergeSort fun a b => decide (a.tick ≤ b.tick) := by
    rw [← map_scheduled_places]
    exact List.map_mergeSort fun _ _ _ _ => rfl
  rw [ordered.unique (sorted_places f.tracks), sorted, File.timeline]
  cases arranged : f.arrangement with
  | single => rfl
  | parallel => rfl
  | sequential => exact absurd arranged merged

end Midi

namespace Engine

/-! ### Live events -/

/-- What an event of a track tells a live engine, if it tells it anything. A file has the length
of a quarter note in millionths of a second. -/
def live? : Midi.TrackEvent → Option Event
  | .message m => some (.message m)
  | .tempo micros => some (.tempo (Binary.ofNat micros / 1000000))
  | .other => none

/-- The live events of a timeline at their ticks. -/
def liveEvents (timeline : List Midi.Scheduled) : List (Nat × Event) :=
  timeline.filterMap fun s => (live? s.event).map (Prod.mk s.tick)

/-- The triggers of events, each at the tick of its event. -/
def stamp (ticks : List Nat) (triggers : List (List Trigger)) : List TimedTrigger :=
  (List.zipWith (fun tick ts => ts.map (TimedTrigger.mk tick)) ticks triggers).flatten

/-- The engine after live events at their ticks, and the triggers at these ticks. -/
def perform (e : Engine) (events : List (Nat × Event)) : Engine × List TimedTrigger :=
  let (after, triggers) := e.run (events.map (·.2))
  (after, stamp (events.map (·.1)) triggers)

@[simp] theorem perform_nil (e : Engine) : e.perform [] = (e, []) := rfl

@[simp] theorem perform_cons (e : Engine) (tick : Nat) (event : Event)
    (events : List (Nat × Event)) :
    e.perform ((tick, event) :: events) =
      (((e.step event).1.perform events).1,
        (e.step event).2.map (TimedTrigger.mk tick) ++ ((e.step event).1.perform events).2) := rfl

/-- A timeline is replayed by performing its live events. -/
theorem replayTimeline_eq (e : Engine) (timeline : List Midi.Scheduled) :
    e.replayTimeline timeline = e.perform (liveEvents timeline) := by
  induction timeline generalizing e with
  | nil => rfl
  | cons s timeline ih =>
      rw [replayTimeline, liveEvents, List.filterMap_cons, ← liveEvents]
      cases s.event with
      | message m => simp [trackEvent, live?, step, ih]
      | tempo micros => simp [trackEvent, live?, step, ih, quarterSeconds]
      | other => simp [trackEvent, live?, ih]

/-- A trigger is at the tick of an event. -/
theorem tick_of_mem_perform {e : Engine} {events : List (Nat × Event)} {t : TimedTrigger}
    (mem : t ∈ (e.perform events).2) : t.tick ∈ events.map (·.1) := by
  induction events generalizing e with
  | nil => exact absurd mem List.not_mem_nil
  | cons event events ih =>
      rw [perform_cons, List.mem_append] at mem
      rw [List.map_cons, List.mem_cons]
      rcases mem with own | later
      · obtain ⟨_, _, rfl⟩ := List.mem_map.mp own
        exact .inl rfl
      · exact .inr (ih later)

/-- Events in the order of their ticks have their triggers in the order of their ticks. -/
theorem pairwise_perform (e : Engine) {events : List (Nat × Event)}
    (sorted : (events.map (·.1)).Pairwise (· ≤ ·)) :
    (e.perform events).2.Pairwise fun a b => a.tick ≤ b.tick := by
  induction events generalizing e with
  | nil => exact List.Pairwise.nil
  | cons event events ih =>
      rw [List.map_cons, List.pairwise_cons] at sorted
      rw [perform_cons, List.pairwise_append]
      refine ⟨?_, ih _ sorted.2, ?_⟩
      · rw [List.pairwise_map]
        exact List.pairwise_of_forall_mem_list fun _ _ _ _ => Nat.le_refl _
      · intro a own b later
        obtain ⟨_, _, rfl⟩ := List.mem_map.mp own
        exact sorted.1 _ (tick_of_mem_perform later)

theorem liveEvents_ticks_sublist (timeline : List Midi.Scheduled) :
    ((liveEvents timeline).map (·.1)).Sublist (timeline.map Midi.Scheduled.tick) := by
  induction timeline with
  | nil => exact List.Sublist.refl _
  | cons s timeline ih =>
      rw [liveEvents, List.filterMap_cons, ← liveEvents, List.map_cons]
      cases live? s.event with
      | none => exact ih.cons _
      | some event => exact ih.cons_cons _

/-- The event with its message, if it is one, as bytes. -/
def Event.raw : Event → Event
  | .message m => .rawMessage m.bytes
  | event => event

theorem step_raw (e : Engine) (event : Event) : e.step event.raw = e.step event := by
  cases event with
  | message m => simp [Event.raw, step, rawMessage, Midi.ChannelMessage.ofBytes?_bytes]
  | _ => rfl

theorem perform_raw (e : Engine) (events : List (Nat × Event)) :
    e.perform (events.map fun (tick, event) => (tick, event.raw)) = e.perform events := by
  induction events generalizing e with
  | nil => rfl
  | cons timed events ih =>
      obtain ⟨tick, event⟩ := timed
      simp [step_raw, ih]

end Engine

/-- Bytes that are no file leave the engine as it was. A file that is not sequential has its
events performed live in their one order, by tick, track and number in the track, whether the
messages arrive as such or as bytes; the triggers come at the ticks of their events. -/
theorem replay_merges_tracks (e : Engine) (bytes : Midi.Bytes) :
    (∀ fault, Midi.File.read bytes = .error fault → e.replayBytes bytes = (e, .error fault)) ∧
    ∀ f, Midi.File.read bytes = .ok f → f.arrangement ≠ .sequential →
      ∃ order, (∀ other, Midi.InOrder f.tracks other ↔ other = order) ∧
        let events := Engine.liveEvents (order.map Midi.Placed.scheduled)
        let raw := events.map fun (tick, event) => (tick, event.raw)
        e.replayBytes bytes = ((e.perform events).1, .ok (e.perform events).2) ∧
        e.perform raw = e.perform events ∧
        (e.perform events).2.Pairwise fun a b => a.tick ≤ b.tick := by
  refine ⟨fun fault failed => ?_, fun f parsed merged => ?_⟩
  · rw [Engine.replayBytes, failed]
  have ordered := Midi.sorted_places f.tracks
  refine ⟨_, fun other => ⟨fun also => also.unique ordered, fun eq => eq ▸ ordered⟩, ?_,
    e.perform_raw _, ?_⟩
  · rw [Engine.replayBytes, parsed]
    dsimp only
    rw [Engine.replay, Midi.timeline_eq merged ordered, Engine.replayTimeline_eq]
  · refine e.pairwise_perform (List.Pairwise.sublist (Engine.liveEvents_ticks_sublist _) ?_)
    rw [List.map_map, List.pairwise_map]
    exact pairwise_sortOn _ _

/-- Two tracks: a tempo of 150 beats per minute and a key that goes down at tick 96, then a tempo
of 120 and another key; and a key that goes down at tick 96 as well and is let go at the end. -/
def twoHands : Midi.File :=
  ⟨.parallel,
    [[⟨0, .tempo 400000⟩, ⟨96, .message ⟨Fin.last 15, .noteOn 60 100⟩⟩, ⟨384, .tempo 500000⟩,
        ⟨0, .message ⟨Fin.last 15, .noteOn 62 80⟩⟩],
      [⟨96, .message ⟨Fin.last 15, .noteOn 64 90⟩⟩, ⟨0, .other⟩,
        ⟨480, .message ⟨Fin.last 15, .noteOff 64 0⟩⟩]]⟩

def twoHandsBytes : Midi.Bytes :=
  Midi.ascii "MThd" ++ [0, 0, 0, 6, 0, 1, 0, 2, 0x01, 0xE0] ++
    Midi.ascii "MTrk" ++
      [0, 0, 0, 23, 0, 0xFF, 0x51, 3, 0x06, 0x1A, 0x80, 96, 0x9F, 60, 100, 0x83, 0x00, 0xFF, 0x51,
        3, 0x07, 0xA1, 0x20, 0, 0x9F, 62, 80] ++
    Midi.ascii "MTrk" ++
      [0, 0, 0, 13, 96, 0x9F, 64, 90, 0, 0xFF, 0x2F, 0, 0x83, 0x60, 0x8F, 64, 0]

/-- A layer for the fast tempo, which attacks, and one for the slow tempo, which sounds on
releases: each is heard while the tempo is its own. -/
def fastAndSlow : Bank :=
  { layers := [{ tempi := ⟨140, 160⟩ }, { mode := .release, tempi := ⟨100, 130⟩ }] }

theorem two_hands_are_merged :
    let e := Engine.ofBank fastAndSlow (.ofSeed 1)
    let events : List (Nat × Engine.Event) :=
      [(0, .tempo 0.4), (96, .message ⟨Fin.last 15, .noteOn 60 100⟩),
        (96, .message ⟨Fin.last 15, .noteOn 64 90⟩), (480, .tempo 0.5),
        (480, .message ⟨Fin.last 15, .noteOn 62 80⟩),
        (576, .message ⟨Fin.last 15, .noteOff 64 0⟩)]
    Midi.File.read twoHandsBytes = .ok twoHands ∧
      e.replayBytes twoHandsBytes = ((e.perform events).1, .ok (e.perform events).2) ∧
      (e.perform events).2.map (fun t => (t.tick, t.trigger.layer, t.trigger.report.number)) =
        [(96, 0, 60), (96, 0, 64), (576, 1, 64)] ∧
      e.replayBytes (Midi.ascii "RIFF") = (e, .error .noContainer) := by
  intro e events
  have parsed : Midi.File.read twoHandsBytes = .ok twoHands := by decide +kernel
  obtain ⟨order, only, replayed, -, -⟩ :=
    (replay_merges_tracks e twoHandsBytes).2 twoHands parsed (by decide)
  let inTime : List Midi.Placed :=
    [⟨0, 0, 0, .tempo 400000⟩, ⟨96, 0, 1, .message ⟨Fin.last 15, .noteOn 60 100⟩⟩,
      ⟨96, 1, 0, .message ⟨Fin.last 15, .noteOn 64 90⟩⟩, ⟨96, 1, 1, .other⟩,
      ⟨480, 0, 2, .tempo 500000⟩, ⟨480, 0, 3, .message ⟨Fin.last 15, .noteOn 62 80⟩⟩,
      ⟨576, 1, 2, .message ⟨Fin.last 15, .noteOff 64 0⟩⟩]
  have inOrder : Midi.InOrder twoHands.tracks inTime := ⟨by decide, by decide⟩
  have heard : Engine.liveEvents (inTime.map Midi.Placed.scheduled) = events := by decide +kernel
  rw [← (only _).mp inOrder, heard] at replayed
  have refused := (replay_merges_tracks e (Midi.ascii "RIFF")).1 .noContainer (by decide +kernel)
  exact ⟨parsed, replayed, by decide +kernel, refused⟩

end Voicing
