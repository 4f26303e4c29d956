import Voicing.Replay
import Mathlib.Data.List.Basic

/-!
Sequential files play their tracks back to back.

The tracks of a sequential file are put one after the other at running ticks before all
events are sorted. `Midi.timeline_of_sequential` says that the sort has nothing to do, also
where a track ends at the tick at which the next one begins; `Engine.replayEach` replays one
track after the other, each as a file of its own; and `sequential_is_back_to_back` says that
this is the replay of the file.
-/

namespace Voicing

namespace Midi

/-! ### Schedules -/

/-- The event so many ticks later. -/
def Scheduled.later (ticks : Nat) (s : Scheduled) : Scheduled := { s with tick := ticks + s.tick }

theorem schedule_append (start : Nat) (track others : List Timed) :
    schedule start (track ++ others) =
      schedule start track ++ schedule (start + duration track) others := by
  induction track generalizing start with
  | nil => rfl
  | cons timed track ih => simp [schedule, duration, ih, Nat.add_assoc]

/-- Tracks one after the other are as good as one long track. -/
theorem scheduleAll_eq (start : Nat) (tracks : List (List Timed)) :
    scheduleAll start tracks = schedule start tracks.flatten := by
  induction tracks generalizing start with
  | nil => rfl
  | cons track tracks ih => rw [scheduleAll, ih, List.flatten_cons, schedule_append]

theorem schedule_add (start ticks : Nat) (track : List Timed) :
    schedule (start + ticks) track = (schedule ticks track).map (Scheduled.later start) := by
  induction track generalizing ticks with
  | nil => rfl
  | cons timed track ih =>
      rw [schedule, schedule, List.map_cons, Nat.add_assoc, ih]
      rfl

theorem le_tick_of_mem_schedule {start : Nat} {track : List Timed} {s : Scheduled}
    (mem : s ∈ schedule start track) : start ≤ s.tick := by
  induction track generalizing start with
  | nil => exact absurd mem List.not_mem_nil
  | cons timed track ih =>
      rcases List.mem_cons.mp mem with rfl | later
      · exact Nat.le_add_right _ _
      · exact Nat.le_trans (Nat.le_add_right _ _) (ih later)

/-- A track is in the order of its ticks. -/
theorem pairwise_schedule (start : Nat) (track : List Timed) :
    (schedule start track).Pairwise fun a b => decide (a.tick ≤ b.tick) = true := by
  induction track generalizing start with
  | nil => exact List.Pairwise.nil
  | cons timed track ih =>
      refine List.Pairwise.cons (fun s later => ?_) (ih _)
      exact decide_eq_true (le_tick_of_mem_schedule later)

theorem timeline_of_single (track : List Timed) :
    (⟨.single, [track]⟩ : File).timeline = schedule 0 track := by
  rw [File.timeline]
  dsimp only
  rw [List.flatMap_singleton, List.mergeSort_of_pairwise (pairwise_schedule 0 track)]

/-- The sort leaves the events of a sequential file where they are. -/
theorem timeline_of_sequential {f : File} (sequential : f.arrangement = .sequential) :
    f.timeline = scheduleAll 0 f.tracks := by
  rw [File.timeline, sequential]
  dsimp only
  rw [scheduleAll_eq, List.mergeSort_of_pairwise (pairwise_schedule 0 _)]

end Midi

/-- The trigger so many ticks later. -/
def TimedTrigger.later (ticks : Nat) (t : TimedTrigger) : TimedTrigger :=
  { t with tick := ticks + t.tick }

namespace Engine

/-! ### Replays -/

theorem replayTimeline_append (e : Engine) (timeline others : List Midi.Scheduled) :
    e.replayTimeline (timeline ++ others) =
      (((e.replayTimeline timeline).1.replayTimeline others).1,
        (e.replayTimeline timeline).2 ++
          ((e.replayTimeline timeline).1.replayTimeline others).2) := by
  induction timeline generalizing e with
  | nil => rfl
  | cons s timeline ih => simp [replayTimeline, ih]

/-- What happens later happens the same, with later triggers. -/
theorem replayTimeline_later (e : Engine) (ticks : Nat) (timeline : List Midi.Scheduled) :
    e.replayTimeline (timeline.map (Midi.Scheduled.later ticks)) =
      ((e.replayTimeline timeline).1,
        (e.replayTimeline timeline).2.map (TimedTrigger.later ticks)) := by
  induction timeline generalizing e with
  | nil => rfl
  | cons s timeline ih =>
      simp [replayTimeline, ih, Midi.Scheduled.later, TimedTrigger.later, Function.comp_def]

/-- Tracks replayed one after the other, each as a file of its own by the engine that the
tracks before it left, with its triggers later by all the time they took; the first track
begins at `start`. -/
def replayEach (e : Engine) (start : Nat) : List (List Midi.Timed) → Engine × List TimedTrigger
  | [] => (e, [])
  | track :: tracks =>
    let (e, own) := e.replay ⟨.single, [track]⟩
    let (e, others) := e.replayEach (start + Midi.duration track) tracks
    (e, own.map (TimedTrigger.later start) ++ others)

theorem replay_single (e : Engine) (track : List Midi.Timed) :
    e.replay ⟨.single, [track]⟩ = e.replayTimeline (Midi.schedule 0 track) := by
  rw [replay, Midi.timeline_of_single]

/-- Replaying tracks one after the other is replaying them at running ticks. -/
theorem replayEach_eq (e : Engine) (start : Nat) (tracks : List (List Midi.Timed)) :
    e.replayEach start tracks = e.replayTimeline (Midi.scheduleAll start tracks) := by
  induction tracks generalizing e start with
  | nil => rfl
  | cons track tracks ih =>
      have own : e.replayTimeline (Midi.schedule start track) =
          ((e.replayTimeline (Midi.schedule 0 track)).1,
            (e.replayTimeline (Midi.schedule 0 track)).2.map (TimedTrigger.later start)) := by
        rw [← replayTimeline_later, ← Midi.schedule_add, Nat.add_zero]
      rw [Midi.scheduleAll, replayTimeline_append, own, replayEach, replay_single]
      simp only [ih]

end Engine

/-- Replaying a sequential file is replaying its tracks one after the other, each by the engine
that the ones before it left and shifted by the time they took, and it is replaying the one
track of all their events. No event changes its place in the sort. -/
theorem sequential_is_back_to_back {bytes : Midi.Bytes} {f : Midi.File}
    (parsed : Midi.File.read bytes = .ok f) (sequential : f.arrangement = .sequential)
    (e : Engine) :
    e.replayBytes bytes = ((e.replayEach 0 f.tracks).1, .ok (e.replayEach 0 f.tracks).2) ∧
    e.replay ⟨.single, [f.tracks.flatten]⟩ = e.replayEach 0 f.tracks ∧
    f.timeline = Midi.scheduleAll 0 f.tracks := by
  have placed := Midi.timeline_of_sequential sequential
  refine ⟨?_, ?_, placed⟩
  · rw [Engine.replayBytes, parsed]
    dsimp only
    rw [Engine.replay, placed, Engine.replayEach_eq]
  · rw [Engine.replay_single, ← Midi.scheduleAll_eq, Engine.replayEach_eq]

/-- A key goes down at the end of the first track and is let go at the beginning of the
third, at the same tick; the track between them is empty. -/
def chain : Midi.File :=
  ⟨.sequential,
    [[⟨96, .message ⟨Fin.last 15, .noteOn 60 100⟩⟩], [],
      [⟨0, .message ⟨Fin.last 15, .noteOff 60 0⟩⟩, ⟨32, .message ⟨Fin.last 15, .noteOn 64 90⟩⟩]]⟩

def chainBytes : Midi.Bytes :=
  Midi.ascii "MThd" ++ [0, 0, 0, 6, 0, 2, 0, 3, 0x01, 0xE0] ++
    Midi.ascii "MTrk" ++ [0, 0, 0, 4, 96, 0x9F, 60, 100] ++
    Midi.ascii "MTrk" ++ [0, 0, 0, 0] ++
    Midi.ascii "MTrk" ++ [0, 0, 0, 8, 0, 0x8F, 60, 0, 32, 0x9F, 64, 90]

theorem chain_is_back_to_back :
    let e := Engine.ofBank ⟨none, none, [{}, { mode := .release }]⟩ (.ofSeed 1)
    Midi.File.read chainBytes = .ok chain ∧ chain.arrangement = .sequential ∧
      e.replayBytes chainBytes =
        ((e.replayEach 0 chain.tracks).1, .ok (e.replayEach 0 chain.tracks).2) ∧
      (e.replayEach 0 chain.tracks).2.map
          (fun t => (t.tick, t.trigger.layer, t.trigger.report.number)) =
        [(96, 0, 60), (96, 1, 60), (128, 0, 64)] := by
  intro e
  have parsed : Midi.File.read chainBytes = .ok chain := by decide +kernel
  obtain ⟨replayed, -, -⟩ := sequential_is_back_to_back parsed rfl e
  refine ⟨parsed, rfl, replayed, ?_⟩
  rw [Engine.replayEach_eq]
  decide +kernel

end Voicing
