import Voicing.Proofs.History
import Voicing.Proofs.Sostenuto
import Voicing.Proofs.Told
import Voicing.Proofs.Unheard

/-!
Where velocities come from.

What is fed to an engine are raw messages and files, and their velocities are levels of data
bytes. From the messages they go to the memory, from there into what the pedals hold back, and
from there to the layers again; on none of these ways are they changed.

* `Layer.held_step`: what a layer holds after an event, it held before or found in the memory.
* `Cue.told_cases`: the velocities that a cue tells a layer are its own, or waited there.
* `Engine.Leveled.follow`: so an engine in which all velocities are data levels stays one.
* `only_data_levels_circulate`: whatever is fed to the engine of a bank, every velocity in the
  memory, behind a pedal, told to a layer or reported of a note is a data level.
-/

namespace Voicing

/-- The level of a data byte. -/
def IsDataLevel (v : Single) : Prop := ∃ d : Midi.Data, v = Binary.ofNat d.val / 127

theorem isDataLevel_zero : IsDataLevel 0 := ⟨0, by decide +kernel⟩

theorem IsDataLevel.isLevel {v : Single} (data : IsDataLevel v) : IsLevel v := by
  obtain ⟨d, rfl⟩ := data
  exact d.level_mem

/-! ### What is held back -/

namespace HeldReleases

variable {h : HeldReleases} {r s : Release}

theorem mem_push (mem : s ∈ (h.push r).toList) : s ∈ h.toList ∨ s = r := by
  rw [toList_push] at mem
  split at mem
  · exact (List.mem_append.mp mem).imp id List.mem_singleton.mp
  · exact .inl mem

theorem mem_foldl_push {rs : List Release} (mem : s ∈ (rs.foldl push h).toList) :
    s ∈ h.toList ∨ s ∈ rs := by
  induction rs generalizing h with
  | nil => exact .inl mem
  | cons r rs ih =>
      rcases ih mem with pushed | later
      · rcases mem_push pushed with before | rfl
        · exact .inl before
        · exact .inr List.mem_cons_self
      · exact .inr (List.mem_cons_of_mem r later)

/-- What takes the place of a release that leaves was there before. -/
theorem mem_swapOut {rs : List Release} {i : Nat} (mem : s ∈ swapOut rs i) : s ∈ rs := by
  unfold swapOut at mem
  split at mem
  · next last at_end =>
      rcases List.mem_or_eq_of_mem_set (List.dropLast_subset _ mem) with before | same
      · exact before
      · exact same ▸ List.mem_of_getLast? at_end
  · exact absurd mem List.not_mem_nil

theorem mem_remove {n : Note} (mem : s ∈ (h.remove n).toList) : s ∈ h.toList := by
  unfold remove at mem
  split at mem
  · next removed =>
      unfold remove? at removed
      split at removed
      · exact absurd removed (by simp)
      · split at removed
        · exact absurd removed (by simp)
        · cases removed
          exact mem_swapOut mem
  · exact mem

end HeldReleases

namespace Layer

variable {l : Layer} {m : Memory} {r : Release}

/-- The releases that a layer holds back. -/
def held (l : Layer) : List Release := l.sustained.toList ++ l.caught.toList

theorem mem_held : r ∈ l.held ↔ r ∈ l.sustained.toList ∨ r ∈ l.caught.toList := List.mem_append

theorem held_of_hold {l' : Layer} (same : l'.hold = l.hold) : l'.held = l.held := by
  obtain ⟨-, -, -, sustained, caught⟩ := Hold.mk.inj same
  rw [held, sustained, caught]
  rfl

/-- A note-off catches nothing. -/
theorem mem_caught_noteOff {n : Note} {v draw : Single}
    (mem : r ∈ (l.noteOff m n v draw).1.caught.toList) : r ∈ l.caught.toList := by
  unfold noteOff at mem
  split at mem
  · cases mode : l.settings.mode with
    | release =>
        rw [mode] at mem
        dsimp only at mem
        unfold releaseUnderPedals at mem
        cases caught : l.isCaught n <;> cases listed : l.caught.holds n <;>
          cases down : l.sustainDown <;> simp [caught, listed, down, sound, takeTurn] at mem
        all_goals first | exact mem | exact HeldReleases.mem_remove mem
    | _ =>
        rw [mode] at mem
        exact mem
  · exact mem

/-- What a layer holds after a note-off it held before, or it is as loud as its note was
struck. -/
theorem held_noteOff {n : Note} {v draw : Single} (mem : r ∈ (l.noteOff m n v draw).1.held) :
    r ∈ l.held ∨ r.velocity = m.velocity r.note := by
  rw [mem_held] at mem ⊢
  rcases mem with waits | caught
  · rw [(noteOff_fields l m n v draw).2.2.2] at waits
    split at waits
    · rcases HeldReleases.mem_push waits with before | new
      · exact .inl (.inl before)
      · exact .inr (by rw [new])
    · exact .inl (.inl waits)
  · exact .inl (.inr (mem_caught_noteOff caught))

theorem held_controller {c : Controller} {v : Single} (mem : r ∈ (l.controller m c v).1.held) :
    r ∈ l.held ∨ r.velocity = m.velocity r.note := by
  rw [mem_held, sustained_controller] at mem
  rw [mem_held]
  rcases mem with waits | caught
  · exact .inl (.inl waits)
  · have after := congrArg Hold.caught (hold_controller l m v c)
    change (l.controller m c v).1.caught = l.caughtAfter m v c at after
    rw [after] at caught
    unfold caughtAfter at caught
    split at caught
    · dsimp only at caught
      split at caught
      · rw [catchNotes_eq_foldl] at caught
        rcases HeldReleases.mem_foldl_push caught with before | new
        · exact .inl (.inr before)
        · exact .inr (mem_pressedReleases.mp new).2.2
      · split at caught
        · exact absurd caught List.not_mem_nil
        · exact .inl (.inr caught)
    · exact .inl (.inr caught)

/-- What a layer holds after an event it held before, or it is as loud as its note was struck
in the memory that came with the event. -/
theorem held_step {event : Event} (mem : r ∈ (l.step event).1.held) :
    r ∈ l.held ∨ ∃ m ∈ event.memory?, r.velocity = m.velocity r.note := by
  cases event with
  | noteOn m n v draw => exact .inl (held_of_hold (hold_noteOn l m n v draw) ▸ mem)
  | noteOff m n v draw => exact (held_noteOff mem).imp id fun struck => ⟨m, rfl, struck⟩
  | controller m c v => exact (held_controller mem).imp id fun struck => ⟨m, rfl, struck⟩
  | dropSustained => exact .inl (mem_held.mpr (.inr ((mem_held.mp mem).resolve_left
      List.not_mem_nil)))
  | _ => exact .inl mem

theorem held_run {events : List Event} (mem : r ∈ (l.run events).held) :
    r ∈ l.held ∨ ∃ event ∈ events, ∃ m ∈ event.memory?, r.velocity = m.velocity r.note := by
  induction events generalizing l with
  | nil => exact .inl mem
  | cons event events ih =>
      rcases ih mem with stepped | ⟨later, told, struck⟩
      · exact (held_step stepped).imp id fun struck => ⟨event, List.mem_cons_self, struck⟩
      · exact .inr ⟨later, List.mem_cons_of_mem _ told, struck⟩

end Layer

/-! ### Cues -/

namespace Cue

/-- The velocity of a note that goes down or up. -/
def velocity? : Cue → Option Single
  | .noteOn _ v | .noteOff _ v => some v
  | _ => none

variable {o : Occasion} {cue : Cue} {draws : KeyStream} {l : Layer} {event : Layer.Event}

/-- What a cue tells a layer comes with the memory of the occasion, if with any, and with the
velocity of the cue or of a release that waited, if with any. -/
theorem told_cases (told : event ∈ cue.told o draws l) :
    (event.memory? = none ∨ event.memory? = some o.memory) ∧
      (event.velocity? = none ∨ event.velocity? = cue.velocity? ∨
        ∃ r ∈ l.held, event.velocity? = some r.velocity) := by
  have again {k : Layer} {wasDown : Bool} (same : k.sustained = l.sustained)
      (lifted : event ∈ k.toldLifted o.memory draws wasDown) :
      (event.memory? = none ∨ event.memory? = some o.memory) ∧
        (event.velocity? = none ∨ ∃ r ∈ l.held, event.velocity? = some r.velocity) := by
    rcases Layer.mem_toldLifted lifted with rfl | ⟨r, waits, draw, rfl⟩
    · exact ⟨.inl rfl, .inl rfl⟩
    · rw [same] at waits
      exact ⟨.inr rfl, .inr ⟨r, Layer.mem_held.mpr (.inl waits), rfl⟩⟩
  cases cue with
  | noteOn n v =>
      rcases List.mem_cons.mp told with rfl | own
      · exact ⟨.inl rfl, .inl rfl⟩
      · cases List.mem_singleton.mp own
        exact ⟨.inr rfl, .inr (.inl rfl)⟩
  | noteOff n v =>
      cases List.mem_singleton.mp told
      exact ⟨.inr rfl, .inr (.inl rfl)⟩
  | controller c v =>
      rcases List.mem_cons.mp told with rfl | lifted
      · exact ⟨.inr rfl, .inl rfl⟩
      · exact (again (l.sustained_controller _ _ _) lifted).imp id (.imp id .inr)
  | rest =>
      rcases List.mem_append.mp told with resting | lifted
      · rw [Layer.restEvents, List.mem_cons, List.mem_cons, List.mem_map] at resting
        rcases resting with rfl | rfl | ⟨c, -, rfl⟩
        · exact ⟨.inl rfl, .inl rfl⟩
        · exact ⟨.inl rfl, .inl rfl⟩
        · exact ⟨.inr rfl, .inl rfl⟩
      · exact (again Layer.sustained_rest lifted).imp id (.imp id .inr)
  | polyAftertouch n v => exact absurd told List.not_mem_nil
  | startOver => exact absurd told List.not_mem_nil
  | _ =>
      cases List.mem_singleton.mp told
      exact ⟨.inl rfl, .inl rfl⟩

/-- A cue whose velocity, if it has one, is a data level. A new start is none: nothing that is
fed to an engine brings it. -/
def IsData (cue : Cue) : Prop := cue ≠ .startOver ∧ ∀ v ∈ cue.velocity?, IsDataLevel v

end Cue

/-! ### The memory -/

namespace Memory

/-- The velocities that are remembered are data levels. -/
structure Leveled (m : Memory) : Prop where
  velocity : ∀ n, IsDataLevel (m.velocity n)
  lastVelocity : IsDataLevel m.lastVelocity

variable {m : Memory}

theorem leveled_initial : initial.Leveled := by
  refine ⟨fun n => ?_, isDataLevel_zero⟩
  have silent : initial.velocity n = 0 := by
    unfold velocity initial
    rw [Vector.getElem?_replicate]
    split <;> rfl
  exact silent ▸ isDataLevel_zero

/-- A note-on strikes with its own velocity, and nothing else changes what was struck. -/
theorem Leveled.apply (leveled : m.Leveled) {event : Event}
    (struck : ∀ n v, event = .noteOn n v → IsDataLevel v) : (m.apply event).Leveled := by
  constructor
  · intro n
    by_cases key : n.toNat < noteCount
    · rw [m.velocity_apply key]
      split
      · exact isDataLevel_zero
      · cases event with
        | noteOn k v =>
            by_cases same : k = n
            · simpa [Event.strikes, same] using struck k v rfl
            · simpa [Event.strikes, same] using leveled.velocity n
        | _ => exact leveled.velocity n
    · rw [((m.apply event).readings_beyond.1 n (Nat.not_lt.mp key)).1]
      exact isDataLevel_zero
  · rw [show (m.apply event).lastVelocity = _ from congrArg Prod.snd (m.last_apply event)]
    split
    · exact isDataLevel_zero
    · cases event with
      | noteOn k v =>
          by_cases key : k.toNat < noteCount
          · simpa [Event.played, key] using struck k v rfl
          · simpa [Event.played, key] using leveled.lastVelocity
      | _ => exact leveled.lastVelocity

theorem Leveled.run (leveled : m.Leveled) {events : List Event}
    (struck : ∀ n v, .noteOn n v ∈ events → IsDataLevel v) : (m.run events).Leveled := by
  induction events generalizing m with
  | nil => exact leveled
  | cons event events ih =>
      have now : (m.apply event).Leveled :=
        leveled.apply fun n v same => struck n v (same ▸ List.mem_cons_self)
      exact ih now fun n v mem => struck n v (List.mem_cons_of_mem _ mem)

theorem Leveled.remembered (leveled : m.Leveled) {cue : Cue} (data : cue.IsData) :
    (m.run cue.remembered).Leveled := by
  refine leveled.run fun n v mem => data.2 v ?_
  cases cue with
  | noteOn k w =>
      cases List.mem_singleton.mp mem
      rfl
  | tempo s => exact absurd mem List.not_mem_nil
  | _ => nomatch List.mem_singleton.mp mem

end Memory

/-! ### Engines -/

namespace Engine

/-- The velocities that are remembered or held back are data levels. -/
structure Leveled (e : Engine) : Prop where
  memory : e.memory.Leveled
  held : ∀ l ∈ e.layers, ∀ r ∈ l.held, IsDataLevel r.velocity

variable {e : Engine} {cue : Cue}

theorem leveled_ofBank (b : Bank) (draws : KeyStream) : (ofBank b draws).Leveled := by
  refine ⟨Memory.leveled_initial, fun l mem r held => ?_⟩
  obtain ⟨s, -, rfl⟩ := List.mem_map.mp mem
  exact absurd held List.not_mem_nil

theorem Leveled.take (leveled : e.Leveled) (data : cue.IsData) : (e.take cue).1.Leveled := by
  have memory := leveled.memory.remembered data
  refine ⟨memory, fun l' mem r held => ?_⟩
  obtain ⟨i, l, before, rfl⟩ := mem_layers_take mem
  rw [answerOf, Cue.answer_layer data.1] at held
  rcases Layer.held_run held with old | ⟨event, told, m, here, struck⟩
  · exact leveled.held l before r old
  · rcases (Cue.told_cases told).1 with none | same
    · exact absurd here (by simp [none])
    · cases Option.some.inj (here.symm.trans same)
      exact struck ▸ memory.velocity r.note

/-- What a cue tells the layers of such an engine are data levels. -/
theorem Leveled.told (leveled : e.Leveled) (data : cue.IsData) {i : Nat} {event : Layer.Event}
    (told : event ∈ e.toldAt i cue) {v : Single} (velocity : v ∈ event.velocity?) :
    IsDataLevel v := by
  cases listed : e.layers[i]? with
  | none =>
      rw [toldAt, listed] at told
      exact absurd told List.not_mem_nil
  | some l =>
      rw [toldAt_of_layer listed] at told
      rcases (Cue.told_cases told).2 with none | own | ⟨r, waits, same⟩
      · exact absurd velocity (by simp [none])
      · exact data.2 v (own ▸ velocity)
      · cases Option.some.inj (velocity.symm.trans same)
        exact leveled.held l (List.mem_of_getElem? listed) r waits

/-- A trigger of a cue is among the reports of a layer. -/
theorem exists_report_of_mem_take {t : Trigger} (mem : t ∈ (e.take cue).2) :
    t.report ∈ reportsOf t.layer (e.take cue).2 :=
  List.mem_map.mpr ⟨t, List.mem_filter.mpr ⟨mem, beq_self_eq_true _⟩, rfl⟩

theorem Leveled.reports (leveled : e.Leveled) (data : cue.IsData) {t : Trigger}
    (mem : t ∈ (e.take cue).2) (note : t.report.kind ≠ .controller) :
    IsDataLevel t.report.value := by
  have reported := exists_report_of_mem_take mem
  rw [reportsOf_take] at reported
  cases listed : e.layers[t.layer]? with
  | none =>
      rw [listed] at reported
      exact absurd reported List.not_mem_nil
  | some l =>
      rw [listed] at reported
      obtain ⟨event, told, velocity⟩ := Cue.told_of_report reported note
      rw [← toldAt_of_layer listed] at told
      exact leveled.told data told velocity

/-- An engine in which all velocities are data levels stays one, and tells its layers and
reports of notes no other velocities. -/
theorem Leveled.follow {cues : List Cue} (data : ∀ cue ∈ cues, cue.IsData) {e : Engine}
    (leveled : e.Leveled) :
    (e.follow cues).1.Leveled ∧
      (∀ t ∈ (e.follow cues).2, t.report.kind ≠ .controller → IsDataLevel t.report.value) ∧
      ∀ i, ∀ event ∈ e.toldAlong i cues, ∀ v ∈ event.velocity?, IsDataLevel v := by
  induction cues generalizing e with
  | nil => exact ⟨leveled, fun _ mem => absurd mem List.not_mem_nil,
      fun _ _ mem => absurd mem List.not_mem_nil⟩
  | cons cue cues ih =>
      rw [List.forall_mem_cons] at data
      obtain ⟨after, reports, told⟩ := ih data.2 (leveled.take data.1)
      refine ⟨after, fun t mem note => ?_, fun i event mem v velocity => ?_⟩
      · rcases List.mem_append.mp mem with now | later
        · exact leveled.reports data.1 now note
        · exact reports t later note
      · rcases List.mem_append.mp mem with now | later
        · exact leveled.told data.1 now velocity
        · exact told i event later v velocity

/-! ### What is fed to an engine -/

/-- A raw message, or the bytes of a file that is replayed. -/
inductive Feed where
  | message (bytes : List UInt8)
  | file (bytes : Midi.Bytes)
deriving DecidableEq

/-- The engine after a message or a file, and the triggers. -/
def feed (e : Engine) : Feed → Engine × List Trigger
  | .message bytes => e.rawMessage bytes
  | .file bytes =>
    match e.replayBytes bytes with
    | (e, .ok triggers) => (e, triggers.map (·.trigger))
    | (e, .error _) => (e, [])

/-- The engine after messages and files in order, and the triggers. -/
def feedAll (e : Engine) : List Feed → Engine × List Trigger
  | [] => (e, [])
  | x :: xs => (((e.feed x).1.feedAll xs).1, (e.feed x).2 ++ ((e.feed x).1.feedAll xs).2)

/-- The cues of a timeline. -/
def timelineCues (e : Engine) (timeline : List Midi.Scheduled) : List Cue :=
  timeline.flatMap fun s => e.trackCues s.event

/-- The cues of a message or a file. -/
def feedCues (e : Engine) : Feed → List Cue
  | .message bytes => e.rawCues bytes
  | .file bytes =>
    match Midi.File.read bytes with
    | .ok f => e.timelineCues f.timeline
    | .error _ => []

theorem feedCues_eq_of_channel {f : Engine} (same : e.channel = f.channel) :
    e.feedCues = f.feedCues := by
  have tracks := trackCues_eq_of_channel same
  funext x
  cases x with
  | message bytes => exact congrFun (cues_eq_of_channel same) (.rawMessage bytes)
  | file bytes => simp only [feedCues, timelineCues, tracks]

/-- A timeline does what its cues do, one after the other. -/
theorem replayTimeline_eq_follow (e : Engine) (timeline : List Midi.Scheduled) :
    ((e.replayTimeline timeline).1, (e.replayTimeline timeline).2.map (·.trigger)) =
      e.follow (e.timelineCues timeline) := by
  induction timeline generalizing e with
  | nil => rfl
  | cons s timeline ih =>
      have later := trackCues_eq_of_channel (channel_follow e (e.trackCues s.event))
      have rest := ih (e.follow (e.trackCues s.event)).1
      rw [timelineCues, later] at rest
      rw [timelineCues, List.flatMap_cons, follow_append, ← rest, replayTimeline,
        trackEvent_eq_follow]
      simp [Function.comp_def]

theorem feed_eq_follow (e : Engine) (x : Feed) : e.feed x = e.follow (e.feedCues x) := by
  cases x with
  | message bytes => exact rawMessage_eq_follow e bytes
  | file bytes =>
      rw [feed, replayBytes, feedCues]
      cases Midi.File.read bytes with
      | error fault => rfl
      | ok f => exact replayTimeline_eq_follow e f.timeline

theorem feedAll_eq_follow (e : Engine) (xs : List Feed) :
    e.feedAll xs = e.follow (xs.flatMap e.feedCues) := by
  induction xs generalizing e with
  | nil => rfl
  | cons x xs ih =>
      have later := feedCues_eq_of_channel (channel_follow e (e.feedCues x))
      rw [List.flatMap_cons, follow_append, ← feed_eq_follow, ← later, ← feed_eq_follow, ← ih]
      rfl

theorem isData_messageCues (m : Midi.Message) : ∀ cue ∈ messageCues m, cue.IsData := by
  have mute {cue : Cue} (going : cue ≠ .startOver) (silent : cue.velocity? = none) : cue.IsData :=
    ⟨going, fun v velocity => absurd velocity (by simp [silent])⟩
  have struck (cue : Cue) (d : Midi.Data) (going : cue ≠ .startOver)
      (velocity : cue.velocity? = some d.level) : cue.IsData :=
    ⟨going, fun v same => ⟨d, Option.some.inj (same.symm.trans velocity)⟩⟩
  intro cue mem
  cases m with
  | noteOff key velocity =>
      cases List.mem_singleton.mp mem
      exact struck _ velocity Cue.noConfusion rfl
  | noteOn key velocity =>
      rw [messageCues_noteOn] at mem
      split at mem
      · cases List.mem_singleton.mp mem
        exact ⟨Cue.noConfusion, fun v same => Option.some.inj same ▸ isDataLevel_zero⟩
      · cases List.mem_singleton.mp mem
        exact struck _ velocity Cue.noConfusion rfl
  | controller number value =>
      rw [messageCues, controllerCues] at mem
      split at mem
      · rcases List.mem_cons.mp mem with rfl | own
        · exact mute Cue.noConfusion rfl
        · cases List.mem_singleton.mp own
          exact mute Cue.noConfusion rfl
      · cases List.mem_singleton.mp mem
        exact mute Cue.noConfusion rfl
  | program number => exact absurd mem List.not_mem_nil
  | _ =>
      cases List.mem_singleton.mp mem
      exact mute Cue.noConfusion rfl

theorem isData_channelCues (e : Engine) (m : Midi.ChannelMessage) :
    ∀ cue ∈ e.channelCues m, cue.IsData := by
  unfold channelCues
  split
  · exact isData_messageCues _
  · exact fun _ mem => absurd mem List.not_mem_nil

/-- Whatever is fed to an engine has data levels for velocities, and makes nothing start
over. -/
theorem isData_feedCues (e : Engine) (x : Feed) : ∀ cue ∈ e.feedCues x, cue.IsData := by
  intro cue mem
  cases x with
  | message bytes =>
      rw [feedCues, rawCues] at mem
      cases parsed : Midi.ChannelMessage.ofBytes? bytes with
      | none =>
          rw [parsed] at mem
          exact absurd mem List.not_mem_nil
      | some m =>
          rw [parsed] at mem
          exact isData_channelCues e m cue mem
  | file bytes =>
      rw [feedCues] at mem
      split at mem
      · obtain ⟨s, -, own⟩ := List.mem_flatMap.mp mem
        cases event : s.event with
        | message m =>
            rw [event] at own
            exact isData_channelCues e m cue own
        | tempo micros =>
            rw [event] at own
            cases List.mem_singleton.mp own
            exact ⟨Cue.noConfusion, fun v velocity => absurd velocity (by simp [Cue.velocity?])⟩
        | other =>
            rw [event] at own
            exact absurd own List.not_mem_nil
      · exact absurd mem List.not_mem_nil

end Engine

/-- Only data levels circulate. Whatever messages and files are fed to the engine of a bank, the
velocities in the memory and those of all releases that a pedal holds back are data levels; so
are the values of all attacks and releases that are reported. What is fed comes down to cues that
the memory is told, and each layer is what it makes of the events that it is told in turn: the
velocities of both are data levels as well, and lie between zero and one. -/
theorem only_data_levels_circulate (b : Bank) (draws : KeyStream) (fed : List Engine.Feed) :
    let start := Engine.ofBank b draws
    let e := (start.feedAll fed).1
    let cues := fed.flatMap start.feedCues
    (∀ n, IsDataLevel (e.memory.velocity n)) ∧ IsDataLevel e.memory.lastVelocity ∧
      (∀ l ∈ e.layers, ∀ r ∈ l.sustained.toList ++ l.caught.toList, IsDataLevel r.velocity) ∧
      (∀ t ∈ (start.feedAll fed).2, t.report.kind = .attack ∨ t.report.kind = .release →
        IsDataLevel t.report.value) ∧
      start.feedAll fed = start.follow cues ∧
      (∀ cue ∈ cues, ∀ v ∈ cue.velocity?, IsDataLevel v ∧ 0 ≤ v ∧ v ≤ 1) ∧
      ∀ i, e.layers[i]? = b.layers[i]?.map (fun s =>
          (Layer.initial s).run (start.toldAlong i cues)) ∧
        ∀ event ∈ start.toldAlong i cues, ∀ v ∈ event.velocity?,
          IsDataLevel v ∧ 0 ≤ v ∧ v ≤ 1 := by
  intro start e cues
  have data : ∀ cue ∈ cues, cue.IsData := by
    intro cue mem
    obtain ⟨x, -, own⟩ := List.mem_flatMap.mp mem
    exact start.isData_feedCues x cue own
  have followed : start.feedAll fed = start.follow cues := start.feedAll_eq_follow fed
  obtain ⟨leveled, reports, told⟩ := (Engine.leveled_ofBank b draws).follow data
  have here : e = (start.follow cues).1 := congrArg Prod.fst followed
  rw [here, followed]
  refine ⟨leveled.memory.velocity, leveled.memory.lastVelocity, leveled.held, ?_, rfl, ?_, ?_⟩
  · intro t mem note
    refine reports t mem fun other => ?_
    rw [other] at note
    exact note.elim TriggerKind.noConfusion TriggerKind.noConfusion
  · intro cue mem v velocity
    have level := (data cue mem).2 v velocity
    exact ⟨level, level.isLevel⟩
  · intro i
    constructor
    · rw [Engine.layer_follow (fun mem => (data _ mem).1 rfl)]
      simp [start, Engine.ofBank, Function.comp_def]
    · intro event mem v velocity
      have level := told i event mem v velocity
      exact ⟨level, level.isLevel⟩

end Voicing
