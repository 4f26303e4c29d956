import Voicing.Proofs.Keyboard
import Mathlib.Data.List.DropRight
import Mathlib.Data.List.Infix

/-!
The memory as a function of its history.

Every reading of the memory is what the last event wrote that writes it, of those since it
was last put to rest. A history is looked at with two words: `Memory.since`, what came after
the last event of a kind, and `Memory.latest`, what the last event gave that gave anything.

* `Memory.run_reading`: a reading that every event writes, puts to rest or leaves alone is
  the latest that was written since the last rest.
* `Memory.noteGate_run`, `Memory.alternate_run`: the two controllers that also depend on what
  was before.
* `memory_recalls_history`: all readings after every run of events.
* `unplayable_notes_are_forgotten`: of notes beyond the keyboard nothing is recalled.
-/

namespace Voicing

namespace Memory

/-! ### Histories -/

/-- What came after the last event that stops. -/
def since (stops : Event → Bool) (history : List Event) : List Event :=
  history.rtakeWhile fun event => !stops event

/-- What the last event gave that gave anything. -/
def latest {α : Type} (value : Event → Option α) (events : List Event) : Option α :=
  (events.filterMap value).getLast?

theorem getLast?_filterMap_concat {α β : Type} (f : α → Option β) (xs : List α) (x : α) :
    ((xs ++ [x]).filterMap f).getLast? = (f x).or (xs.filterMap f).getLast? := by
  rw [List.filterMap_append, List.getLast?_append]
  cases fx : f x <;> simp [fx]

theorem since_concat (stops : Event → Bool) (history : List Event) (event : Event) :
    since stops (history ++ [event]) =
      if stops event then [] else since stops history ++ [event] := by
  unfold since
  rw [List.rtakeWhile_concat]
  cases stops event <;> rfl

theorem latest_concat {α : Type} (value : Event → Option α) (events : List Event) (event : Event) :
    latest value (events ++ [event]) = (value event).or (latest value events) :=
  getLast?_filterMap_concat value events event

theorem latest_map {α β : Type} (value : Event → Option α) (f : α → β) (events : List Event) :
    latest (fun event => (value event).map f) events = (latest value events).map f := by
  unfold latest
  rw [← List.map_filterMap, List.getLast?_map]

theorem run_concat (m : Memory) (history : List Event) (event : Event) :
    m.run (history ++ [event]) = (m.run history).apply event := by
  rw [run_append]
  rfl

/-- A reading that an event puts to rest, writes, or else leaves alone, is the latest that
was written since the last rest. -/
theorem run_reading {α : Type} (read : Memory → α) {rest : α} {stops : Event → Bool}
    {value : Event → Option α} (stopped : stops .reset = true)
    (step : ∀ m event, read (m.apply event) =
      if stops event then rest else (value event).getD (read m))
    (history : List Event) :
    read (initial.run history) = (latest value (since stops history)).getD rest := by
  induction history using List.reverseRecOn with
  | nil => exact (step initial .reset).trans (if_pos stopped)
  | append_singleton history event ih =>
      rw [run_concat, step, since_concat, ih]
      cases stops event with
      | true => rfl
      | false =>
          rw [if_neg Bool.false_ne_true, if_neg Bool.false_ne_true, latest_concat]
          cases value event <;> rfl

/-! ### Readings that are written or rest -/

section Readings

variable (history : List Event) {n : Note} {c : Controller}

theorem velocity_run (key : n.toNat < noteCount) :
    (initial.run history).velocity n =
      (latest (Event.strikes n) (since Event.startsOver history)).getD 0 :=
  run_reading (·.velocity n) rfl (fun m event => m.velocity_apply key event) history

theorem polyAftertouch_run (key : n.toNat < noteCount) :
    (initial.run history).polyAftertouch n =
      (latest (Event.touches n) (since Event.rests history)).getD 0 :=
  run_reading (·.polyAftertouch n) rfl (fun m event => m.polyAftertouch_apply key event) history

theorem last_run :
    (initial.run history).lastNote =
        (latest Event.played (since Event.startsOver history)).map (·.1) ∧
      (initial.run history).lastVelocity =
        ((latest Event.played (since Event.startsOver history)).map (·.2)).getD 0 := by
  have both := run_reading (fun m => (m.lastNote, m.lastVelocity)) rfl
    (fun m event => m.last_apply event) history
  rw [latest_map] at both
  cases last : latest Event.played (since Event.startsOver history) with
  | none =>
      rw [last] at both
      exact Prod.mk.inj both
  | some p =>
      rw [last] at both
      exact Prod.mk.inj both

theorem controller_run (inside : c.toNat < controllerCount)
    (plain : c ≠ .noteGate ∧ c ≠ .alternate) :
    (initial.run history).controller c =
      (latest (Event.written c) (since Event.rests history)).getD 0 :=
  run_reading (·.controller c) rfl (fun m event => m.controller_apply inside plain event) history

/-- The controllers that follow something else are none of the two with rules of their own. -/
theorem plain_of_mem_followers (follower : c ∈ Event.followers) :
    c.toNat < controllerCount ∧ c ≠ .noteGate ∧ c ≠ .alternate := by
  have known : Event.followers.all (fun c =>
      decide (c.toNat < controllerCount ∧ c ≠ .noteGate ∧ c ≠ .alternate)) = true := by decide
  exact of_decide_eq_true (List.all_eq_true.mp known c follower)

/-- Of what is not in its tables a memory knows nothing. -/
theorem readings_beyond (m : Memory) :
    (∀ n : Note, noteCount ≤ n.toNat →
      m.velocity n = 0 ∧ m.isPressed n = false ∧ m.polyAftertouch n = 0) ∧
    ∀ c : Controller, controllerCount ≤ c.toNat → m.controller c = 0 := by
  refine ⟨fun n beyond => ⟨?_, m.isPressed_of_le beyond, ?_⟩, fun c beyond => ?_⟩
  · rw [velocity, Vector.getElem?_eq_none beyond]
    rfl
  · rw [polyAftertouch, Vector.getElem?_eq_none beyond]
    rfl
  · rw [controller, Vector.getElem?_eq_none beyond]
    rfl

end Readings

/-! ### The note gate -/

/-- Whether a note is down, by a history: it was moved last by a note-on. -/
def isDown (history : List Event) (n : Note) : Bool :=
  (latest (Event.moves n) (since Event.startsOver history)).getD false

/-- Whether any key is down, by a history. -/
def anyDown (history : List Event) : Bool := allNotes.any (isDown history)

/-- The value to which the last event of a history sets the note gate, if it sets it. -/
def gateSet (history : List Event) : Option Single :=
  history.getLast?.bind fun
    | .noteOn n _ => if n.toNat < noteCount then some 1 else none
    | .noteOff n _ => if n.toNat < noteCount ∧ anyDown history = false then some 0 else none
    | .controller c v => if c = .noteGate then some v else none
    | .resetControllers => some (if anyDown history then 1 else 0)
    | .reset => some 0
    | _ => none

/-- The value to which the note gate was set last, of all moments of a history. -/
def gateValue (history : List Event) : Single :=
  ((history.inits.filterMap gateSet).getLast?).getD 0

theorem isPressed_run (history : List Event) {n : Note} (key : n.toNat < noteCount) :
    (initial.run history).isPressed n = isDown history n :=
  run_reading (·.isPressed n) rfl (fun m event => m.isPressed_apply key event) history

theorem counted_run (history : List Event) : (initial.run history).Counted :=
  run_keeps (fun _ event _ counted => counted.apply event) counted_initial

theorem anyDown_iff (history : List Event) :
    anyDown history = true ↔ 0 < (initial.run history).held := by
  rw [(counted_run history).held, pressedCount, List.countP_pos_iff, anyDown, List.any_eq_true]
  refine exists_congr fun n => and_congr_right fun mem => ?_
  rw [isPressed_run history ((mem_allNotes n).mp mem)]

theorem gateValue_concat (history : List Event) (event : Event) :
    gateValue (history ++ [event]) = (gateSet (history ++ [event])).getD (gateValue history) := by
  have moments : (history ++ [event]).inits = history.inits ++ [history ++ [event]] := by simp
  unfold gateValue
  rw [moments, getLast?_filterMap_concat]
  cases gateSet (history ++ [event]) <;> rfl

/-- The note gate is at the value to which it was set last. -/
theorem noteGate_run (history : List Event) :
    (initial.run history).controller .noteGate = gateValue history := by
  induction history using List.reverseRecOn with
  | nil => rfl
  | append_singleton history event ih =>
      have down := anyDown_iff (history ++ [event])
      rw [run_concat] at down
      rw [run_concat, noteGate_apply, gateValue_concat, ← ih]
      unfold gateSet
      rw [List.getLast?_concat]
      dsimp only [Option.bind_some]
      cases event with
      | noteOn n v =>
          dsimp only
          split <;> rfl
      | noteOff n v =>
          have up : anyDown (history ++ [.noteOff n v]) = false ↔
              ((initial.run history).apply (.noteOff n v)).held = 0 := by
            rw [← Bool.not_eq_true, down, Nat.pos_iff_ne_zero, not_not]
          simp only [up]
          split <;> rfl
      | controller c v =>
          dsimp only
          split <;> rfl
      | resetControllers =>
          rw [held_apply] at down
          simp only [down]
          rfl
      | _ => rfl

/-! ### The alternating controller -/

/-- An event that puts the alternating controller to rest or sets it by its number. -/
def Event.setsAlternate (event : Event) : Bool := event.rests || (event.sent .alternate).isSome

/-- The alternating controller has been flipped by every note played since it was set last. -/
theorem alternate_run (history : List Event) :
    (initial.run history).controller .alternate =
      Nat.repeat flipped
        ((since Event.setsAlternate history).countP fun event => event.played.isSome)
        ((latest (Event.sent .alternate) (since Event.rests history)).getD 0) := by
  induction history using List.reverseRecOn with
  | nil => rfl
  | append_singleton history event ih =>
      rw [run_concat, alternate_apply, ih, since_concat, since_concat]
      unfold Event.setsAlternate
      cases event with
      | noteOn n v =>
          by_cases key : n.toNat < noteCount
          · simp [Event.rests, Event.played, Event.sent, latest_concat, Nat.repeat, key]
          · simp [Event.rests, Event.played, Event.sent, latest_concat, key]
      | controller c v =>
          by_cases own : c = .alternate
          · simp [Event.rests, Event.played, Event.sent, latest_concat, Nat.repeat, own]
          · simp [Event.rests, Event.played, Event.sent, latest_concat, own]
      | resetControllers => rfl
      | reset => rfl
      | _ => simp [Event.rests, Event.played, Event.sent, latest_concat]

end Memory

/-- Every reading of the memory after a run of events is what the run wrote last. Of a note
of the keyboard: its velocity, whether it is down, and its aftertouch; of the whole keyboard:
the last note and its velocity; the bend and the channel aftertouch; and the controllers,
which are written by their number and some of them by what they follow. -/
theorem memory_recalls_history (history : List Memory.Event) :
    let m := Memory.initial.run history
    let sinceStart := Memory.since Memory.Event.startsOver history
    let sinceRest := Memory.since Memory.Event.rests history
    (∀ n : Note, n.toNat < noteCount →
      m.velocity n = (Memory.latest (Memory.Event.strikes n) sinceStart).getD 0 ∧
      (m.isPressed n = true ↔ Memory.latest (Memory.Event.moves n) sinceStart = some true) ∧
      m.polyAftertouch n = (Memory.latest (Memory.Event.touches n) sinceRest).getD 0) ∧
    (∀ n : Note, noteCount ≤ n.toNat →
      m.velocity n = 0 ∧ m.isPressed n = false ∧ m.polyAftertouch n = 0) ∧
    (m.lastNote = (Memory.latest Memory.Event.played sinceStart).map (·.1) ∧
      m.lastVelocity = ((Memory.latest Memory.Event.played sinceStart).map (·.2)).getD 0) ∧
    (m.bend = (Memory.latest Memory.Event.bends sinceRest).getD 0 ∧
      m.aftertouch = (Memory.latest Memory.Event.touchesAll sinceRest).getD 0) ∧
    (∀ c : Controller, c.toNat < controllerCount → c ∉ Memory.Event.followers →
      c ≠ .noteGate → c ≠ .alternate →
      m.controller c = (Memory.latest (Memory.Event.sent c) sinceRest).getD 0) ∧
    (∀ c ∈ Memory.Event.followers,
      m.controller c = (Memory.latest (Memory.Event.written c) sinceRest).getD 0) ∧
    m.controller .noteGate = Memory.gateValue history ∧
    m.controller .alternate =
      Nat.repeat Memory.flipped
        ((Memory.since Memory.Event.setsAlternate history).countP fun event => event.played.isSome)
        ((Memory.latest (Memory.Event.sent .alternate) sinceRest).getD 0) ∧
    (∀ c : Controller, controllerCount ≤ c.toNat → m.controller c = 0) := by
  intro m sinceStart sinceRest
  have beyond := m.readings_beyond
  refine ⟨?_, beyond.1, Memory.last_run history, ⟨?_, ?_⟩, ?_, ?_, Memory.noteGate_run history,
    Memory.alternate_run history, beyond.2⟩
  · intro n key
    refine ⟨Memory.velocity_run history key, ?_, Memory.polyAftertouch_run history key⟩
    rw [Memory.isPressed_run history key, Memory.isDown]
    cases Memory.latest (Memory.Event.moves n) sinceStart <;> simp
  · exact Memory.run_reading Memory.bend rfl Memory.bend_apply history
  · exact Memory.run_reading Memory.aftertouch rfl Memory.aftertouch_apply history
  · intro c inside other notGate notAlternate
    have own : Memory.Event.written c = Memory.Event.sent c :=
      funext (Memory.Event.written_of_not_mem other)
    rw [Memory.controller_run history inside ⟨notGate, notAlternate⟩, own]
  · intro c follower
    obtain ⟨inside, plain⟩ := Memory.plain_of_mem_followers follower
    exact Memory.controller_run history inside plain

/-- Two notes, one of them let go, with all controllers put to rest in between; the
controllers that follow the keys are also sent by their numbers. -/
def rehearsal : List Memory.Event :=
  [.noteOn 60 0.5, .controller 1 0.25, .noteOff 60 0.25, .polyAftertouch 127 0.75,
    .resetControllers, .noteOn 127 1, .controller 131 0.75, .controller 137 0.5,
    .noteOff 200 0.75, .controller 511 0.5, .bend 0.25]

theorem rehearsal_is_recalled :
    let m := Memory.initial.run rehearsal
    m.velocity 60 = 0.5 ∧ m.isPressed 127 = true ∧ m.polyAftertouch 127 = 0 ∧
      m.lastNote = some 127 ∧ m.bend = 0.25 ∧ m.controller 1 = 0 ∧ m.controller 511 = 0.5 ∧
      m.controller 128 = 0.625 ∧ m.controller 131 = 0.75 ∧ m.controller 132 = 0 ∧
      m.controller 133 = 1 ∧ m.controller 134 = 1 ∧ m.controller 137 = 0.5 := by
  intro m
  obtain ⟨notes, -, ⟨last, -⟩, ⟨bend, -⟩, sent, written, gate, alternate, -⟩ :=
    memory_recalls_history rehearsal
  obtain ⟨struck, -, -⟩ := notes 60 (by decide)
  obtain ⟨-, down, untouched⟩ := notes 127 (by decide)
  have wheel := sent 1 (by decide) (by decide) (by decide) (by decide)
  have highest := sent 511 (by decide) (by decide) (by decide) (by decide)
  have bent := written 128 (by decide)
  have on := written 131 (by decide)
  have off := written 132 (by decide)
  have number := written 133 (by decide)
  refine ⟨struck.trans ?_, down.mpr ?_, untouched.trans ?_, last.trans ?_, bend.trans ?_,
    wheel.trans ?_, highest.trans ?_, bent.trans ?_, on.trans ?_, off.trans ?_, number.trans ?_,
    gate.trans ?_, alternate.trans ?_⟩
  all_goals decide +kernel

/-- Of a note beyond the keyboard nothing is recalled, although it was struck and not let go. -/
theorem unplayable_notes_are_forgotten :
    let history : List Memory.Event := [.noteOn 200 0.5]
    let m := Memory.initial.run history
    m.velocity 200 ≠ (Memory.latest (Memory.Event.strikes 200)
      (Memory.since Memory.Event.startsOver history)).getD 0 ∧
    ¬ (m.isPressed 200 = true ↔ Memory.latest (Memory.Event.moves 200)
      (Memory.since Memory.Event.startsOver history) = some true) := by
  intro history m
  refine ⟨by decide +kernel, ?_⟩
  intro recalled
  exact absurd (recalled.mpr rfl) (Bool.eq_false_iff.mp (m.isPressed_of_le (by decide)))

end Voicing
