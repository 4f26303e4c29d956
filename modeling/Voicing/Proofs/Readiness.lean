import Voicing.Proofs.Turns

/-!
When a layer is ready.

A layer is ready while all its gates are open. The gates keep their positions until an event
of their kind moves them, so that only the last event of each kind counts, and before the
first of them the position the gate had at the start. `Settings.OpenAfter` says for each gate
what the last event must have been like.

* `Layer.isOpen_step_of_not_canMove`: an event moves no gate but those of its kind.
* `Layer.isOpen_run_iff`: each gate, after any events.
* `Layer.isReady_iff_last_of_each_kind`: all gates together.
-/

namespace Voicing

/-- The gates of a layer, one by one. -/
inductive Gate where
  | key
  | previousKey
  | sequence
  | bend
  | tempo
  | aftertouch
  | controller (number : Controller)
deriving DecidableEq

namespace Gates

/-- Whether a gate is open. -/
def isOpen (g : Gates) : Gate → Bool
  | .key => g.key
  | .previousKey => g.previousKey
  | .sequence => g.sequence
  | .bend => g.bend
  | .tempo => g.tempo
  | .aftertouch => g.aftertouch
  | .controller c => g.controllers.isOpen c

theorem areOpen_iff_isOpen {g : Gates} : g.areOpen = true ↔ ∀ gate, g.isOpen gate = true := by
  unfold areOpen
  simp only [Bool.and_eq_true, ControllerGates.areOpen_iff]
  constructor
  · rintro ⟨⟨⟨⟨⟨⟨key, previousKey⟩, sequence⟩, bend⟩, tempo⟩, aftertouch⟩, controllers⟩ gate
    cases gate with
    | controller c => exact controllers c
    | _ => assumption
  · intro all
    exact ⟨⟨⟨⟨⟨⟨all .key, all .previousKey⟩, all .sequence⟩, all .bend⟩, all .tempo⟩,
      all .aftertouch⟩, fun c => all (.controller c)⟩

end Gates

/-! ### What events tell the gates -/

namespace Layer.Event

/-- The gates that events of a kind can move. The sequence gate moves with a turn, which a
note or a controller can take. -/
def canMove : Event → Gate → Bool
  | .switchKeys _ _, .key | .switchKeys _ _, .previousKey => true
  | .noteOn _ _ _ _, .sequence | .noteOff _ _ _ _, .sequence | .controller _ _ _, .sequence => true
  | .controller _ c _, .controller d => c == d && decide (c.toNat < controllerCount)
  | .bend _, .bend => true
  | .aftertouch _, .aftertouch => true
  | .tempo _, .tempo => true
  | _, _ => false

/-- The note of a note-on, if it is one of the layer's key switches. -/
def keyswitch? (s : Settings) : Event → Option Note
  | .switchKeys n _ => if (s.keyswitches.map (·.includes n)).getD true then some n else none
  | _ => none

/-- The note before a note-on, if there was one. -/
def previous? : Event → Option (Option Note)
  | .switchKeys _ previous => some previous
  | _ => none

/-- How long a beat lasts from now on. -/
def tempo? : Event → Option Single
  | .tempo seconds => some seconds
  | _ => none

end Layer.Event

/-- The last that events tell, if they tell anything. -/
def lastTold {α : Type} (told : Layer.Event → Option α) (events : List Layer.Event) : Option α :=
  (events.filterMap told).getLast?

/-- What opens a gate. `turn?` is the number of the last turn, the first being zero. -/
def Settings.OpenAfter (s : Settings) (turn? : Option Nat) (events : List Layer.Event) :
    Gate → Prop
  | .key => ∀ wanted, s.keyswitch = some wanted →
      lastTold (Layer.Event.keyswitch? s) events = some wanted
  | .previousKey => ∀ wanted, s.previousKey = some wanted →
      lastTold Layer.Event.previous? events = some (some wanted)
  | .sequence =>
    match turn? with
    | none => s.sequenceLength = 1 ∧ s.sequencePosition = 1
    | some k =>
      1 ≤ s.sequencePosition.toNat ∧
        k % max s.sequenceLength.toNat 1 = s.sequencePosition.toNat - 1
  | .bend => ∀ v, lastTold Control.bend.toldBy events = some v → s.bends.includes v = true
  | .tempo => ∀ seconds, lastTold Layer.Event.tempo? events = some seconds →
      s.tempi.includes (60 / seconds) = true
  | .aftertouch => ∀ v, lastTold Control.aftertouch.toldBy events = some v →
      s.aftertouches.includes v = true
  | .controller c => c.toNat < controllerCount →
      ∀ v, lastTold (Control.controller c).toldBy events = some v →
        ∀ range, FirstListed s.conditions c range → range.includes v = true

namespace Layer

variable (l : Layer)

/-! ### One event -/

theorem isOpen_gatesOnTurn {gate : Gate} (other : gate ≠ .sequence) :
    l.gatesOnTurn.isOpen gate = l.gates.isOpen gate := by
  cases gate with
  | sequence => exact absurd rfl other
  | _ => rfl

/-- A turn is taken by an event that can take one. -/
theorem canMove_sequence_of_qualifies {event : Event} (qualifies : l.qualifies event = true) :
    event.canMove .sequence = true := by
  cases event <;> first | rfl | exact absurd qualifies Bool.false_ne_true

/-- An event moves no gate but those of its kind. -/
theorem isOpen_step_of_not_canMove {event : Event} {gate : Gate}
    (still : event.canMove gate = false) :
    (l.step event).1.gates.isOpen gate = l.gates.isOpen gate := by
  by_cases sequence : gate = .sequence
  · subst sequence
    refine (l.sequence_step event).trans (if_neg ?_)
    intro qualifies
    rw [l.canMove_sequence_of_qualifies qualifies] at still
    exact Bool.noConfusion still
  · rw [← isOpen_gatesOnTurn _ sequence, ← isOpen_gatesOnTurn l sequence, l.gatesOnTurn_step]
    cases event with
    | controller m c v =>
        cases gate with
        | controller d =>
            refine (ControllerGates.isOpen_set _ c d _).trans (if_neg ?_)
            rintro ⟨rfl, inside⟩
            simp [Event.canMove, inside] at still
        | _ => rfl
    | _ => cases gate <;> first | rfl | exact Bool.noConfusion still

section Keys

variable {l : Layer}

/-- The key gate of a layer that waits for a key switch. -/
theorem key_step {wanted : Note} (waits : l.settings.keyswitch = some wanted) (event : Event) :
    (l.step event).1.gates.key =
      ((event.keyswitch? l.settings).map (· == wanted)).getD l.gates.key := by
  refine (congrArg Gates.key (l.gatesOnTurn_step event)).trans ?_
  cases event with
  | switchKeys n previous =>
      simp only [switchKeys, waits, gatesOnTurn, Event.keyswitch?]
      split <;> rfl
  | _ => rfl

theorem key_step_of_none (free : l.settings.keyswitch = none) (event : Event) :
    (l.step event).1.gates.key = l.gates.key := by
  refine (congrArg Gates.key (l.gatesOnTurn_step event)).trans ?_
  cases event with
  | switchKeys n previous => simp only [switchKeys, free, gatesOnTurn]
  | _ => rfl

theorem previousKey_step {wanted : Note} (waits : l.settings.previousKey = some wanted)
    (event : Event) :
    (l.step event).1.gates.previousKey =
      (event.previous?.map (· == some wanted)).getD l.gates.previousKey := by
  refine (congrArg Gates.previousKey (l.gatesOnTurn_step event)).trans ?_
  cases event with
  | switchKeys n previous =>
      simp only [switchKeys, waits, gatesOnTurn]
      rfl
  | _ => rfl

theorem previousKey_step_of_none (free : l.settings.previousKey = none) (event : Event) :
    (l.step event).1.gates.previousKey = l.gates.previousKey := by
  refine (congrArg Gates.previousKey (l.gatesOnTurn_step event)).trans ?_
  cases event with
  | switchKeys n previous => simp only [switchKeys, free, gatesOnTurn]
  | _ => rfl

end Keys

theorem tempo_step (event : Event) :
    (l.step event).1.gates.tempo =
      (event.tempo?.map fun seconds => l.settings.tempi.includes (60 / seconds)).getD
        l.gates.tempo := by
  refine (congrArg Gates.tempo (l.gatesOnTurn_step event)).trans ?_
  cases event <;> rfl

/-! ### Runs -/

/-- The number of the last turn that a run of events takes, the first being zero. -/
def lastTurn? (events : List Event) : Option Nat :=
  match l.turnsTaken events with
  | 0 => none
  | k + 1 => some k

/-- What no event moves is where it was. -/
theorem run_of_kept {β : Type} {s : Settings} (observed : Layer → β)
    (step : ∀ l : Layer, l.settings = s → ∀ event, observed (l.step event).1 = observed l)
    (l : Layer) (settings : l.settings = s) (events : List Event) :
    observed (l.run events) = observed l := by
  induction events generalizing l with
  | nil => rfl
  | cons event events ih =>
      rw [run_cons, ih _ ((l.settings_step event).trans settings), step l settings]

/-- A gate that is open at the start stays so unless the last value closes it. -/
theorem getD_map_true_iff {α : Type} {last : Option α} {includes : α → Bool} :
    (last.map includes).getD true = true ↔ ∀ v, last = some v → includes v = true := by
  cases last <;> simp

/-- A gate that is closed at the start opens with the wanted value. -/
theorem getD_map_false_iff {α : Type} [BEq α] [LawfulBEq α] {last : Option α} {wanted : α} :
    (last.map (· == wanted)).getD false = true ↔ last = some wanted := by
  cases last <;> simp

section Start

variable (s : Settings) (turn? : Option Nat) (events : List Event)

theorem key_run_iff :
    ((initial s).run events).gates.key = true ↔ s.OpenAfter turn? events .key := by
  unfold Settings.OpenAfter
  cases waits : s.keyswitch with
  | none =>
      have kept := run_of_kept (·.gates.key)
        (fun l same event => key_step_of_none (l := l) (by rw [same, ← waits]; rfl) event)
        (initial s) rfl events
      have start : (initial s).gates.key = true := by simp [initial, Settings.usesKeyswitch, waits]
      rw [kept, start]
      simp
  | some wanted =>
      have run := run_of_last_told (·.gates.key)
        (fun l same event => same ▸ key_step (l := l) (by rw [same, ← waits]; rfl) event)
        (initial s) rfl events
      have start : (initial s).gates.key = false := by
        simp [initial, Settings.usesKeyswitch, waits]
      rw [run, start]
      refine getD_map_false_iff.trans ⟨?_, fun last => last wanted rfl⟩
      rintro last _ ⟨⟩
      exact last

theorem previousKey_run_iff :
    ((initial s).run events).gates.previousKey = true ↔
      s.OpenAfter turn? events .previousKey := by
  unfold Settings.OpenAfter
  cases waits : s.previousKey with
  | none =>
      have kept := run_of_kept (·.gates.previousKey)
        (fun l same event => previousKey_step_of_none (l := l) (by rw [same, ← waits]; rfl) event)
        (initial s) rfl events
      have start : (initial s).gates.previousKey = true := by
        simp [initial, Settings.usesPreviousKey, waits]
      rw [kept, start]
      simp
  | some wanted =>
      have run := run_of_last_told (·.gates.previousKey)
        (fun l same event => previousKey_step (l := l) (by rw [same, ← waits]; rfl) event)
        (initial s) rfl events
      have start : (initial s).gates.previousKey = false := by
        simp [initial, Settings.usesPreviousKey, waits]
      rw [run, start]
      refine getD_map_false_iff.trans ⟨?_, fun last => last wanted rfl⟩
      rintro last _ ⟨⟩
      exact last

theorem tempo_run_iff :
    ((initial s).run events).gates.tempo = true ↔ s.OpenAfter turn? events .tempo := by
  have run := run_of_last_told (·.gates.tempo)
    (fun l same event => same ▸ l.tempo_step event) (initial s) rfl events
  rw [run]
  exact getD_map_true_iff

theorem bend_run_iff :
    ((initial s).run events).gates.bend = true ↔ s.OpenAfter turn? events .bend := by
  have run := Follower.bend.position_run (initial s) events
  exact (Bool.eq_iff_iff.mp run).trans getD_map_true_iff

theorem aftertouch_run_iff :
    ((initial s).run events).gates.aftertouch = true ↔
      s.OpenAfter turn? events .aftertouch := by
  have run := Follower.aftertouch.position_run (initial s) events
  exact (Bool.eq_iff_iff.mp run).trans getD_map_true_iff

theorem controller_run_iff (c : Controller) :
    ((initial s).run events).gates.controllers.isOpen c = true ↔
      s.OpenAfter turn? events (.controller c) := by
  by_cases inside : c.toNat < controllerCount
  · have run := (Follower.gate c inside).position_run (initial s) events
    have start : (Follower.gate c inside).position (initial s) = true :=
      ControllerGates.isOpen_allOpen c
    rw [start] at run
    refine (Bool.eq_iff_iff.mp run).trans (getD_map_true_iff.trans ?_)
    simp only [Follower.wanted_gate_iff inside]
    exact ⟨fun last _ => last, fun last => last inside⟩
  · have beyond : ((initial s).run events).gates.controllers.isOpen c = true := if_neg inside
    simp [beyond, Settings.OpenAfter, inside]

end Start

/-- The sequence gate, as the settings read and with the turns counted in 64 bits. -/
theorem owns_iff {s : Settings} {turn : UInt64} :
    s.owns turn = true ↔ 1 ≤ s.sequencePosition.toNat ∧
      turn.toNat % max s.sequenceLength.toNat 1 = s.sequencePosition.toNat - 1 := by
  unfold Settings.owns Settings.roundLength
  rw [beq_iff_eq]
  omega

theorem sequence_run_iff (s : Settings) (events : List Event) :
    ((initial s).run events).gates.sequence = true ↔
      s.OpenAfter (((initial s).lastTurn? events).map (· % UInt64.size)) events .sequence := by
  rw [sequence_run]
  unfold lastTurn?
  cases (initial s).turnsTaken events with
  | zero => simp [sequenceAfter, initial, Settings.usesSequence, Settings.OpenAfter]
  | succ k =>
      have number : ((initial s).turns + UInt64.ofNat k).toNat = k % UInt64.size := by
        rw [show (initial s).turns = 0 from rfl, UInt64.zero_add]
        exact UInt64.toNat_ofNat
      refine owns_iff.trans ?_
      rw [number]
      rfl

/-- Each gate after any events. -/
theorem isOpen_run_iff (s : Settings) (events : List Event) (gate : Gate) :
    ((initial s).run events).gates.isOpen gate = true ↔
      s.OpenAfter (((initial s).lastTurn? events).map (· % UInt64.size)) events gate := by
  cases gate with
  | key => exact key_run_iff s _ events
  | previousKey => exact previousKey_run_iff s _ events
  | sequence => exact sequence_run_iff s events
  | bend => exact bend_run_iff s _ events
  | tempo => exact tempo_run_iff s _ events
  | aftertouch => exact aftertouch_run_iff s _ events
  | controller c => exact controller_run_iff s _ events c

/-- The counter has not come round: the number of the last turn is what it counts. -/
theorem lastTurn?_mod (s : Settings) {events : List Event}
    (few : (initial s).turnsTaken events ≤ UInt64.size) :
    ((initial s).lastTurn? events).map (· % UInt64.size) = (initial s).lastTurn? events := by
  unfold lastTurn?
  cases taken : (initial s).turnsTaken events with
  | zero => rfl
  | succ k =>
      rw [taken] at few
      have small : k < UInt64.size := Nat.lt_of_succ_le few
      exact congrArg some (Nat.mod_eq_of_lt small)

/-- A layer is ready exactly if the last event of each kind opened its gate. The turns are
numbered by a counter of 64 bits, so the number of a turn is exact until the counter comes
round. No event moves a gate that is not of its kind, and controllers beyond those that are
remembered have no gate to move. -/
theorem isReady_iff_last_of_each_kind (s : Settings) (events : List Event) :
    (((initial s).run events).isReady = true ↔
      ∀ gate, s.OpenAfter (((initial s).lastTurn? events).map (· % UInt64.size)) events gate) ∧
    ((initial s).turnsTaken events ≤ UInt64.size →
      (((initial s).run events).isReady = true ↔
        ∀ gate, s.OpenAfter ((initial s).lastTurn? events) events gate)) ∧
    (∀ (l : Layer) (event : Event) (gate : Gate), event.canMove gate = false →
      (l.step event).1.gates.isOpen gate = l.gates.isOpen gate) := by
  have ready : ((initial s).run events).isReady = true ↔
      ∀ gate, s.OpenAfter (((initial s).lastTurn? events).map (· % UInt64.size)) events gate :=
    Gates.areOpen_iff_isOpen.trans (forall_congr' (isOpen_run_iff s events))
  refine ⟨ready, fun few => ?_, fun l event gate => isOpen_step_of_not_canMove l⟩
  rw [lastTurn?_mod s few] at ready
  exact ready

/-- The second of two voices, which waits for a key switch, for the upper half of the
modulation wheel and for the lower half of the last controller. A further entry for the wheel
comes too late to count, and the one after the last controller is never remembered. -/
def secondVoice : Settings :=
  { conditions := [⟨1, ⟨0.5, 1⟩⟩, ⟨1, ⟨0, 0.25⟩⟩, ⟨511, ⟨0, 0.5⟩⟩, ⟨512, ⟨1, 1⟩⟩],
    sequenceLength := 2, sequencePosition := 2,
    keyswitch := some 24, keyswitches := some ⟨24, 25⟩ }

/-- The wheel goes up, and the key switch is played, then two other notes. -/
def afterTwoTurns : List Event :=
  [.controller .initial 1 0.75, .controller .initial 511 0.25, .controller .initial 512 0,
    .switchKeys 24 none, .switchKeys 60 (some 24), .noteOn .initial 60 1 0,
    .switchKeys 62 (some 60), .noteOn .initial 62 1 0]

/-- The layer is ready then, and no more once the wheel has gone down or the last controller
up. -/
theorem isReady_secondVoice :
    ((initial secondVoice).run afterTwoTurns).isReady = true ∧
      (∀ gate, secondVoice.OpenAfter (some 1) afterTwoTurns gate) ∧
      ((initial secondVoice).run (afterTwoTurns ++ [.controller .initial 1 0.125])).isReady =
        false ∧
      ((initial secondVoice).run (afterTwoTurns ++ [.controller .initial 511 0.75])).isReady =
        false ∧
      ((initial secondVoice).run (afterTwoTurns ++ [.bend 0])).gates.isOpen .key = true := by
  have ready : ((initial secondVoice).run afterTwoTurns).isReady = true := by decide +kernel
  obtain ⟨-, exact_, still⟩ := isReady_iff_last_of_each_kind secondVoice afterTwoTurns
  refine ⟨ready, (exact_ (by decide)).mp ready, by decide +kernel, by decide +kernel, ?_⟩
  rw [run_append]
  exact (still _ (.bend 0) .key rfl).trans (by decide)

end Layer

end Voicing
