import Voicing.Proofs.Entries
import Voicing.Proofs.Recall
import Voicing.Proofs.Willing

/-!
Positions that follow the instrument.

A *control* is what a player moves on the instrument: a controller, the bend wheel or the
channel aftertouch. The memory keeps the value of a control; a layer keeps the positions
that it took when it was told the value: gates and pedals. A `Follower` is such a position,
with the control that it follows and where it is wanted at a value.

* `Follower.position_run`: after any events a position is where the last value that the
  layer was told puts it.
* `Follower.position_answer`: of all cues only those that set its control move it.
* `Follower.Agrees.answer`: once position and memory agree, no cue but a new start parts
  them, if the control is one of MIDI's.
* `Engine.agrees_follow`: so they agree as long as the control is known.
-/

namespace Voicing

/-! ### Controls -/

/-- What a player moves on the instrument, as far as layers are told of it. -/
inductive Control where
  | controller (number : Controller)
  | bend
  /-- The channel aftertouch. -/
  | aftertouch
deriving DecidableEq

namespace Control

/-- The value of a control as the memory has it. -/
def reading (m : Memory) : Control → Single
  | .controller c => m.controller c
  | .bend => m.bend
  | .aftertouch => m.aftertouch

/-- A control that goes to zero when all controllers are put to rest. -/
def Rests : Control → Prop
  | .controller c => c.toNat < controllerCount
  | .bend | .aftertouch => True

/-- A control that is set by its own messages and by rest only. The controllers from 128 on
follow what is played. -/
def IsMidi : Control → Prop
  | .controller c => c.toNat < 128
  | .bend | .aftertouch => True

instance (k : Control) : Decidable k.Rests := by
  cases k <;> unfold Rests <;> infer_instance

/-- The value to which a cue sets a control, if it sets it. -/
def setBy (k : Control) : Cue → Option Single
  | .controller c v => if k = .controller c then some v else none
  | .bend v => if k = .bend then some v else none
  | .aftertouch v => if k = .aftertouch then some v else none
  | .rest => if k.Rests then some 0 else none
  | _ => none

/-- The value of a control that an event tells a layer, if it tells it. -/
def toldBy (k : Control) : Layer.Event → Option Single
  | .controller _ c v => if k = .controller c then some v else none
  | .bend v => if k = .bend then some v else none
  | .aftertouch v => if k = .aftertouch then some v else none
  | _ => none

/-- A control is known if a cue has set it and nothing has started over since. -/
def Known (k : Control) (heard : List Cue) : Prop :=
  ∃ before cue after, heard = before ++ cue :: after ∧ (k.setBy cue).isSome ∧
    Cue.startOver ∉ after

/-! ### The memory of a control -/

theorem wheels_resetControllers (m : Memory) :
    m.resetControllers.bend = 0 ∧ m.resetControllers.aftertouch = 0 :=
  ⟨m.bend_apply .resetControllers, m.aftertouch_apply .resetControllers⟩

variable {k : Control} {m : Memory}

/-- The memory keeps the value to which a control of MIDI was set last. -/
theorem reading_remembered (midi : k.IsMidi) {cue : Cue} (going : cue ≠ .startOver) :
    k.reading (m.run cue.remembered) = (k.setBy cue).getD (k.reading m) := by
  cases k with
  | controller c =>
      have inside : (Control.controller c).Rests := Nat.lt_trans midi (by decide)
      refine (Memory.controller_remembered m midi cue).trans ?_
      cases cue with
      | controller d v =>
          by_cases same : c = d
          · simp [Cue.valueAfter, setBy, same]
          · simp [Cue.valueAfter, setBy, reading, same, Ne.symm same]
      | rest => simp [Cue.valueAfter, setBy, inside]
      | startOver => exact absurd rfl going
      | _ => rfl
  | bend =>
      cases cue with
      | noteOn n v => exact m.bend_apply (.noteOn n v)
      | noteOff n v => exact m.bend_apply (.noteOff n v)
      | polyAftertouch n v => exact m.bend_apply (.polyAftertouch n v)
      | rest => exact (wheels_resetControllers m).1
      | startOver => exact absurd rfl going
      | _ => rfl
  | aftertouch =>
      cases cue with
      | noteOn n v => exact m.aftertouch_apply (.noteOn n v)
      | noteOff n v => exact m.aftertouch_apply (.noteOff n v)
      | polyAftertouch n v => exact m.aftertouch_apply (.polyAftertouch n v)
      | rest => exact (wheels_resetControllers m).2
      | startOver => exact absurd rfl going
      | _ => rfl

end Control

/-! ### What a layer is told -/

namespace Layer

variable (l : Layer) (m : Memory) (n : Note) (v r : Single)

theorem gatesOnTurn_noteOn : (l.noteOn m n v r).1.gatesOnTurn = l.gatesOnTurn := by
  unfold noteOn
  split <;> rfl

/-- The gates after an event, as they are on the layer's own turn: each gate is moved by
the events of its kind, and by no other. -/
theorem gatesOnTurn_step (event : Event) :
    (l.step event).1.gatesOnTurn =
      match event with
      | .switchKeys n previous => (l.switchKeys n previous).gatesOnTurn
      | .controller _ c v =>
        { l.gatesOnTurn with controllers := l.gates.controllers.set c (l.meetsCondition c v) }
      | .bend v => { l.gatesOnTurn with bend := l.settings.bends.includes v }
      | .aftertouch v => { l.gatesOnTurn with aftertouch := l.settings.aftertouches.includes v }
      | .tempo s => { l.gatesOnTurn with tempo := l.settings.tempi.includes (60 / s) }
      | _ => l.gatesOnTurn := by
  cases event with
  | noteOn m n v r => exact gatesOnTurn_noteOn l m n v r
  | noteOff m n v r => exact gatesOnTurn_noteOff l m n v r
  | controller m c v => exact gatesOnTurn_controller l m v c
  | _ => rfl

theorem gatesOnTurn_releaseLifted (wasDown : Bool) (draws : KeyStream) :
    (l.releaseLifted m wasDown draws).layer.gatesOnTurn = l.gatesOnTurn :=
  releaseLifted_keeps (P := fun k => k.gatesOnTurn = l.gatesOnTurn) m
    (fun k n v r same => (k.gatesOnTurn_noteOff m n v r).trans same) wasDown draws rfl rfl

/-- What a layer is told when all controllers are put to rest. -/
def restEvents (m : Memory) : List Event :=
  .bend 0 :: .aftertouch 0 :: allControllers.map (Event.controller m · 0)

theorem rest_eq_run : l.rest m = l.run (restEvents m) := by
  unfold rest run restEvents
  rw [List.foldl_cons, List.foldl_cons, List.foldl_map]
  rfl

/-- What each event puts where it is wanted at a value that it tells, or else leaves alone, is
after any events where the last value puts it. -/
theorem run_of_last_told {α β : Type} {s : Settings} (observed : Layer → β)
    {told : Event → Option α} {wanted : α → β}
    (step : ∀ l : Layer, l.settings = s → ∀ event, observed (l.step event).1 =
      ((told event).map wanted).getD (observed l))
    (l : Layer) (settings : l.settings = s) (events : List Event) :
    observed (l.run events) =
      (((events.filterMap told).getLast?).map wanted).getD (observed l) := by
  induction events generalizing l with
  | nil => rfl
  | cons event events ih =>
      have moved := step l settings event
      rw [run_cons, ih _ ((l.settings_step event).trans settings), List.filterMap_cons]
      cases here : told event with
      | none =>
          rw [here] at moved
          rw [moved]
          rfl
      | some a =>
          rw [here] at moved
          rw [moved, List.getLast?_cons]
          cases (events.filterMap told).getLast? <;> rfl

end Layer

namespace Control

variable {k : Control} {m : Memory} {v : Single}

/-- Rest tells zero, and of every control that rests. -/
theorem exists_restEvents_toldBy :
    (∃ event ∈ Layer.restEvents m, k.toldBy event = some v) ↔ k.Rests ∧ v = 0 := by
  simp only [Layer.restEvents, List.mem_cons, List.mem_map]
  constructor
  · rintro ⟨event, rfl | rfl | ⟨c, mem, rfl⟩, told⟩
    all_goals
      simp only [toldBy, Option.ite_none_right_eq_some, Option.some.injEq] at told
      obtain ⟨rfl, rfl⟩ := told
    · exact ⟨trivial, rfl⟩
    · exact ⟨trivial, rfl⟩
    · exact ⟨(mem_allControllers c).mp mem, rfl⟩
  · rintro ⟨rests, rfl⟩
    cases k with
    | controller c =>
        have mem := (mem_allControllers c).mpr rests
        exact ⟨.controller m c 0, .inr (.inr ⟨c, mem, rfl⟩), if_pos rfl⟩
    | bend => exact ⟨.bend 0, .inl rfl, rfl⟩
    | aftertouch => exact ⟨.aftertouch 0, .inr (.inl rfl), rfl⟩

/-- The last that rest tells of a control is the value to which it sets it. -/
theorem getLast?_restEvents (k : Control) (m : Memory) :
    ((Layer.restEvents m).filterMap k.toldBy).getLast? = k.setBy .rest := by
  cases last : ((Layer.restEvents m).filterMap k.toldBy).getLast? with
  | none =>
      have untold : ¬ k.Rests := by
        intro rests
        obtain ⟨event, mem, told⟩ := (exists_restEvents_toldBy (m := m)).mpr ⟨rests, rfl⟩
        have mem_told := List.mem_filterMap.mpr ⟨event, mem, told⟩
        rw [List.getLast?_eq_none_iff.mp last] at mem_told
        exact absurd mem_told List.not_mem_nil
      exact (if_neg untold).symm
  | some v =>
      have told := List.mem_filterMap.mp (List.mem_of_getLast? last)
      obtain ⟨rests, rfl⟩ := exists_restEvents_toldBy.mp told
      exact (if_pos rests).symm

end Control

/-! ### Followers -/

/-- A position of a layer that follows a control: what a layer is told moves it only if it
tells the value of that control. -/
structure Follower where
  control : Settings → Control
  /-- Where the position is wanted at a value. -/
  wanted : Settings → Single → Bool
  position : Layer → Bool
  position_step : ∀ (l : Layer) (event : Layer.Event),
    position (l.step event).1 =
      (((control l.settings).toldBy event).map (wanted l.settings)).getD (position l)

namespace Follower

variable (f : Follower) {l : Layer} {m : Memory}

/-- After any events a position is where the last value that the layer was told puts it. -/
theorem position_run (l : Layer) (events : List Layer.Event) :
    f.position (l.run events) =
      (((events.filterMap (f.control l.settings).toldBy).getLast?).map (f.wanted l.settings)).getD
        (f.position l) :=
  Layer.run_of_last_told f.position (fun k same event => same ▸ f.position_step k event) l rfl
    events

theorem position_releaseLifted (wasDown : Bool) (draws : KeyStream) :
    f.position (l.releaseLifted m wasDown draws).layer = f.position l :=
  Layer.releaseLifted_keeps (P := fun k => f.position k = f.position l) m
    (fun k n v r same => (f.position_step k (.noteOff m n v r)).trans same) wasDown draws rfl
    (f.position_step l .dropSustained)

/-- Of all cues but a new start, only those that set its control move a position, and they
put it where it is wanted. -/
theorem position_answer (o : Occasion) {cue : Cue} (draws : KeyStream) (going : cue ≠ .startOver) :
    f.position (cue.answer o draws l).layer =
      (((f.control l.settings).setBy cue).map (f.wanted l.settings)).getD (f.position l) := by
  cases cue with
  | noteOn n v =>
      have switched := f.position_step l (.switchKeys n o.previous)
      exact (f.position_step _ (.noteOn o.memory n v o.draw)).trans switched
  | noteOff n v => exact f.position_step l (.noteOff o.memory n v o.draw)
  | controller c v =>
      have moved := f.position_step l (.controller o.memory c v)
      exact (f.position_releaseLifted _ _).trans moved
  | rest =>
      refine (f.position_releaseLifted _ _).trans ?_
      rw [Layer.rest_eq_run, position_run, Control.getLast?_restEvents]
  | bend v => exact f.position_step l (.bend v)
  | aftertouch v => exact f.position_step l (.aftertouch v)
  | polyAftertouch n v => rfl
  | tempo s => exact f.position_step l (.tempo s)
  | startOver => exact absurd rfl going

/-- Rest puts a position where zero wants it, if its control rests. -/
theorem position_answerReset (l : Layer) (m : Memory) (draws : KeyStream) :
    f.position (l.answerReset m draws).layer =
      if (f.control l.settings).Rests then f.wanted l.settings 0 else f.position l := by
  have going : Cue.rest ≠ .startOver := nofun
  refine (f.position_answer ⟨m, none, 0⟩ draws going).trans ?_
  rw [Control.setBy]
  split <;> rfl

/-- The position is where it is wanted at the value that the memory has. -/
def Agrees (m : Memory) (l : Layer) : Prop :=
  f.position l = f.wanted l.settings ((f.control l.settings).reading m)

variable {f}

/-- A cue that sets the control makes the position agree with whatever reads the value. -/
theorem agrees_of_setBy (o : Occasion) {cue : Cue} (draws : KeyStream) {v : Single}
    (set : (f.control l.settings).setBy cue = some v)
    (read : (f.control l.settings).reading o.memory = v) :
    f.Agrees o.memory (cue.answer o draws l).layer := by
  have going : cue ≠ .startOver := by
    rintro rfl
    exact absurd set (by simp [Control.setBy])
  unfold Agrees
  rw [f.position_answer o draws going, set, Layer.settings_answer, read]
  rfl

/-- Once position and memory agree, no cue but a new start parts them. -/
theorem Agrees.answer (agrees : f.Agrees m l) (midi : (f.control l.settings).IsMidi) (o : Occasion)
    {cue : Cue} (draws : KeyStream) (going : cue ≠ .startOver)
    (recorded : o.memory = m.run cue.remembered) :
    f.Agrees o.memory (cue.answer o draws l).layer := by
  have reads := Control.reading_remembered (m := m) midi going
  rw [← recorded] at reads
  cases set : (f.control l.settings).setBy cue with
  | some v =>
      rw [set] at reads
      exact agrees_of_setBy o draws set reads
  | none =>
      rw [set] at reads
      unfold Agrees
      rw [f.position_answer o draws going, set, Layer.settings_answer, reads]
      exact agrees

/-! ### Gates and pedals -/

/-- The gate of a controller follows it, as its condition says. -/
def gate (c : Controller) (inside : c.toNat < controllerCount) : Follower where
  control _ := .controller c
  wanted s v := ((s.condition? c).map (·.includes v)).getD true
  position l := l.gates.controllers.isOpen c
  position_step l event := by
    refine (congrArg (·.controllers.isOpen c) (l.gatesOnTurn_step event)).trans ?_
    cases event with
    | controller m d v =>
        dsimp only
        rw [ControllerGates.isOpen_set]
        by_cases same : d = c
        · subst same
          simp [Control.toldBy, inside, Layer.meetsCondition]
        · simp [Control.toldBy, same, Ne.symm same]
    | bend v => simp [Control.toldBy, Layer.gatesOnTurn]
    | aftertouch v => simp [Control.toldBy, Layer.gatesOnTurn]
    | _ => rfl

/-- The sustain pedal follows its controller. -/
def sustain : Follower where
  control s := .controller s.sustain.controller
  wanted s := s.sustain.isPressedBy
  position := Layer.sustainDown
  position_step l event := by
    cases event with
    | noteOn m n v r => exact congrArg Hold.sustainDown (l.hold_noteOn m n v r)
    | noteOff m n v r => exact (l.noteOff_fields m n v r).2.1
    | controller m c v =>
        refine (l.sustainDown_controller m v c).trans ?_
        by_cases same : c = l.settings.sustain.controller
        · simp [Control.toldBy, same]
        · simp [Control.toldBy, same, Ne.symm same]
    | bend v => simp [Control.toldBy, Layer.step, Layer.setBend]
    | aftertouch v => simp [Control.toldBy, Layer.step, Layer.setAftertouch]
    | _ => rfl

/-- The sostenuto pedal follows its controller. -/
def sostenuto : Follower where
  control s := .controller s.sostenuto.controller
  wanted s := s.sostenuto.isPressedBy
  position := Layer.sostenutoDown
  position_step l event := by
    cases event with
    | noteOn m n v r => exact congrArg Hold.sostenutoDown (l.hold_noteOn m n v r)
    | noteOff m n v r => exact (l.noteOff_fields m n v r).2.2.1
    | controller m c v =>
        refine (congrArg Hold.sostenutoDown (l.hold_controller m v c)).trans ?_
        by_cases same : c = l.settings.sostenuto.controller
        · simp [Control.toldBy, same]
        · simp [Control.toldBy, same, Ne.symm same]
    | bend v => simp [Control.toldBy, Layer.step, Layer.setBend]
    | aftertouch v => simp [Control.toldBy, Layer.step, Layer.setAftertouch]
    | _ => rfl

/-- The bend gate follows the bend. -/
def bend : Follower where
  control _ := .bend
  wanted s := s.bends.includes
  position l := l.gates.bend
  position_step l event := by
    refine (congrArg Gates.bend (l.gatesOnTurn_step event)).trans ?_
    cases event <;> rfl

/-- The aftertouch gate follows the channel aftertouch. -/
def aftertouch : Follower where
  control _ := .aftertouch
  wanted s := s.aftertouches.includes
  position l := l.gates.aftertouch
  position_step l event := by
    refine (congrArg Gates.aftertouch (l.gatesOnTurn_step event)).trans ?_
    cases event <;> rfl

/-- The gate of a controller is wanted open where the first condition on it holds, should there
be one. -/
theorem wanted_gate_iff {c : Controller} (inside : c.toNat < controllerCount) {s : Settings}
    {v : Single} :
    (gate c inside).wanted s v = true ↔
      ∀ range, Settings.FirstListed s.conditions c range → range.includes v = true :=
  Settings.meets_condition?_iff

theorem agrees_gate_iff {c : Controller} {inside : c.toNat < controllerCount} :
    (gate c inside).Agrees m l ↔
      (l.gates.controllers.isOpen c = true ↔
        ∀ range, Settings.FirstListed l.settings.conditions c range →
          range.includes (m.controller c) = true) := by
  rw [← wanted_gate_iff inside]
  exact Bool.eq_iff_iff

end Follower

/-! ### Runs -/

namespace Engine

variable (f : Follower) {k : Control} (midi : k.IsMidi)
include midi

/-- No cue but a new start parts positions and memory. -/
theorem agrees_follow_of_going {cues : List Cue} (going : Cue.startOver ∉ cues) {e : Engine}
    (agree : ∀ l ∈ e.layers, f.control l.settings = k → f.Agrees e.memory l) :
    ∀ l ∈ (e.follow cues).1.layers, f.control l.settings = k →
      f.Agrees (e.follow cues).1.memory l := by
  induction cues generalizing e with
  | nil => exact agree
  | cons cue cues ih =>
      rw [List.mem_cons, not_or] at going
      apply ih going.2
      intro l' mem same
      obtain ⟨i, l, before, rfl⟩ := mem_layers_take mem
      rw [answerOf, Layer.settings_answer] at same
      have agrees := agree l before same
      exact agrees.answer (same ▸ midi) _ _ (Ne.symm going.1) rfl

/-- Positions that follow a known control of MIDI are where the memory has it. -/
theorem agrees_follow {heard : List Cue} (known : k.Known heard) (e : Engine) :
    ∀ l ∈ (e.follow heard).1.layers, f.control l.settings = k →
      f.Agrees (e.follow heard).1.memory l := by
  obtain ⟨before, cue, after, rfl, set, going⟩ := known
  obtain ⟨v, set⟩ := Option.isSome_iff_exists.mp set
  have running : cue ≠ .startOver := by
    rintro rfl
    exact absurd set (by simp [Control.setBy])
  rw [follow_append, follow_cons]
  apply agrees_follow_of_going f midi going
  intro l' mem same
  obtain ⟨i, l, -, rfl⟩ := mem_layers_take mem
  rw [answerOf, Layer.settings_answer] at same
  have reads := Control.reading_remembered (m := (e.follow before).1.memory) midi running
  rw [set] at reads
  subst same
  exact Follower.agrees_of_setBy _ _ set reads

end Engine

end Voicing
