import Voicing.Proofs.Followers

/-!
Counting turns.

An event that *qualifies* takes a turn: a note that the layer admits and its mode asks for, a
release that no pedal holds back, and a controller value that is a trigger. The counter has 64
bits; `Layer.turnsTaken` counts the same turns of a run without a bound.

* `Layer.step_cases`: an event moves something or other, and then it takes a turn or does not.
* `Layer.turns_step`, `Layer.sequence_step`: only what qualifies moves the counter and the
  sequence gate.
* `Layer.sounds_step`: an event makes a layer sound if it qualifies and no gate is closed then.
* `Layer.turns_run`, `Layer.sequence_run`: the counter after a run, and the sequence gate as
  the last turn of the run put it.
-/

namespace Voicing

namespace Layer

variable (l : Layer)

/-- Whether an event takes a turn. -/
def qualifies : Event → Bool
  | .noteOn m n v r => l.admits m n v r && l.modeAsks m
  | .noteOff m n v r =>
    l.admits m n v r &&
      (l.settings.mode == .releaseKey ||
        l.settings.mode == .release && !l.isCaught n && !l.sustainDown)
  | .controller _ c v => l.isTrigger c v
  | _ => false

/-- How many turns a run of events takes. -/
def turnsTaken (l : Layer) : List Event → Nat
  | [] => 0
  | event :: events => (if l.qualifies event then 1 else 0) + (l.step event).1.turnsTaken events

theorem turnsTaken_append (events others : List Event) :
    l.turnsTaken (events ++ others) = l.turnsTaken events + (l.run events).turnsTaken others := by
  induction events generalizing l with
  | nil => exact (Nat.zero_add _).symm
  | cons event events ih =>
      rw [List.cons_append, turnsTaken, turnsTaken, ih, run_cons, Nat.add_assoc]

/-! ### One event -/

/-- What tells whose turn it is: the counter and the sequence gate. -/
def rotation : UInt64 × Bool := (l.turns, l.gates.sequence)

/-- The rotation after a turn. -/
def turned : UInt64 × Bool := (l.turns + 1, l.isOwnTurn)

theorem cases_releaseUnderPedals (m : Memory) (n : Note) :
    ∃ moved : Layer, moved.settings = l.settings ∧ moved.rotation = l.rotation ∧
      l.releaseUnderPedals m n =
        if !l.isCaught n && !l.sustainDown then moved.sound else (moved, false) := by
  unfold releaseUnderPedals
  cases l.isCaught n with
  | true => exact ⟨l, rfl, rfl, rfl⟩
  | false =>
      -- A note that is let go for good is forgotten first, which moves neither pedal nor turn.
      obtain ⟨k, settings, rotation, down, same⟩ : ∃ k : Layer, k.settings = l.settings ∧
          k.rotation = l.rotation ∧ k.sustainDown = l.sustainDown ∧
          (if l.caught.holds n then { l with caught := l.caught.remove n } else l) = k := by
        cases l.caught.holds n with
        | true => exact ⟨{ l with caught := l.caught.remove n }, rfl, rfl, rfl, rfl⟩
        | false => exact ⟨l, rfl, rfl, rfl, rfl⟩
      rw [same, if_neg Bool.false_ne_true, ← down]
      cases waits : k.sustainDown with
      | true =>
          rw [if_pos waits]
          exact ⟨{ k with sustained := k.sustained.push ⟨n, m.velocity n⟩ }, settings, rotation,
            rfl⟩
      | false =>
          rw [if_neg (by simp [waits])]
          exact ⟨k, settings, rotation, rfl⟩

theorem cases_noteOff (m : Memory) (n : Note) (v r : Single) :
    ∃ moved : Layer, moved.settings = l.settings ∧ moved.rotation = l.rotation ∧
      l.noteOff m n v r =
        if l.qualifies (.noteOff m n v r) then moved.sound else (moved, false) := by
  have asks : l.qualifies (.noteOff m n v r) =
      (l.admits m n v r &&
        (l.settings.mode == .releaseKey ||
          l.settings.mode == .release && !l.isCaught n && !l.sustainDown)) := rfl
  unfold noteOff
  rw [asks]
  cases l.admits m n v r with
  | false => exact ⟨l, rfl, rfl, rfl⟩
  | true =>
      cases l.settings.mode with
      | release => exact l.cases_releaseUnderPedals m n
      | _ => exact ⟨l, rfl, rfl, rfl⟩

theorem cases_controller (m : Memory) (c : Controller) (v : Single) :
    ∃ moved : Layer, moved.settings = l.settings ∧ moved.rotation = l.rotation ∧
      l.controller m c v = if l.isTrigger c v then moved.sound else (moved, false) := by
  obtain ⟨gates, settings⟩ := l.movePedals_fields m v c
  have still : ((l.moveSustain c v).moveSostenuto m c v).turns = l.turns := by
    unfold moveSostenuto moveSustain
    split <;> split <;> rfl
  have sequence := congrArg Gates.sequence gates
  refine ⟨((l.moveSustain c v).moveSostenuto m c v).moveGate c v, settings, ?_, ?_⟩
  · exact congrArg₂ Prod.mk still sequence
  · unfold controller isTrigger moveGate
    dsimp only
    rw [settings]

/-- Whatever an event moves before it asks for a turn, the settings stay and so does whose turn it
is. An event that qualifies takes a turn, and no other does or makes the layer sound. -/
theorem step_cases (event : Event) :
    ∃ moved : Layer, moved.settings = l.settings ∧ moved.rotation = l.rotation ∧
      l.step event = if l.qualifies event then moved.sound else (moved, false) := by
  cases event with
  | noteOn m n v r => exact ⟨l, rfl, rfl, rfl⟩
  | noteOff m n v r => exact l.cases_noteOff m n v r
  | controller m c v => exact l.cases_controller m c v
  | _ => refine ⟨_, ?_, ?_, rfl⟩ <;> rfl

/-- An event that qualifies takes a turn, and no other does. -/
theorem rotation_step (event : Event) :
    (l.step event).1.rotation = if l.qualifies event then l.turned else l.rotation := by
  obtain ⟨moved, settings, rotation, decided⟩ := l.step_cases event
  obtain ⟨turns, -⟩ := Prod.mk.inj rotation
  rw [decided]
  split
  · unfold sound takeTurn turned isOwnTurn
    rw [← settings, ← turns]
    rfl
  · exact rotation

theorem turns_step (event : Event) :
    (l.step event).1.turns = if l.qualifies event then l.turns + 1 else l.turns :=
  (congrArg Prod.fst (l.rotation_step event)).trans (by split <;> rfl)

theorem sequence_step (event : Event) :
    (l.step event).1.gates.sequence =
      if l.qualifies event then l.isOwnTurn else l.gates.sequence :=
  (congrArg Prod.snd (l.rotation_step event)).trans (by split <;> rfl)

/-- An event makes the layer sound if it takes a turn and no gate is closed then. -/
theorem sounds_step (event : Event) :
    (l.step event).2 = (l.qualifies event && (l.step event).1.isReady) := by
  obtain ⟨moved, -, -, decided⟩ := l.step_cases event
  rw [decided]
  cases l.qualifies event <;> rfl

theorem isReady_eq : l.isReady = (l.gatesOnTurn.areOpen && l.gates.sequence) := by
  simp only [isReady, gatesOnTurn, Gates.areOpen]
  ac_rfl

/-! ### Runs -/

/-- The counter goes up by the turns that are taken. -/
theorem turns_run (events : List Event) :
    (l.run events).turns = l.turns + UInt64.ofNat (l.turnsTaken events) := by
  induction events generalizing l with
  | nil => exact (UInt64.add_zero _).symm
  | cons event events ih =>
      rw [run_cons, ih, turns_step, turnsTaken]
      split
      · rw [UInt64.ofNat_add, UInt64.add_assoc]
        rfl
      · rw [Nat.zero_add]

/-- The position of the sequence gate when so many turns have been taken. -/
def sequenceAfter : Nat → Bool
  | 0 => l.gates.sequence
  | k + 1 => l.settings.owns (l.turns + UInt64.ofNat k)

theorem sequenceAfter_succ (k : Nat) :
    l.sequenceAfter (k + 1) = l.settings.owns (l.turns + UInt64.ofNat k) := rfl

/-- The turn that an event takes is one more before those that come after it. -/
theorem sequenceAfter_step (event : Event) (k : Nat) :
    (l.step event).1.sequenceAfter k =
      l.sequenceAfter ((if l.qualifies event then 1 else 0) + k) := by
  have turns := l.turns_step event
  have sequence := l.sequence_step event
  cases qualifies : l.qualifies event with
  | false =>
      rw [qualifies, if_neg Bool.false_ne_true] at turns sequence
      rw [if_neg Bool.false_ne_true, Nat.zero_add]
      cases k with
      | zero => exact sequence
      | succ k => rw [sequenceAfter_succ, settings_step, turns, sequenceAfter_succ]
  | true =>
      rw [qualifies, if_pos rfl] at turns sequence
      rw [if_pos rfl, Nat.add_comm, sequenceAfter_succ]
      cases k with
      | zero =>
          refine sequence.trans ?_
          rw [show UInt64.ofNat 0 = 0 from rfl, UInt64.add_zero]
          rfl
      | succ k =>
          rw [sequenceAfter_succ, settings_step, turns, UInt64.ofNat_add, UInt64.add_assoc,
            UInt64.add_comm (UInt64.ofNat k)]
          rfl

/-- The sequence gate is where the last turn put it, if any has been taken. -/
theorem sequence_run (events : List Event) :
    (l.run events).gates.sequence = l.sequenceAfter (l.turnsTaken events) := by
  induction events generalizing l with
  | nil => rfl
  | cons event events ih =>
      rw [run_cons, ih, sequenceAfter_step]
      rfl

end Layer

end Voicing
