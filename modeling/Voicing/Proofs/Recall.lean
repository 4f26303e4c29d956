import Voicing.Proofs.Obedience
import Voicing.Proofs.Sostenuto
import Mathlib.Logic.Basic

/-!
What one event does to the memory, reading by reading.

An event writes a reading, puts it to rest or leaves it alone. The readings fall into three
groups that are written together: what is known of the keys (`Memory.keys_apply`), the bend
and the aftertouches (`Memory.touch_apply`), and the controllers. Of those most are written
by their own number and by what they follow (`Memory.controller_apply`); the note gate
(`Memory.noteGate_apply`) and the alternating controller (`Memory.alternate_apply`) have
rules of their own.
-/

namespace Voicing

/-- Storing a value of a note changes what is read of that note and of no other. -/
theorem getD_setIfInBounds {α : Type} {size : Nat} (values : Vector α size) (k : Note) {n : Note}
    (inside : n.toNat < size) (x rest : α) :
    (values.setIfInBounds k.toNat x)[n.toNat]?.getD rest =
      if k = n then x else values[n.toNat]?.getD rest := by
  by_cases same : k = n
  · subst same
    simp [inside]
  · have other : k.toNat ≠ n.toNat := fun h => same (UInt8.toNat_inj.mp h)
    simp [same, other]

namespace Memory

variable (m : Memory) {n : Note} {c : Controller}

/-! ### What an event writes -/

namespace Event

/-- An event after which everything is at rest. -/
def startsOver : Event → Bool
  | .reset => true
  | _ => false

/-- An event after which the bend, the aftertouches and all controllers are at rest, but for
the note gate. -/
def rests : Event → Bool
  | .resetControllers | .reset => true
  | _ => false

/-- The velocity at which an event strikes a note. -/
def strikes (n : Note) : Event → Option Single
  | .noteOn k v => if k = n then some v else none
  | _ => none

/-- Where an event moves a note: down or not. -/
def moves (n : Note) : Event → Option Bool
  | .noteOn k _ => if k = n then some true else none
  | .noteOff k _ => if k = n then some false else none
  | _ => none

/-- The note that an event plays, and its velocity. -/
def played : Event → Option (Note × Single)
  | .noteOn n v => if n.toNat < noteCount then some (n, v) else none
  | _ => none

/-- The aftertouch that an event gives to a note. -/
def touches (n : Note) : Event → Option Single
  | .polyAftertouch k v => if k = n then some v else none
  | _ => none

/-- The aftertouch that an event gives to all notes. -/
def touchesAll : Event → Option Single
  | .aftertouch v => some v
  | _ => none

/-- Where an event moves the bend. -/
def bends : Event → Option Single
  | .bend v => some v
  | _ => none

/-- The value that an event sends to a controller by its number. -/
def sent (c : Controller) : Event → Option Single
  | .controller d v => if d = c then some v else none
  | _ => none

/-- The value that an event leaves at a controller that follows it. -/
def mirrored (c : Controller) : Event → Option Single
  | .noteOn n v =>
    if n.toNat < noteCount then
      if c = .noteNumber then some (Binary.ofNat n.toNat / 127)
      else if c = .noteOnVelocity then some v
      else none
    else none
  | .noteOff n v => if n.toNat < noteCount ∧ c = .noteOffVelocity then some v else none
  | .bend v => if c = .pitchBend then some ((v + 1) * 0.5) else none
  | .polyAftertouch n v => if n.toNat < noteCount ∧ c = .polyAftertouch then some v else none
  | .aftertouch v => if c = .channelAftertouch then some v else none
  | _ => none

/-- The value that an event writes to a controller, by its number or by what it follows. -/
def written (c : Controller) (event : Event) : Option Single :=
  (event.sent c).or (event.mirrored c)

/-- The controllers that follow the values of other events. -/
def followers : List Controller :=
  [.pitchBend, .channelAftertouch, .polyAftertouch, .noteOnVelocity, .noteOffVelocity, .noteNumber]

/-- The other controllers are written by their number only. -/
theorem written_of_not_mem (other : c ∉ followers) (event : Event) :
    event.written c = event.sent c := by
  simp only [followers, List.mem_cons, List.not_mem_nil, or_false, not_or] at other
  obtain ⟨bend, aftertouch, polyAftertouch, noteOn, noteOff, noteNumber⟩ := other
  have unmirrored : event.mirrored c = none := by
    cases event with
    | noteOn n v => simp [mirrored, noteOn, noteNumber]
    | noteOff n v => simp [mirrored, noteOff]
    | bend v => simp [mirrored, bend]
    | polyAftertouch n v => simp [mirrored, polyAftertouch]
    | aftertouch v => simp [mirrored, aftertouch]
    | _ => rfl
  rw [written, unmirrored, Option.or_none]

end Event

/-! ### Keys -/

/-- What the memory knows of the keys. -/
structure Keys where
  velocities : Vector Single noteCount
  pressed : Vector Bool noteCount
  held : Nat
  lastVelocity : Single
  lastNote : Option Note

/-- The keys of a memory. -/
def keys (m : Memory) : Keys := ⟨m.velocities, m.pressed, m.held, m.lastVelocity, m.lastNote⟩

/-- Where nothing can be played nothing is pressed. -/
theorem isPressed_of_le (beyond : noteCount ≤ n.toNat) : m.isPressed n = false := by
  rw [Bool.eq_false_iff]
  intro pressed
  exact absurd (m.lt_of_isPressed pressed) (Nat.not_lt.mpr beyond)

/-- Only what is played, or a new start, changes the keys. -/
theorem keys_apply (event : Event) :
    (m.apply event).keys =
      match event with
      | .noteOn n v =>
        { velocities := m.velocities.setIfInBounds n.toNat v
          pressed := m.pressed.setIfInBounds n.toNat true
          held := if n.toNat < noteCount ∧ m.isPressed n = false then m.held + 1 else m.held
          lastVelocity := if n.toNat < noteCount then v else m.lastVelocity
          lastNote := if n.toNat < noteCount then some n else m.lastNote }
      | .noteOff n _ =>
        { m.keys with
          pressed := m.pressed.setIfInBounds n.toNat false
          held := if m.isPressed n then m.held - 1 else m.held }
      | .reset => initial.keys
      | _ => m.keys := by
  cases event with
  | noteOn n v =>
      by_cases key : n.toNat < noteCount
      · cases pressed : m.isPressed n <;> simp [apply, noteOn, keys, setController, key, pressed]
      · have beyond := Nat.not_lt.mp key
        simp [apply, noteOn, keys, key, Vector.setIfInBounds_eq_of_size_le beyond]
  | noteOff n v =>
      by_cases key : n.toNat < noteCount
      · simp only [apply, noteOff, if_pos key]
        generalize (if m.isPressed n then m.held - 1 else m.held) = held
        split <;> rfl
      · have beyond := Nat.not_lt.mp key
        simp [apply, noteOff, keys, key, Vector.setIfInBounds_eq_of_size_le beyond,
          m.isPressed_of_le beyond]
  | polyAftertouch n v =>
      simp only [apply, setPolyAftertouch]
      split <;> rfl
  | resetControllers =>
      simp only [apply, resetControllers]
      split <;> rfl
  | _ => rfl

/-- A note has the velocity at which it was struck last. -/
theorem velocity_apply (key : n.toNat < noteCount) (event : Event) :
    (m.apply event).velocity n =
      if event.startsOver then 0 else (event.strikes n).getD (m.velocity n) := by
  have read := congrArg (fun ks : Keys => ks.velocities[n.toNat]?.getD 0) (m.keys_apply event)
  refine read.trans ?_
  cases event with
  | noteOn k v =>
      refine (getD_setIfInBounds _ k key _ _).trans ?_
      simp only [Event.startsOver, Event.strikes]
      split <;> rfl
  | reset => simp [Event.startsOver, initial, keys, key]
  | _ => rfl

/-- A key is where it was moved last. -/
theorem isPressed_apply (key : n.toNat < noteCount) (event : Event) :
    (m.apply event).isPressed n =
      if event.startsOver then false else (event.moves n).getD (m.isPressed n) := by
  have read := congrArg (fun ks : Keys => ks.pressed[n.toNat]?.getD false) (m.keys_apply event)
  refine read.trans ?_
  cases event with
  | noteOn k v =>
      refine (getD_setIfInBounds _ k key _ _).trans ?_
      simp only [Event.startsOver, Event.moves]
      split <;> rfl
  | noteOff k v =>
      refine (getD_setIfInBounds _ k key _ _).trans ?_
      simp only [Event.startsOver, Event.moves]
      split <;> rfl
  | reset => simp [Event.startsOver, initial, keys, key]
  | _ => rfl

theorem isPressed_apply_of_unmoved {event : Event} (unmoved : event.moves n = none)
    (going : event.startsOver = false) : (m.apply event).isPressed n = m.isPressed n := by
  by_cases key : n.toNat < noteCount
  · simp [m.isPressed_apply key, unmoved, going]
  · have beyond := Nat.not_lt.mp key
    rw [isPressed_of_le _ beyond, isPressed_of_le _ beyond]

/-- The count goes up with a key that was up, and down with a key that was down. -/
theorem held_apply (event : Event) :
    (m.apply event).held =
      match event with
      | .noteOn n _ => if n.toNat < noteCount ∧ m.isPressed n = false then m.held + 1 else m.held
      | .noteOff n _ => if m.isPressed n then m.held - 1 else m.held
      | .reset => 0
      | _ => m.held := by
  refine (congrArg Keys.held (m.keys_apply event)).trans ?_
  cases event <;> rfl

/-- The last note and its velocity are those of what was played last. -/
theorem last_apply (event : Event) :
    ((m.apply event).lastNote, (m.apply event).lastVelocity) =
      if event.startsOver then (none, 0)
      else (event.played.map fun p => (some p.1, p.2)).getD (m.lastNote, m.lastVelocity) := by
  refine (congrArg (fun ks : Keys => (ks.lastNote, ks.lastVelocity)) (m.keys_apply event)).trans ?_
  cases event with
  | noteOn n v =>
      simp only [Event.startsOver, Event.played]
      split <;> rfl
  | _ => rfl

/-! ### Bend and aftertouches -/

/-- What the memory knows of the bend and the aftertouches. -/
structure Touch where
  polyAftertouches : Vector Single noteCount
  bend : Single
  aftertouch : Single

/-- The bend and the aftertouches of a memory. -/
def touch (m : Memory) : Touch := ⟨m.polyAftertouches, m.bend, m.aftertouch⟩

/-- Only their own events and rest change the bend and the aftertouches. -/
theorem touch_apply (event : Event) :
    (m.apply event).touch =
      match event with
      | .bend v => { m.touch with bend := v }
      | .aftertouch v => { m.touch with aftertouch := v }
      | .polyAftertouch n v =>
        { m.touch with polyAftertouches := m.polyAftertouches.setIfInBounds n.toNat v }
      | .resetControllers | .reset => initial.touch
      | _ => m.touch := by
  cases event with
  | noteOn n v =>
      simp only [apply, noteOn]
      split <;> rfl
  | noteOff n v =>
      simp only [apply, noteOff]
      generalize (if m.isPressed n then m.held - 1 else m.held) = held
      split
      · split <;> rfl
      · rfl
  | polyAftertouch n v =>
      simp only [apply, setPolyAftertouch]
      split
      · rfl
      · next mute =>
        rw [Vector.setIfInBounds_eq_of_size_le (Nat.not_lt.mp mute)]
        rfl
  | resetControllers =>
      simp only [apply, resetControllers]
      split <;> rfl
  | _ => rfl

/-- A note has the aftertouch that it was given last. -/
theorem polyAftertouch_apply (key : n.toNat < noteCount) (event : Event) :
    (m.apply event).polyAftertouch n =
      if event.rests then 0 else (event.touches n).getD (m.polyAftertouch n) := by
  have read := congrArg (fun t : Touch => t.polyAftertouches[n.toNat]?.getD 0) (m.touch_apply event)
  refine read.trans ?_
  cases event with
  | polyAftertouch k v =>
      refine (getD_setIfInBounds _ k key _ _).trans ?_
      simp only [Event.rests, Event.touches]
      split <;> rfl
  | resetControllers => simp [Event.rests, initial, touch, key]
  | reset => simp [Event.rests, initial, touch, key]
  | _ => rfl

theorem bend_apply (event : Event) :
    (m.apply event).bend = if event.rests then 0 else event.bends.getD m.bend := by
  refine (congrArg Touch.bend (m.touch_apply event)).trans ?_
  cases event <;> rfl

theorem aftertouch_apply (event : Event) :
    (m.apply event).aftertouch = if event.rests then 0 else event.touchesAll.getD m.aftertouch := by
  refine (congrArg Touch.aftertouch (m.touch_apply event)).trans ?_
  cases event <;> rfl

/-! ### Controllers -/

section Controllers

variable (inside : c.toNat < controllerCount) (v : Single)
include inside

omit inside in
/-- The level of a note would be computed if it were compared, so it is a variable here. -/
theorem getD_ite_some (p q : Prop) [Decidable p] [Decidable q] (level velocity rest : Single) :
    (if p then some level else if q then some velocity else none).getD rest =
      if p then level else if q then velocity else rest := by
  split
  · rfl
  · split <;> rfl

/-- A value that is stored is read where it was stored, if it is read at all. -/
theorem controller_setController_of_lt (d : Controller) :
    (m.setController d v).controller c = if c = d then v else m.controller c := by
  rw [controller_setController]
  by_cases same : c = d
  · rw [if_pos same, if_pos ⟨same.symm, same ▸ inside⟩]
  · rw [if_neg same, if_neg fun both => same both.1.symm]

/-- A note-on is written to the controllers that follow it. -/
theorem controller_noteOn_eq (key : n.toNat < noteCount) :
    (m.noteOn n v).controller c =
      if c = .alternate then if (m.controller .alternate).sameValue 0 then 1 else 0
      else if c = .noteGate then 1
      else if c = .noteNumber then Binary.ofNat n.toNat / 127
      else if c = .noteOnVelocity then v
      else m.controller c := by
  simp only [noteOn, if_pos key, controller_setController_of_lt _ inside]
  rfl

/-- So is a note-off. -/
theorem controller_noteOff_eq (key : n.toNat < noteCount) :
    (m.noteOff n v).controller c =
      if c = .noteGate ∧ (m.noteOff n v).held = 0 then 0
      else if c = .noteOffVelocity then v
      else m.controller c := by
  have count : (m.noteOff n v).held = if m.isPressed n then m.held - 1 else m.held :=
    m.held_apply (.noteOff n v)
  rw [count]
  simp only [noteOff, if_pos key]
  generalize (if m.isPressed n then m.held - 1 else m.held) = held
  by_cases closes : c = .noteGate ∧ held = 0
  · simp only [if_pos closes, if_pos closes.2, controller_setController_of_lt _ inside,
      if_pos closes.1]
  · rw [if_neg closes]
    split
    · next nothing =>
      have other : c ≠ .noteGate := fun gate => closes ⟨gate, nothing⟩
      simp only [controller_setController_of_lt _ inside, if_neg other]
      rfl
    · exact controller_setController_of_lt _ inside v _

/-- The aftertouch of a note is written to the controller that follows it. -/
theorem controller_setPolyAftertouch_eq :
    (m.setPolyAftertouch n v).controller c =
      if n.toNat < noteCount ∧ c = .polyAftertouch then v else m.controller c := by
  unfold setPolyAftertouch
  by_cases key : n.toNat < noteCount
  · rw [if_pos key, controller_setController_of_lt _ inside]
    exact if_congr (and_iff_right key).symm rfl rfl
  · rw [if_neg key, if_neg fun both => key both.1]

/-- What an event does to a controller that has no rule of its own: it is written by its
number and by what it follows. -/
theorem controller_apply (plain : c ≠ .noteGate ∧ c ≠ .alternate) (event : Event) :
    (m.apply event).controller c =
      if event.rests then 0 else (event.written c).getD (m.controller c) := by
  cases event with
  | noteOn n v =>
      refine Eq.trans ?_ (if_neg Bool.false_ne_true).symm
      by_cases key : n.toNat < noteCount
      · have read := m.controller_noteOn_eq inside v key
        rw [if_neg plain.2, if_neg plain.1] at read
        have writes : (Event.noteOn n v).written c =
            if c = .noteNumber then some (Binary.ofNat n.toNat / 127)
            else if c = .noteOnVelocity then some v else none := if_pos key
        rw [writes, getD_ite_some]
        exact read
      · have writes : (Event.noteOn n v).written c = none := if_neg key
        rw [writes]
        exact congrArg (Memory.controller · c) (if_neg key)
  | noteOff n v =>
      simp only [Event.rests, Event.written, Event.sent, Event.mirrored, Option.none_or]
      by_cases key : n.toNat < noteCount
      · refine (m.controller_noteOff_eq inside v key).trans ?_
        rw [if_neg fun gate => plain.1 gate.1]
        by_cases own : c = .noteOffVelocity <;> simp [key, own]
      · rw [if_neg fun both => key both.1]
        exact congrArg (Memory.controller · c) (if_neg key)
  | controller d v =>
      refine (m.controller_setController_of_lt inside v d).trans ?_
      by_cases own : c = d
      · simp [Event.rests, Event.written, Event.sent, own]
      · simp [Event.rests, Event.written, Event.sent, Event.mirrored, own, Ne.symm own]
  | bend v =>
      refine (controller_setController_of_lt _ inside _ _).trans ?_
      simp only [Event.rests, Event.written, Event.sent, Event.mirrored, Option.none_or]
      split <;> rfl
  | polyAftertouch n v =>
      refine (m.controller_setPolyAftertouch_eq inside v).trans ?_
      simp only [Event.rests, Event.written, Event.sent, Event.mirrored, Option.none_or]
      split <;> rfl
  | aftertouch v =>
      refine (controller_setController_of_lt _ inside _ _).trans ?_
      simp only [Event.rests, Event.written, Event.sent, Event.mirrored, Option.none_or]
      split <;> rfl
  | resetControllers =>
      refine (m.controller_resetControllers_eq inside).trans ?_
      rw [if_neg fun gate => plain.1 gate.1]
      exact (if_pos rfl).symm
  | reset => simp [apply, initial, Memory.controller, Event.rests, inside]

end Controllers

/-- The note gate is opened by a note-on, closed by a note-off that leaves no key down, and
otherwise set by its own number or by rest. -/
theorem noteGate_apply (event : Event) :
    (m.apply event).controller .noteGate =
      match event with
      | .noteOn n _ => if n.toNat < noteCount then 1 else m.controller .noteGate
      | .noteOff n _ =>
        if n.toNat < noteCount ∧ (m.apply event).held = 0 then 0 else m.controller .noteGate
      | .controller c v => if c = .noteGate then v else m.controller .noteGate
      | .resetControllers => if 0 < m.held then 1 else 0
      | .reset => 0
      | _ => m.controller .noteGate := by
  have inside : Controller.noteGate.toNat < controllerCount := by decide
  cases event with
  | noteOn n v =>
      dsimp only
      split
      · next key => exact m.controller_noteOn_eq inside v key
      · next mute => exact congrArg (Memory.controller · .noteGate) (if_neg mute)
  | noteOff n v =>
      dsimp only
      by_cases key : n.toNat < noteCount
      · refine (m.controller_noteOff_eq inside v key).trans ?_
        exact if_congr ⟨fun both => ⟨key, both.2⟩, fun both => ⟨rfl, both.2⟩⟩ rfl rfl
      · rw [if_neg fun both => key both.1]
        exact congrArg (Memory.controller · .noteGate) (if_neg key)
  | controller c v =>
      refine (m.controller_setController_of_lt inside v c).trans ?_
      exact if_congr ⟨Eq.symm, Eq.symm⟩ rfl rfl
  | bend v => exact (controller_setController_of_lt _ inside _ _).trans (if_neg (by decide))
  | aftertouch v => exact (controller_setController_of_lt _ inside _ _).trans (if_neg (by decide))
  | polyAftertouch n v =>
      refine (m.controller_setPolyAftertouch_eq inside v).trans (if_neg ?_)
      exact fun both => absurd both.2 (by decide)
  | resetControllers =>
      refine (m.controller_resetControllers_eq inside).trans ?_
      exact if_congr (and_iff_right rfl) rfl rfl
  | reset => rfl

/-- The other value of a controller that alternates between zero and one. -/
def flipped (v : Single) : Single := if v.sameValue 0 then 1 else 0

/-- The alternating controller is flipped by what is played, and otherwise set by its own
number or put to rest. -/
theorem alternate_apply (event : Event) :
    (m.apply event).controller .alternate =
      if event.rests then 0
      else if event.played.isSome then flipped (m.controller .alternate)
      else (event.sent .alternate).getD (m.controller .alternate) := by
  have inside : Controller.alternate.toNat < controllerCount := by decide
  cases event with
  | noteOn n v =>
      by_cases key : n.toNat < noteCount
      · refine (m.controller_noteOn_eq inside v key).trans ?_
        simp [Event.rests, Event.played, key, flipped]
      · refine (congrArg (Memory.controller · .alternate) (if_neg key)).trans ?_
        simp [Event.rests, Event.played, Event.sent, key]
  | noteOff n v =>
      by_cases key : n.toNat < noteCount
      · refine (m.controller_noteOff_eq inside v key).trans ?_
        rw [if_neg fun gate => absurd gate.1 (by decide)]
        exact if_neg (by decide)
      · exact congrArg (Memory.controller · .alternate) (if_neg key)
  | controller c v =>
      refine (m.controller_setController_of_lt inside v c).trans ?_
      by_cases own : c = .alternate
      · simp [Event.rests, Event.played, Event.sent, own]
      · simp [Event.rests, Event.played, Event.sent, own, Ne.symm own]
  | bend v => exact (controller_setController_of_lt _ inside _ _).trans (if_neg (by decide))
  | aftertouch v => exact (controller_setController_of_lt _ inside _ _).trans (if_neg (by decide))
  | polyAftertouch n v =>
      refine (m.controller_setPolyAftertouch_eq inside v).trans (if_neg ?_)
      exact fun both => absurd both.2 (by decide)
  | resetControllers =>
      refine (m.controller_resetControllers_eq inside).trans ?_
      rw [if_neg fun gate => absurd gate.1 (by decide)]
      exact (if_pos rfl).symm
  | reset => rfl

end Memory

end Voicing
