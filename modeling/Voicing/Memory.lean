import Voicing.Controller
import Voicing.Binary

/-!
The controller memory of an instrument.

`Memory` holds what has been played: for each note its latest velocity, whether it is
pressed and its aftertouch, for each controller its latest value, and a few quantities
kept along the way (how many notes are held, the latest note-on, the bend, the channel
aftertouch). One memory is shared by all layers of a bank.

`Memory.Event` lists everything that can happen to it and `Memory.apply` says what each
event does. Notes and controllers outside the tables are ignored on writing and read as
being at rest.
-/

namespace Voicing

/-- What is known of the keyboard and the controllers. -/
structure Memory where
  velocities : Vector Single noteCount
  pressed : Vector Bool noteCount
  polyAftertouches : Vector Single noteCount
  /-- How many notes are pressed. -/
  held : Nat
  /-- The velocity of the latest note-on, whatever the note. -/
  lastVelocity : Single
  lastNote : Option Note
  controllers : Vector Single controllerCount
  bend : Single
  aftertouch : Single
deriving DecidableEq

namespace Memory

/-- Everything at rest. -/
def initial : Memory where
  velocities := .replicate _ 0
  pressed := .replicate _ false
  polyAftertouches := .replicate _ 0
  held := 0
  lastVelocity := 0
  lastNote := none
  controllers := .replicate _ 0
  bend := 0
  aftertouch := 0

instance : Inhabited Memory := ⟨initial⟩

/-! ### Reading -/

/-- The value of a controller. -/
def controller (m : Memory) (c : Controller) : Single := m.controllers[c.toNat]?.getD 0

/-- The velocity of the latest note-on of a note. It stays readable after the note-off. -/
def velocity (m : Memory) (n : Note) : Single := m.velocities[n.toNat]?.getD 0

/-- Whether a note is held down. -/
def isPressed (m : Memory) (n : Note) : Bool := m.pressed[n.toNat]?.getD false

/-- The polyphonic aftertouch of a note. -/
def polyAftertouch (m : Memory) (n : Note) : Single := m.polyAftertouches[n.toNat]?.getD 0

/-! ### Events -/

/-- Stores a controller value. -/
def setController (m : Memory) (c : Controller) (v : Single) : Memory :=
  { m with controllers := m.controllers.setIfInBounds c.toNat v }

/-- Storing a controller value changes what is read there and nowhere else. -/
theorem controller_setController (m : Memory) (c d : Controller) (v : Single) :
    (m.setController c v).controller d =
      if c = d ∧ c.toNat < controllerCount then v else m.controller d := by
  unfold controller setController
  by_cases same : c = d
  · subst same
    by_cases hc : c.toNat < controllerCount <;> simp [hc]
  · have other : c.toNat ≠ d.toNat := fun h => same (UInt16.toNat_inj.mp h)
    simp [same, other]

/-- A note goes down. -/
def noteOn (m : Memory) (n : Note) (v : Single) : Memory :=
  if n.toNat < noteCount then
    let played : Memory := { m with
      velocities := m.velocities.setIfInBounds n.toNat v
      pressed := m.pressed.setIfInBounds n.toNat true
      held := if m.isPressed n then m.held else m.held + 1
      lastVelocity := v
      lastNote := some n }
    played
      |>.setController .noteOnVelocity v
      |>.setController .noteNumber (Binary.ofNat n.toNat / 127)
      |>.setController .noteGate 1
      |>.setController .alternate (if (m.controller .alternate).sameValue 0 then 1 else 0)
  else m

/-- A note comes up. The gate closes with the last one. -/
def noteOff (m : Memory) (n : Note) (v : Single) : Memory :=
  if n.toNat < noteCount then
    let released : Memory := { m with
      pressed := m.pressed.setIfInBounds n.toNat false
      held := if m.isPressed n then m.held - 1 else m.held }
    let noted := released.setController .noteOffVelocity v
    if released.held = 0 then noted.setController .noteGate 0 else noted
  else m

/-- The pitch bend moves, between minus one and one. -/
def setBend (m : Memory) (v : Single) : Memory :=
  { m with bend := v }.setController .pitchBend ((v + 1) * 0.5)

/-- The aftertouch of one note moves. -/
def setPolyAftertouch (m : Memory) (n : Note) (v : Single) : Memory :=
  if n.toNat < noteCount then
    { m with polyAftertouches := m.polyAftertouches.setIfInBounds n.toNat v }.setController
      .polyAftertouch v
  else m

/-- The channel aftertouch moves. -/
def setAftertouch (m : Memory) (v : Single) : Memory :=
  { m with aftertouch := v }.setController .channelAftertouch v

/-- All controllers, the bend and the aftertouches go to rest. The notes stay, and so
does the gate while any of them is held. -/
def resetControllers (m : Memory) : Memory :=
  let rested : Memory := { m with
    controllers := .replicate _ 0
    bend := 0
    aftertouch := 0
    polyAftertouches := .replicate _ 0 }
  if 0 < m.held then rested.setController .noteGate 1 else rested

/-- What can happen to the memory. -/
inductive Event where
  | noteOn (note : Note) (velocity : Single)
  | noteOff (note : Note) (velocity : Single)
  | controller (number : Controller) (value : Single)
  | bend (value : Single)
  | polyAftertouch (note : Note) (value : Single)
  | aftertouch (value : Single)
  | resetControllers
  | reset
deriving DecidableEq

/-- The memory after an event. -/
def apply (m : Memory) : Event → Memory
  | .noteOn n v => m.noteOn n v
  | .noteOff n v => m.noteOff n v
  | .controller c v => m.setController c v
  | .bend v => m.setBend v
  | .polyAftertouch n v => m.setPolyAftertouch n v
  | .aftertouch v => m.setAftertouch v
  | .resetControllers => m.resetControllers
  | .reset => initial

/-- The memory after a run of events, in order. -/
def run (m : Memory) (events : List Event) : Memory := events.foldl apply m

@[simp] theorem run_nil (m : Memory) : m.run [] = m := rfl

@[simp] theorem run_cons (m : Memory) (e : Event) (es : List Event) :
    m.run (e :: es) = (m.apply e).run es := rfl

theorem run_append (m : Memory) (es fs : List Event) :
    m.run (es ++ fs) = (m.run es).run fs := by
  simp [run]

end Memory

end Voicing
