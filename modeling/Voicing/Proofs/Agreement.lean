import Voicing.Proofs.Followers

/-!
Layers and memory agree.

A layer never looks a controller up in the memory: its gates and pedals are as they were
when it was told. They are where the memory would have them all the same.

* `layers_never_stale`: as long as a control of MIDI is known, every gate and pedal that
  follows it is where its value in the memory wants it.
* `rested_layers_agree`: right after all controllers are put to rest this also holds of the
  controllers beyond MIDI's, but for the note gate while a note is held, and of all pedals
  whose controllers are remembered.
* `note_gate_parted_by_rest`: of the note gate of a held note it does not hold. The memory
  leaves that controller at one, and layers are told that it is at zero.
-/

namespace Voicing

/-- Every gate and every pedal that follows a known control of MIDI is where the value of
the control in the memory wants it, after every run of events. A control is known if it has
been set, by its own message or by rest, and nothing has started over since. -/
theorem layers_never_stale (b : Bank) (draws : KeyStream) (events : List Engine.Event) :
    let start := Engine.ofBank b draws
    let heard := events.flatMap start.cues
    let e := (start.run events).1
    ∀ l ∈ e.layers,
      (∀ c : Controller, c.toNat < 128 → (Control.controller c).Known heard →
        (l.gates.controllers.isOpen c = true ↔
          ∀ range, Settings.FirstListed l.settings.conditions c range →
            range.includes (e.memory.controller c) = true) ∧
        (l.settings.sustain.controller = c → l.sustainDown =
          (l.settings.sustain.minded &&
            decide (l.settings.sustain.threshold ≤ e.memory.controller c))) ∧
        (l.settings.sostenuto.controller = c → l.sostenutoDown =
          (l.settings.sostenuto.minded &&
            decide (l.settings.sostenuto.threshold ≤ e.memory.controller c)))) ∧
      (Control.bend.Known heard → l.gates.bend = l.settings.bends.includes e.memory.bend) ∧
      (Control.aftertouch.Known heard →
        l.gates.aftertouch = l.settings.aftertouches.includes e.memory.aftertouch) := by
  intro start heard e l mem
  have agree (f : Follower) (midi : (f.control l.settings).IsMidi)
      (known : (f.control l.settings).Known heard) : f.Agrees e.memory l := by
    have ran := Engine.run_fst_eq_follow start events
    have followed := Engine.agrees_follow f midi known start
    rw [← ran] at followed
    exact followed l mem rfl
  refine ⟨?_, agree .bend trivial, agree .aftertouch trivial⟩
  intro c midi known
  have inside : c.toNat < controllerCount := Nat.lt_trans midi (by decide)
  refine ⟨?_, ?_, ?_⟩
  · exact Follower.agrees_gate_iff.mp (agree (.gate c inside) midi known)
  · rintro rfl
    exact agree .sustain midi known
  · rintro rfl
    exact agree .sostenuto midi known

/-- The sustain pedal is moved by the controller that resets all others, and the layer
wants the modulation wheel in its lower quarter. -/
def lastWord : Settings where
  conditions := [⟨1, ⟨0, 0.25⟩⟩]
  sustain := ⟨121, 0.5, true⟩
  bends := ⟨0.25, 0.5⟩

/-- Everything starts over, the modulation wheel and the bend go up, all controllers are
reset, and the bend goes up further than before. -/
def sweep : List Engine.Event :=
  [.controller 1 0.25, .reset, .controller 1 0.75, .bend 0.5, .controller 121 1,
    .noteOn 60 0.5, .bend 0.75]

/-- After the reset the memory has the modulation wheel at zero, so its gate is open again; the
pedal is down, because its controller came after the rest that it brought; and the bend has
gone too far for its gate. -/
theorem reset_and_its_own_value_are_heard :
    let start := Engine.ofBank ⟨none, none, [lastWord]⟩ (.ofSeed 1)
    let heard := sweep.flatMap start.cues
    let e := (start.run sweep).1
    (Control.controller 1).Known heard ∧ (Control.controller 121).Known heard ∧
      Control.bend.Known heard ∧ e.memory.controller 1 = 0 ∧ e.memory.controller 121 = 1 ∧
      e.memory.bend = 0.75 ∧ ∃ l ∈ e.layers, l.settings = lastWord ∧
        l.gates.controllers.isOpen 1 = true ∧ l.sustainDown = true ∧ l.gates.bend = false := by
  intro start heard e
  have known_wheel : (Control.controller 1).Known heard :=
    ⟨[.controller 1 0.25, .startOver, .controller 1 0.75, .bend 0.5], .rest,
      [.controller 121 1, .noteOn 60 0.5, .bend 0.75], rfl, rfl, by decide⟩
  have known_reset : (Control.controller 121).Known heard :=
    ⟨[.controller 1 0.25, .startOver, .controller 1 0.75, .bend 0.5, .rest],
      .controller 121 1, [.noteOn 60 0.5, .bend 0.75], rfl, rfl, by decide⟩
  have known_bend : Control.bend.Known heard :=
    ⟨[.controller 1 0.25, .startOver, .controller 1 0.75, .bend 0.5, .rest,
      .controller 121 1, .noteOn 60 0.5], .bend 0.75, [], rfl, rfl, by decide⟩
  have values : e.memory.controller 1 = 0 ∧ e.memory.controller 121 = 1 ∧
      e.memory.bend = 0.75 := by decide +kernel
  have agree := layers_never_stale ⟨none, none, [lastWord]⟩ (.ofSeed 1) sweep
  have listed := Engine.settings_run ⟨none, none, [lastWord]⟩ (.ofSeed 1) sweep 0
  obtain ⟨l, at_place, settings⟩ := Option.map_eq_some_iff.mp listed
  have mem : l ∈ e.layers := List.mem_of_getElem? at_place
  obtain ⟨controllers, bend, -⟩ := agree l mem
  have gate := (controllers 1 (by decide) known_wheel).1
  have pedal := (controllers 121 (by decide) known_reset).2.1 (by rw [settings]; rfl)
  have bend := bend known_bend
  change l.gates.controllers.isOpen 1 = true ↔
    ∀ range, Settings.FirstListed l.settings.conditions 1 range →
      range.includes (e.memory.controller 1) = true at gate
  change l.sustainDown = (l.settings.sustain.minded &&
    decide (l.settings.sustain.threshold ≤ e.memory.controller 121)) at pedal
  change l.gates.bend = l.settings.bends.includes e.memory.bend at bend
  rw [settings, values.1, ← Settings.meets_condition?_iff] at gate
  rw [settings, values.2.1] at pedal
  rw [settings, values.2.2] at bend
  exact ⟨known_wheel, known_reset, known_bend, values.1, values.2.1, values.2.2, l, mem, settings,
    gate.mpr (by decide), pedal.trans (by decide), bend.trans (by decide)⟩

/-! ### Right after all controllers are put to rest -/

namespace Engine

theorem memory_resetControllers (e : Engine) :
    e.resetControllers.1.memory = e.memory.resetControllers := rfl

theorem held_resetControllers (e : Engine) :
    e.resetControllers.1.memory.held = e.memory.held := by
  rw [memory_resetControllers]
  unfold Memory.resetControllers
  dsimp only
  split <;> rfl

/-- Right after all controllers are put to rest, whatever follows one that rests is where
zero wants it, and everything else is where it was. -/
theorem positions_resetControllers {e : Engine} {l' : Layer}
    (mem : l' ∈ e.resetControllers.1.layers) :
    ∃ l ∈ e.layers, l'.settings = l.settings ∧ ∀ f : Follower, f.position l' =
      if (f.control l'.settings).Rests then f.wanted l'.settings 0 else f.position l := by
  have taken : l' ∈ (e.take .rest).1.layers := mem
  obtain ⟨i, l, before, rfl⟩ := mem_layers_take taken
  refine ⟨l, before, Layer.settings_answer l _ _ _, ?_⟩
  intro f
  rw [answerOf, Layer.settings_answer]
  exact f.position_answerReset l _ _

end Engine

/-- Right after all controllers are put to rest every gate is as the memory has its
controller, and so is every pedal whose controller is remembered, but for the note gate
while a note is held: the memory leaves it at one, and its gate is where zero wants it. -/
theorem rested_layers_agree (b : Bank) (draws : KeyStream) (events : List Engine.Event) :
    let rested := ((Engine.ofBank b draws).run events).1.resetControllers.1
    ∀ l ∈ rested.layers,
      (∀ c : Controller, c.toNat < controllerCount → (c = .noteGate → rested.memory.held = 0) →
        (l.gates.controllers.isOpen c = true ↔
          ∀ range, Settings.FirstListed l.settings.conditions c range →
            range.includes (rested.memory.controller c) = true) ∧
        (l.settings.sustain.controller = c → l.sustainDown =
          (l.settings.sustain.minded &&
            decide (l.settings.sustain.threshold ≤ rested.memory.controller c))) ∧
        (l.settings.sostenuto.controller = c → l.sostenutoDown =
          (l.settings.sostenuto.minded &&
            decide (l.settings.sostenuto.threshold ≤ rested.memory.controller c)))) ∧
      l.gates.bend = l.settings.bends.includes rested.memory.bend ∧
      l.gates.aftertouch = l.settings.aftertouches.includes rested.memory.aftertouch ∧
      (0 < rested.memory.held → rested.memory.controller .noteGate = 1 ∧
        (l.gates.controllers.isOpen .noteGate = true ↔
          ∀ range, Settings.FirstListed l.settings.conditions .noteGate range →
            range.includes 0 = true)) := by
  intro rested l mem
  have reads {c : Controller} (inside : c.toNat < controllerCount)
      (settled : c = .noteGate → rested.memory.held = 0) :
      rested.memory.controller c = 0 := by
    refine (Memory.controller_resetControllers_eq _ inside).trans (if_neg ?_)
    rintro ⟨gate, held⟩
    rw [← Engine.held_resetControllers] at held
    exact absurd (settled gate) (Nat.ne_of_gt held)
  obtain ⟨before, -, -, positions⟩ := Engine.positions_resetControllers mem
  have agree (f : Follower) (rests : (f.control l.settings).Rests)
      (read : (f.control l.settings).reading rested.memory = 0) : f.Agrees rested.memory l := by
    unfold Follower.Agrees
    rw [read, positions f, if_pos rests]
  have wheels := Control.wheels_resetControllers ((Engine.ofBank b draws).run events).1.memory
  refine ⟨?_, agree .bend trivial wheels.1, agree .aftertouch trivial wheels.2, ?_⟩
  · intro c inside settled
    refine ⟨?_, ?_, ?_⟩
    · exact Follower.agrees_gate_iff.mp (agree (.gate c inside) inside (reads inside settled))
    · rintro rfl
      exact agree .sustain inside (reads inside settled)
    · rintro rfl
      exact agree .sostenuto inside (reads inside settled)
  · intro held
    have inside : Controller.noteGate.toNat < controllerCount := by decide
    rw [Engine.held_resetControllers] at held
    refine ⟨?_, ?_⟩
    · exact (Memory.controller_resetControllers_eq _ inside).trans (if_pos ⟨rfl, held⟩)
    · have position := (positions (.gate .noteGate inside)).trans (if_pos inside)
      rw [← Follower.wanted_gate_iff inside]
      exact Bool.eq_iff_iff.mp position

/-- At rest the wheel is in its lower half and the pedal is up, whatever was before. -/
def modest : Settings where
  conditions := [⟨1, ⟨0, 0.5⟩⟩]

theorem modest_layer_agrees_at_rest :
    let before : List Engine.Event := [.controller 1 1, .controller .sustain 1, .noteOn 60 0.5]
    let e := ((Engine.ofBank ⟨none, none, [modest]⟩ (.ofSeed 1)).run before).1
    let rested := e.resetControllers.1
    e.layers.map (fun l => (l.gates.controllers.isOpen 1, l.sustainDown)) = [(false, true)] ∧
      rested.memory.held = 1 ∧ rested.memory.controller 1 = 0 ∧
      rested.memory.controller .sustain = 0 ∧ ∃ l ∈ rested.layers, l.settings = modest ∧
        l.gates.controllers.isOpen 1 = true ∧ l.sustainDown = false := by
  intro before e rested
  have positions : e.layers.map (fun l => (l.gates.controllers.isOpen 1, l.sustainDown)) =
      [(false, true)] := by decide +kernel
  have values : rested.memory.held = 1 ∧ rested.memory.controller 1 = 0 ∧
      rested.memory.controller .sustain = 0 := by decide +kernel
  have listed := Engine.settings_run ⟨none, none, [modest]⟩ (.ofSeed 1)
    (before ++ [.resetControllers]) 0
  rw [Engine.run_append] at listed
  obtain ⟨l, at_place, settings⟩ := Option.map_eq_some_iff.mp listed
  have mem : l ∈ rested.layers := List.mem_of_getElem? at_place
  have agree := (rested_layers_agree ⟨none, none, [modest]⟩ (.ofSeed 1) before l mem).1
  have gate := (agree 1 (by decide) (by decide)).1
  have pedal := (agree .sustain (by decide) (by decide)).2.1 (by rw [settings]; rfl)
  change l.gates.controllers.isOpen 1 = true ↔
    ∀ range, Settings.FirstListed l.settings.conditions 1 range →
      range.includes (rested.memory.controller 1) = true at gate
  change l.sustainDown = (l.settings.sustain.minded &&
    decide (l.settings.sustain.threshold ≤ rested.memory.controller .sustain)) at pedal
  rw [settings, values.2.1] at gate
  rw [settings, values.2.2] at pedal
  refine ⟨positions, values.1, values.2.1, values.2.2, l, mem, settings, ?_, ?_⟩
  · apply gate.mpr
    intro range first
    cases Settings.condition?_eq_some_iff.mpr first
    decide
  · exact pedal.trans (by decide)

/-- A layer that asks for a held note by its note gate, and whose sustain pedal is moved by a
controller that is not remembered. While a note is held the memory has the note gate at
one, as the layer asks, and the pedal's controller at zero; but all controllers having been
put to rest, the layer has the gate closed and the pedal down. -/
theorem note_gate_parted_by_rest :
    let asks : Settings := { conditions := [⟨.noteGate, ⟨1, 1⟩⟩], sustain := ⟨600, 0.5, true⟩ }
    let start := Engine.ofBank ⟨none, none, [asks]⟩ (.ofSeed 1)
    let e := (start.run [.noteOn 60 0.5, .controller 600 1]).1
    let rested := e.resetControllers.1
    rested.memory.controller .noteGate = 1 ∧ rested.memory.controller 600 = 0 ∧
      ∃ l ∈ rested.layers, l.settings = asks ∧
        l.gates.controllers.isOpen .noteGate = false ∧ l.sustainDown = true := by
  intro asks start e rested
  have values : rested.memory.controller .noteGate = 1 ∧ rested.memory.controller 600 = 0 := by
    decide +kernel
  have pressed : e.layers.map (·.sustainDown) = [true] := by decide +kernel
  have listed := Engine.settings_run ⟨none, none, [asks]⟩ (.ofSeed 1)
    [.noteOn 60 0.5, .controller 600 1, .resetControllers] 0
  obtain ⟨l, at_place, settings⟩ := Option.map_eq_some_iff.mp listed
  have mem : l ∈ rested.layers := List.mem_of_getElem? at_place
  obtain ⟨before, mem_before, -, positions⟩ := Engine.positions_resetControllers mem
  have inside : Controller.noteGate.toNat < controllerCount := by decide
  have gate := (positions (.gate .noteGate inside)).trans (if_pos inside)
  have far : ¬ (Follower.sustain.control l.settings).Rests := by
    rw [settings]
    decide
  have pedal := (positions .sustain).trans (if_neg far)
  rw [settings] at gate
  have down : before.sustainDown = true := by
    have mem_map := List.mem_map_of_mem (f := Layer.sustainDown) mem_before
    exact List.mem_singleton.mp (pressed ▸ mem_map)
  exact ⟨values.1, values.2, l, mem, settings, gate.trans rfl, pedal.trans down⟩

end Voicing
