import Voicing.Proofs.Pedals

/-!
Pedals follow what has been heard.

A controller is *known* once it has arrived or gone to zero since everything last started
over. The memory keeps the values of the controllers of MIDI, and each layer keeps the
position of its sustain pedal; they are moved by different code, yet the pedal of a layer
is where the memory says, as soon as its controller is known (`Engine.obedient_run`).
-/

namespace Voicing

/-! ### The memory of a controller -/

/-- What a cue does to the value of a controller of MIDI. -/
def Cue.valueAfter (c : Controller) (before : Single) : Cue → Single
  | .controller d v => if d = c then v else before
  | .rest | .startOver => 0
  | _ => before

namespace Memory

variable (m : Memory) (n : Note) (v : Single) {c : Controller}

/-- The controllers from 128 on are none of MIDI's. -/
theorem controller_setController_extended {d : Controller} (midi : c.toNat < 128)
    (extended : 128 ≤ d.toNat) : (m.setController d v).controller c = m.controller c := by
  rw [controller_setController, if_neg]
  rintro ⟨rfl, -⟩
  omega

/-- At rest every remembered controller is at zero, but for the note gate of a held note. -/
theorem controller_resetControllers_eq (inside : c.toNat < controllerCount) :
    m.resetControllers.controller c = if c = .noteGate ∧ 0 < m.held then 1 else 0 := by
  unfold resetControllers
  dsimp only
  by_cases held : 0 < m.held
  · rw [if_pos held, controller_setController]
    by_cases gate : Controller.noteGate = c
    · subst gate
      rw [if_pos ⟨rfl, by decide⟩, if_pos ⟨rfl, held⟩]
    · rw [if_neg fun same => gate same.1, if_neg fun same => gate same.1.symm]
      simp [Memory.controller, inside]
  · rw [if_neg held, if_neg fun same => held same.2]
    simp [Memory.controller, inside]

variable (midi : c.toNat < 128)
include midi

theorem controller_noteOn : (m.noteOn n v).controller c = m.controller c := by
  unfold noteOn
  split
  · dsimp only
    repeat rw [controller_setController_extended _ _ midi (by decide)]
    rfl
  · rfl

theorem controller_noteOff : (m.noteOff n v).controller c = m.controller c := by
  unfold noteOff
  split
  · generalize (if m.isPressed n then m.held - 1 else m.held) = held
    dsimp only
    split
    · repeat rw [controller_setController_extended _ _ midi (by decide)]
      rfl
    · rw [controller_setController_extended _ _ midi (by decide)]
      rfl
  · rfl

theorem controller_setPolyAftertouch : (m.setPolyAftertouch n v).controller c = m.controller c := by
  unfold setPolyAftertouch
  split
  · rw [controller_setController_extended _ _ midi (by decide)]
    rfl
  · rfl

theorem controller_resetControllers : m.resetControllers.controller c = 0 := by
  have inside : c.toNat < controllerCount := Nat.lt_trans midi (by decide)
  have other : c ≠ .noteGate := by
    rintro rfl
    exact absurd midi (by decide)
  rw [controller_resetControllers_eq m inside, if_neg fun gate => other gate.1]

/-- The memory keeps the latest value of a controller of MIDI. -/
theorem controller_remembered (cue : Cue) :
    (m.run cue.remembered).controller c = cue.valueAfter c (m.controller c) := by
  have inside : c.toNat < controllerCount := Nat.lt_trans midi (by decide)
  cases cue with
  | noteOn n v => exact controller_noteOn m n v midi
  | noteOff n v => exact controller_noteOff m n v midi
  | controller d v =>
      refine (controller_setController m d c v).trans ?_
      by_cases same : d = c
      · subst same
        simp [Cue.valueAfter, inside]
      · simp [Cue.valueAfter, same]
  | rest => exact controller_resetControllers m midi
  | bend v => exact controller_setController_extended _ _ midi (by decide)
  | aftertouch v => exact controller_setController_extended _ _ midi (by decide)
  | polyAftertouch n v => exact controller_setPolyAftertouch m n v midi
  | tempo s => rfl
  | startOver => simp [Cue.remembered, apply, initial, Memory.controller, inside, Cue.valueAfter]

end Memory

/-! ### What has been heard -/

/-- Whether a controller is known after a cue. -/
def Cue.makesKnown (c : Controller) (before : Bool) : Cue → Bool
  | .controller d _ => before || d == c
  | .rest => before || decide (c.toNat < controllerCount)
  | .startOver => false
  | _ => before

/-- The controller has arrived or gone to zero since everything last started over. -/
def Controller.isKnown (c : Controller) (heard : List Cue) : Bool :=
  heard.foldl (Cue.makesKnown c) false

theorem Controller.isKnown_append (c : Controller) (heard : List Cue) (cue : Cue) :
    c.isKnown (heard ++ [cue]) = cue.makesKnown c (c.isKnown heard) := by
  simp [Controller.isKnown]

/-! ### The sustain pedal of a layer -/

theorem mem_allControllers (c : Controller) : c ∈ allControllers ↔ c.toNat < controllerCount := by
  unfold allControllers
  simp only [List.mem_map, List.mem_range]
  constructor
  · rintro ⟨k, below, rfl⟩
    have small : k < 65536 := Nat.lt_trans below (by decide)
    simpa [Nat.mod_eq_of_lt small] using below
  · exact fun below => ⟨c.toNat, below, by simp⟩

namespace Layer

variable {l : Layer} {m : Memory}

/-- A controller among many that all have one value moves the sustain pedal. -/
theorem sustainDown_controllers (v : Single) (cs : List Controller) (l : Layer) :
    (cs.foldl (fun l c => (l.controller m c v).1) l).sustainDown =
      if l.settings.sustain.controller ∈ cs then l.settings.sustain.isPressedBy v
      else l.sustainDown := by
  induction cs generalizing l with
  | nil => simp
  | cons c cs ih =>
      rw [List.foldl_cons, ih, settings_controller, sustainDown_controller]
      by_cases later : l.settings.sustain.controller ∈ cs
      · simp [later]
      · by_cases now : c = l.settings.sustain.controller
        · simp [now]
        · simp [later, now, Ne.symm now]

/-- The position of the sustain pedal after a cue. -/
def sustainAfter (l : Layer) : Cue → Bool
  | .controller c v =>
    if c = l.settings.sustain.controller then l.settings.sustain.isPressedBy v else l.sustainDown
  | .rest =>
    if l.settings.sustain.controller.toNat < controllerCount then l.settings.sustain.isPressedBy 0
    else l.sustainDown
  | .startOver => false
  | _ => l.sustainDown

theorem sustainDown_answer (o : Occasion) (cue : Cue) (draws : KeyStream) (l : Layer) :
    (cue.answer o draws l).layer.sustainDown = l.sustainAfter cue := by
  cases cue with
  | noteOn n v => exact congrArg Hold.sustainDown (hold_noteOn _ _ _ _ _)
  | noteOff n v => exact (noteOff_fields _ _ _ _ _).2.1
  | controller c v =>
      exact (sustainDown_releaseLifted _ _ _ _).trans (sustainDown_controller l o.memory v c)
  | rest =>
      refine (sustainDown_releaseLifted _ _ _ _).trans ?_
      refine (sustainDown_controllers 0 allControllers _).trans ?_
      simp only [mem_allControllers]
      rfl
  | _ => rfl

/-- The sustain pedal is where the memory says. -/
def Heeds (m : Memory) (l : Layer) : Prop :=
  l.sustainDown = l.settings.sustain.isPressedBy (m.controller l.settings.sustain.controller)

/-- The pedal and the memory of its controller move together. -/
theorem Heeds.answer {heard : List Cue} (cue : Cue) (o : Occasion) (draws : KeyStream)
    (midi : l.settings.sustain.controller.toNat < 128) (recorded : o.memory = m.run cue.remembered)
    (heeds : l.settings.sustain.controller.isKnown heard = true → l.Heeds m)
    (known : l.settings.sustain.controller.isKnown (heard ++ [cue]) = true) :
    (cue.answer o draws l).layer.Heeds o.memory := by
  have inside : l.settings.sustain.controller.toNat < controllerCount :=
    Nat.lt_trans midi (by decide)
  unfold Heeds at heeds ⊢
  rw [sustainDown_answer, settings_answer, recorded, Memory.controller_remembered m midi]
  rw [Controller.isKnown_append] at known
  cases cue with
  | controller c v =>
      by_cases same : c = l.settings.sustain.controller
      · simp [sustainAfter, Cue.valueAfter, same]
      · simp only [Cue.makesKnown, Bool.or_eq_true, beq_iff_eq, same, or_false] at known
        simpa [sustainAfter, Cue.valueAfter, same] using heeds known
  | rest => simp [sustainAfter, Cue.valueAfter, inside]
  | startOver => exact absurd known (by simp [Cue.makesKnown])
  | _ => exact heeds known

end Layer

namespace Engine

/-- Every layer is orderly, and its sustain pedal is where the memory says if its
controller is one of MIDI's and known from what has been heard. -/
structure Obedient (heard : List Cue) (e : Engine) : Prop where
  orderly : ∀ l ∈ e.layers, l.Orderly
  heeds : ∀ l ∈ e.layers, l.settings.sustain.controller.toNat < 128 →
    l.settings.sustain.controller.isKnown heard = true → l.Heeds e.memory

variable {heard : List Cue} {e : Engine}

theorem obedient_ofBank (b : Bank) (draws : KeyStream) : Obedient [] (ofBank b draws) := by
  constructor
  · intro l mem
    obtain ⟨s, _, rfl⟩ := List.mem_map.mp mem
    exact Layer.orderly_initial s
  · intro l mem midi known
    exact absurd known (by simp [Controller.isKnown])

theorem Obedient.take (obedient : Obedient heard e) (cue : Cue) :
    Obedient (heard ++ [cue]) (e.take cue).1 := by
  constructor
  · intro l' mem
    obtain ⟨i, l, before, rfl⟩ := mem_layers_take mem
    exact (obedient.orderly l before).answer _ _ _
  · intro l' mem midi known
    obtain ⟨i, l, before, rfl⟩ := mem_layers_take mem
    have settings : (e.answerOf cue i l).layer.settings = l.settings :=
      Layer.settings_answer l _ _ _
    rw [settings] at midi known
    exact Layer.Heeds.answer cue _ _ midi rfl (obedient.heeds l before midi) known

theorem Obedient.follow (obedient : Obedient heard e) (cues : List Cue) :
    Obedient (heard ++ cues) (e.follow cues).1 := by
  induction cues generalizing heard e with
  | nil => rwa [List.append_nil]
  | cons cue cues ih =>
      have later := ih (obedient.take cue)
      rwa [List.append_assoc] at later

/-- After every run the sustain pedals follow what has been heard. -/
theorem obedient_run (b : Bank) (draws : KeyStream) (events : List Event) :
    Obedient (events.flatMap (ofBank b draws).cues) ((ofBank b draws).run events).1 := by
  rw [run_fst_eq_follow]
  exact (obedient_ofBank b draws).follow _

end Engine

end Voicing
