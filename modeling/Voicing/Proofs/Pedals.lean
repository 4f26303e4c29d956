import Voicing.Proofs.Cue

/-!
Releases under the pedals.

The `Hold` of a layer is everything that decides whether a release waits: settings,
pedals and what they hold back. Only note-offs and controllers change it. A layer is
*orderly* if a lifted sostenuto pedal holds nothing and only layers that mind the pedals
have releases waiting; every step of a layer keeps that. Whether releases wait under a
*lifted* sustain pedal is another matter, since a controller lifts the pedal first and the
engine lets go of the releases afterwards.

* `Layer.releaseUnderPedals_eq`: in an orderly layer a release is caught, waits or sounds.
* `Layer.sustained_redecide`: what is decided again under a lifted pedal never waits again.
* `Layer.answer_of_lifted`: whatever lifts the pedal has all that waited decided again.
* `no_stuck_releases`: after every run of events, no release waits under a lifted sustain
  pedal, and none waits in a layer of another mode.
-/

namespace Voicing

/-- What decides whether a release waits. -/
structure Hold where
  settings : Settings
  sustainDown : Bool
  sostenutoDown : Bool
  sustained : HeldReleases
  caught : HeldReleases

namespace Layer

variable (l : Layer) (m : Memory) (n : Note) (v r : Single) (c : Controller)

def hold : Hold := ⟨l.settings, l.sustainDown, l.sostenutoDown, l.sustained, l.caught⟩

/-! ### What leaves the hold alone -/

@[simp] theorem hold_takeTurn : l.takeTurn.hold = l.hold := rfl

@[simp] theorem hold_sound : l.sound.1.hold = l.hold := rfl

@[simp] theorem hold_switchKeys (previous : Option Note) :
    (l.switchKeys n previous).hold = l.hold := rfl

@[simp] theorem hold_noteOn : (l.noteOn m n v r).1.hold = l.hold := by
  unfold noteOn
  split <;> rfl

@[simp] theorem hold_moveGate : (l.moveGate c v).hold = l.hold := rfl

@[simp] theorem hold_setBend : (l.setBend v).hold = l.hold := rfl

@[simp] theorem hold_setAftertouch : (l.setAftertouch v).hold = l.hold := rfl

@[simp] theorem hold_setTempo : (l.setTempo v).hold = l.hold := rfl

/-! ### Controllers -/

/-- What the sostenuto pedal has caught after a controller. -/
def caughtAfter : HeldReleases :=
  if c = l.settings.sostenuto.controller then
    let down := l.settings.sostenuto.isPressedBy v
    if down && !l.sostenutoDown then l.catchNotes m
    else if !down && l.sostenutoDown then .empty
    else l.caught
  else l.caught

/-- A controller moves the pedals it is meant for. Only the sostenuto pedal changes what
is held back by that. -/
theorem hold_controller :
    (l.controller m c v).1.hold =
      { l.hold with
        sustainDown :=
          if c = l.settings.sustain.controller then l.settings.sustain.isPressedBy v
          else l.sustainDown
        sostenutoDown :=
          if c = l.settings.sostenuto.controller then l.settings.sostenuto.isPressedBy v
          else l.sostenutoDown
        caught := l.caughtAfter m v c } := by
  have moved : (l.controller m c v).1.hold = ((l.moveSustain c v).moveSostenuto m c v).hold := by
    unfold controller
    dsimp only
    split
    · rw [hold_sound, hold_moveGate]
    · exact hold_moveGate _ v c
  rw [moved]
  unfold moveSostenuto moveSustain caughtAfter
  split <;> split <;> rfl

@[simp] theorem settings_controller : (l.controller m c v).1.settings = l.settings :=
  congrArg Hold.settings (hold_controller l m v c)

@[simp] theorem sustained_controller : (l.controller m c v).1.sustained = l.sustained :=
  congrArg Hold.sustained (hold_controller l m v c)

theorem sustainDown_controller :
    (l.controller m c v).1.sustainDown =
      if c = l.settings.sustain.controller then l.settings.sustain.isPressedBy v
      else l.sustainDown :=
  congrArg Hold.sustainDown (hold_controller l m v c)

/-! ### Note-offs -/

/-- The release of a note waits for the sustain pedal. -/
def defers : Bool :=
  l.admits m n v r && l.settings.mode == .release && !l.isCaught n && l.sustainDown

/-- A note-off leaves settings and pedals alone, and adds to the waiting releases only if
its own has to wait. -/
theorem noteOff_fields :
    (l.noteOff m n v r).1.settings = l.settings ∧
      (l.noteOff m n v r).1.sustainDown = l.sustainDown ∧
      (l.noteOff m n v r).1.sostenutoDown = l.sostenutoDown ∧
      (l.noteOff m n v r).1.sustained =
        if l.defers m n v r then l.sustained.push ⟨n, m.velocity n⟩ else l.sustained := by
  unfold noteOff defers
  cases admitted : l.admits m n v r with
  | false => simp
  | true =>
      cases mode : l.settings.mode with
      | release =>
          unfold releaseUnderPedals
          cases caught : l.isCaught n with
          | true => simp
          | false =>
              cases held : l.caught.holds n <;> cases down : l.sustainDown <;>
                simp [sound, takeTurn, down]
      | _ => simp [sound, takeTurn]

/-! ### Settings never change -/

theorem settings_step (event : Event) : (l.step event).1.settings = l.settings := by
  cases event with
  | noteOn m n v r => exact congrArg Hold.settings (hold_noteOn l m n v r)
  | noteOff m n v r => exact (noteOff_fields l m n v r).1
  | controller m c v => exact settings_controller l m v c
  | _ => rfl

theorem settings_run (events : List Event) : (l.run events).settings = l.settings :=
  run_keeps (P := fun k => k.settings = l.settings)
    (fun k event same => (settings_step k event).trans same) events rfl

@[simp] theorem settings_rest : (l.rest m).settings = l.settings :=
  rest_keeps (P := fun k => k.settings = l.settings) m
    (fun k c same => (settings_controller k m 0 c).trans same) rfl

@[simp] theorem settings_releaseLifted (draws : KeyStream) (wasDown : Bool) :
    (l.releaseLifted m wasDown draws).layer.settings = l.settings :=
  releaseLifted_keeps (P := fun k => k.settings = l.settings) m
    (fun k n v r same => (noteOff_fields k m n v r).1.trans same) wasDown draws rfl rfl

@[simp] theorem settings_answer (o : Occasion) (cue : Cue) (draws : KeyStream) :
    (cue.answer o draws l).layer.settings = l.settings :=
  Cue.answer_keeps (P := fun k => k.settings = l.settings)
    (fun k event same => (settings_step k event).trans same) o cue draws rfl rfl

end Layer

namespace Engine

theorem settings_take (e : Engine) (cue : Cue) (i : Nat) :
    (e.take cue).1.layers[i]?.map (·.settings) = e.layers[i]?.map (·.settings) := by
  rw [layer_take, Option.map_map]
  congr 1
  funext l
  exact l.settings_answer _ _ _

theorem settings_step (e : Engine) (event : Event) (i : Nat) :
    (e.step event).1.layers[i]?.map (·.settings) = e.layers[i]?.map (·.settings) := by
  rw [step_fst]
  refine follow_keeps
    (P := fun f => f.layers[i]?.map (·.settings) = e.layers[i]?.map (·.settings)) ?_ rfl _
  intro f cue same
  exact (settings_take f cue i).trans same

/-- The layers of an engine have the settings of its bank after any cues. -/
theorem settings_follow (b : Bank) (draws : KeyStream) (cues : List Cue) (i : Nat) :
    ((ofBank b draws).follow cues).1.layers[i]?.map (·.settings) = b.layers[i]? := by
  refine follow_keeps (P := fun e => e.layers[i]?.map (·.settings) = b.layers[i]?) ?_ ?_ cues
  · intro e cue same
    rw [settings_take]
    exact same
  · simp [ofBank, Function.comp_def, Layer.initial]

/-- The layers of an engine have the settings of its bank after every run. -/
theorem settings_run (b : Bank) (draws : KeyStream) (events : List Event) (i : Nat) :
    ((ofBank b draws).run events).1.layers[i]?.map (·.settings) = b.layers[i]? := by
  rw [run_fst_eq_follow]
  exact settings_follow b draws _ i

end Engine

namespace Layer

variable {l : Layer} {m : Memory} {n : Note} {v r : Single} {c : Controller}

/-! ### Orderly layers -/

/-- A lifted sostenuto pedal holds nothing, and only a layer that minds the pedals on its
releases lets them wait. -/
structure Orderly (l : Layer) : Prop where
  caught_of_up : l.sostenutoDown = false → l.caught = .empty
  sustained_of_mode : l.settings.mode ≠ .release → l.sustained = .empty

theorem orderly_initial (s : Settings) : (Layer.initial s).Orderly :=
  ⟨fun _ => rfl, fun _ => rfl⟩

theorem Orderly.of_hold {l' : Layer} (orderly : l.Orderly) (same : l'.hold = l.hold) :
    l'.Orderly := by
  obtain ⟨settings, -, sostenuto, sustained, caught⟩ := Hold.mk.inj same
  constructor
  · intro up
    rw [caught]
    exact orderly.caught_of_up (sostenuto ▸ up)
  · intro mode
    rw [sustained]
    exact orderly.sustained_of_mode (settings ▸ mode)

/-- What is not caught is not even on the list. -/
theorem Orderly.isCaught_eq (orderly : l.Orderly) (n : Note) : l.isCaught n = l.caught.holds n := by
  unfold isCaught
  cases down : l.sostenutoDown with
  | true => rw [Bool.and_true]
  | false => rw [orderly.caught_of_up down]; rfl

/-- In an orderly layer a release is caught, waits or sounds; nothing is ever taken off
the list of caught notes on the way. -/
theorem Orderly.releaseUnderPedals_eq (orderly : l.Orderly) :
    l.releaseUnderPedals m n =
      if l.caught.holds n then (l, false)
      else if l.sustainDown then ({ l with sustained := l.sustained.push ⟨n, m.velocity n⟩ }, false)
      else l.sound := by
  unfold releaseUnderPedals
  rw [orderly.isCaught_eq]
  cases held : l.caught.holds n <;> simp

theorem Orderly.caught_noteOff (orderly : l.Orderly) : (l.noteOff m n v r).1.caught = l.caught := by
  unfold noteOff
  split
  · cases l.settings.mode with
    | release =>
        dsimp only
        rw [orderly.releaseUnderPedals_eq]
        split
        · rfl
        · split <;> rfl
    | _ => rfl
  · rfl

/-- A release that sounds is held by neither pedal. -/
theorem Orderly.free_of_sounds (orderly : l.Orderly) (mode : l.settings.mode = .release)
    (sounds : (l.noteOff m n v r).2 = true) : l.sustainDown = false ∧ l.caught.holds n = false := by
  unfold Layer.noteOff at sounds
  split at sounds
  · rw [mode] at sounds
    dsimp only at sounds
    rw [orderly.releaseUnderPedals_eq] at sounds
    cases held : l.caught.holds n <;> cases down : l.sustainDown <;> simp [held, down] at sounds ⊢
  · exact absurd sounds Bool.false_ne_true

theorem Orderly.noteOff (orderly : l.Orderly) : (l.noteOff m n v r).1.Orderly := by
  obtain ⟨settings, -, sostenuto, sustained⟩ := noteOff_fields l m n v r
  constructor
  · intro up
    rw [orderly.caught_noteOff]
    exact orderly.caught_of_up (sostenuto ▸ up)
  · intro mode
    rw [settings] at mode
    have stays : l.defers m n v r = false := by simp [defers, mode]
    rw [sustained, stays]
    exact orderly.sustained_of_mode mode

theorem Orderly.controller (orderly : l.Orderly) : (l.controller m c v).1.Orderly := by
  obtain ⟨-, -, sostenuto, -, caught⟩ := Hold.mk.inj (hold_controller l m v c)
  constructor
  · intro up
    rw [sostenuto] at up
    rw [caught]
    unfold caughtAfter
    split at up
    · cases before : l.sostenutoDown with
      | true => simp [*]
      | false => simp [*, orderly.caught_of_up before]
    · simp [*, orderly.caught_of_up up]
  · intro mode
    rw [settings_controller] at mode
    rw [sustained_controller]
    exact orderly.sustained_of_mode mode

/-- Every step of a layer keeps it orderly. -/
theorem Orderly.step (orderly : l.Orderly) (event : Event) : (l.step event).1.Orderly := by
  cases event with
  | noteOn m n v r => exact orderly.of_hold (hold_noteOn l m n v r)
  | noteOff m n v r => exact orderly.noteOff
  | controller m c v => exact orderly.controller
  | dropSustained => exact ⟨orderly.caught_of_up, fun _ => rfl⟩
  | switchKeys n previous => exact orderly.of_hold (hold_switchKeys l n previous)
  | bend v => exact orderly.of_hold (hold_setBend l v)
  | aftertouch v => exact orderly.of_hold (hold_setAftertouch l v)
  | tempo s => exact orderly.of_hold (hold_setTempo l s)

theorem Orderly.answer (orderly : l.Orderly) (o : Occasion) (cue : Cue) (draws : KeyStream) :
    (cue.answer o draws l).layer.Orderly :=
  Cue.answer_keeps (fun _ event h => h.step event) o cue draws (orderly_initial _) orderly

/-- The layers of an engine are orderly after every run. -/
theorem orderly_of_mem_run {b : Bank} {draws : KeyStream} {events : List Engine.Event}
    (mem : l ∈ ((Engine.ofBank b draws).run events).1.layers) : l.Orderly :=
  Engine.run_keeps_layers orderly_initial (fun o cue draws _ orderly => orderly.answer o cue draws)
    b draws events mem

/-! ### The lifted sustain pedal -/

section Lifted

variable (l m) (rs : List Release) (draws : KeyStream) (wasDown : Bool)

/-- What is decided again under a lifted pedal never waits again. -/
theorem sustained_redecide (up : l.sustainDown = false) :
    (l.redecide m rs draws).layer.sustained = l.sustained := by
  suffices (l.redecide m rs draws).layer.sustainDown = false ∧
      (l.redecide m rs draws).layer.sustained = l.sustained from this.2
  refine redecide_keeps (P := fun k => k.sustainDown = false ∧ k.sustained = l.sustained) m
    ?_ rs draws ⟨up, rfl⟩
  rintro k n v r ⟨up, same⟩
  obtain ⟨-, still, -, waits⟩ := noteOff_fields k m n v r
  have stays : k.defers m n v r = false := by simp [defers, up]
  rw [stays] at waits
  exact ⟨still.trans up, waits.trans same⟩

theorem sustainDown_releaseLifted :
    (l.releaseLifted m wasDown draws).layer.sustainDown = l.sustainDown :=
  releaseLifted_keeps (P := fun k => k.sustainDown = l.sustainDown) m
    (fun k n v r same => (noteOff_fields k m n v r).2.1.trans same) wasDown draws rfl rfl

/-- Lifting the pedal lets go of everything that waits, and nothing else does. -/
theorem sustained_releaseLifted :
    (l.releaseLifted m wasDown draws).layer.sustained =
      if wasDown && !l.sustainDown then .empty else l.sustained := by
  unfold releaseLifted
  cases down : l.sustainDown with
  | true => simp [silently]
  | false =>
      cases wasDown with
      | true => exact sustained_redecide l.dropSustained m _ draws down
      | false => rfl

end Lifted

@[simp] theorem sustained_rest : (l.rest m).sustained = l.sustained :=
  rest_keeps (P := fun k => k.sustained = l.sustained) m
    (fun k c same => (sustained_controller k m 0 c).trans same) rfl

/-! ### What a lifted pedal lets go -/

/-- What a cue moves before anything is let go: the layer with its pedals moved, and what it
reports of the controller that moved them. Only controllers move pedals. -/
def movedBy (o : Occasion) (l : Layer) : Cue → Layer × List Report
  | .controller c v =>
    ((l.controller o.memory c v).1, reportIf .controller c v (l.controller o.memory c v).2)
  | .rest => (l.rest o.memory, [])
  | _ => (l, [])

/-- What waited is decided again, one release after the other, by a layer for which nothing waits
any more. What sounds of it is reported behind what had been reported before. -/
def lettingGo (m : Memory) (waiting : List Release) (draws : KeyStream)
    (moved : Layer × List Report) : Answer :=
  let decided := moved.1.dropSustained.redecide m waiting draws
  { decided with reports := moved.2 ++ decided.reports }

theorem lettingGo_nil (waiting : List Release) (draws : KeyStream) (moved : Layer) :
    lettingGo m waiting draws (moved, []) = moved.dropSustained.redecide m waiting draws := rfl

/-- A layer whose pedal has just been lifted decides again all that waited. -/
theorem releaseLifted_of_lifted {moved : Layer} (same : moved.sustained = l.sustained)
    (up : moved.sustainDown = false) (draws : KeyStream) :
    moved.releaseLifted m true draws =
      moved.dropSustained.redecide m l.sustained.toList draws := by
  unfold releaseLifted
  rw [up, same]
  rfl

/-- A controller that lifts the pedal: the layer's own trigger, then all that waited. -/
theorem answerController_of_lifted (down : l.sustainDown = true)
    (up : (l.controller m c v).1.sustainDown = false) (draws : KeyStream) :
    l.answerController m c v draws =
      lettingGo m l.sustained.toList draws
        ((l.controller m c v).1, reportIf .controller c v (l.controller m c v).2) := by
  unfold answerController
  dsimp only
  rw [down, releaseLifted_of_lifted (l.sustained_controller m v c) up]
  rfl

/-- Rest that lifts the pedal: all that waited. -/
theorem answerReset_of_lifted (down : l.sustainDown = true) (up : (l.rest m).sustainDown = false)
    (draws : KeyStream) :
    l.answerReset m draws = lettingGo m l.sustained.toList draws (l.rest m, []) := by
  unfold answerReset
  rw [down, releaseLifted_of_lifted sustained_rest up, lettingGo_nil]

/-- Whatever lifts the sustain pedal has all that waited decided again, unless everything
starts over. -/
theorem answer_of_lifted (o : Occasion) {cue : Cue} (draws : KeyStream) (other : cue ≠ .startOver)
    (down : l.sustainDown = true) (up : (cue.answer o draws l).layer.sustainDown = false) :
    (l.movedBy o cue).1.sustainDown = false ∧
      cue.answer o draws l = lettingGo o.memory l.sustained.toList draws (l.movedBy o cue) := by
  cases cue with
  | noteOn n v =>
      have still : (Cue.answer o (.noteOn n v) draws l).layer.sustainDown = l.sustainDown :=
        congrArg Hold.sustainDown (hold_noteOn _ _ _ _ _)
      exact absurd (down.symm.trans (still.symm.trans up)) (by decide)
  | noteOff n v =>
      have still := (noteOff_fields l o.memory n v o.draw).2.1
      exact absurd (down.symm.trans (still.symm.trans up)) (by decide)
  | controller c v =>
      have lifted : (l.controller o.memory c v).1.sustainDown = false :=
        (sustainDown_releaseLifted _ _ _ _).symm.trans up
      exact ⟨lifted, answerController_of_lifted down lifted draws⟩
  | rest =>
      have lifted : (l.rest o.memory).sustainDown = false :=
        (sustainDown_releaseLifted _ _ _ _).symm.trans up
      exact ⟨lifted, answerReset_of_lifted down lifted draws⟩
  | startOver => exact absurd rfl other
  | bend v => exact absurd (down.symm.trans up) (by decide)
  | aftertouch v => exact absurd (down.symm.trans up) (by decide)
  | polyAftertouch n v => exact absurd (down.symm.trans up) (by decide)
  | tempo s => exact absurd (down.symm.trans up) (by decide)

/-- No release waits under a lifted sustain pedal. -/
def Clear (l : Layer) : Prop := l.sustainDown = false → l.sustained = .empty

theorem Clear.of_hold {l' : Layer} (clear : l.Clear) (same : l'.hold = l.hold) : l'.Clear := by
  obtain ⟨-, sustain, -, sustained, -⟩ := Hold.mk.inj same
  intro up
  rw [sustained]
  exact clear (sustain ▸ up)

/-- If a layer whose pedals have moved lets go of what a lifted pedal held, nothing waits
under a lifted pedal again. -/
theorem Clear.releaseLifted {moved : Layer} (clear : l.Clear) (same : moved.sustained = l.sustained)
    (draws : KeyStream) : (moved.releaseLifted m l.sustainDown draws).layer.Clear := by
  intro up
  rw [sustainDown_releaseLifted] at up
  rw [sustained_releaseLifted, up, same]
  cases wasDown : l.sustainDown with
  | true => rfl
  | false => exact clear wasDown

/-- A layer that answers an event leaves no release waiting under a lifted pedal, although
on the way the pedal is lifted before the releases are let go. -/
theorem Clear.answer (clear : l.Clear) (o : Occasion) (cue : Cue) (draws : KeyStream) :
    (cue.answer o draws l).layer.Clear := by
  cases cue with
  | noteOn n v => exact clear.of_hold (hold_noteOn _ _ _ _ _)
  | noteOff n v =>
      obtain ⟨-, still, -, waits⟩ := noteOff_fields l o.memory n v o.draw
      intro up
      have up : l.sustainDown = false := still.symm.trans up
      have stays : l.defers o.memory n v o.draw = false := by simp [defers, up]
      exact waits.trans (by rw [stays]; exact clear up)
  | controller c v =>
      refine clear.releaseLifted ?_ draws
      exact sustained_controller l o.memory v c
  | rest =>
      refine clear.releaseLifted ?_ draws
      exact sustained_rest
  | startOver => exact fun _ => rfl
  | bend v => exact clear
  | aftertouch v => exact clear
  | polyAftertouch n v => exact clear
  | tempo s => exact clear

end Layer

/-- After every run of events no release waits under a lifted sustain pedal, and none
waits in a layer that does not mind the pedals on its releases. Whatever lifts the pedal
has all that waited decided again, unless everything starts over; and what is decided
again under a lifted pedal never waits again. -/
theorem no_stuck_releases (b : Bank) (draws : KeyStream) (events : List Engine.Event) :
    (∀ l ∈ ((Engine.ofBank b draws).run events).1.layers,
      (l.sustainDown = false → l.sustained = .empty) ∧
        (l.settings.mode ≠ .release → l.sustained = .empty)) ∧
      (∀ (o : Occasion) (cue : Cue) (draws : KeyStream) (l : Layer), cue ≠ .startOver →
        l.sustainDown = true → (cue.answer o draws l).layer.sustainDown = false →
        (l.movedBy o cue).1.sustainDown = false ∧
          cue.answer o draws l =
            Layer.lettingGo o.memory l.sustained.toList draws (l.movedBy o cue)) ∧
      ∀ (l : Layer) (m : Memory) (rs : List Release) (draws : KeyStream), l.sustainDown = false →
        (l.redecide m rs draws).layer.sustained = l.sustained := by
  refine ⟨?_, ?_, ?_⟩
  · intro l mem
    have clear : l.Clear :=
      Engine.run_keeps_layers (fun _ _ => rfl)
        (fun o cue draws _ clear => clear.answer o cue draws) b draws events mem
    exact ⟨clear, (Layer.orderly_of_mem_run mem).sustained_of_mode⟩
  · intro o cue draws l other down up
    exact Layer.answer_of_lifted o draws other down up
  · intro l m rs draws up
    exact l.sustained_redecide m rs draws up

/-- A release waits while the pedal is down, and not any more once it is up: it has sounded. -/
theorem lifted_pedal_lets_go :
    let start := Engine.ofBank ⟨none, none, [{ mode := .release }]⟩ (.ofSeed 1)
    let pressed : List Engine.Event := [.controller .sustain 1, .noteOff 60 0]
    let lifted : List Engine.Event := pressed ++ [.controller .sustain 0]
    (start.run pressed).1.layers.map (·.sustained.size) = [1] ∧
      reportsOf 0 (start.run lifted).2.flatten = [⟨.release, 60, 0⟩] ∧
      ∃ l ∈ (start.run lifted).1.layers, l.sustainDown = false ∧ l.sustained = .empty := by
  intro start pressed lifted
  have waits : (start.run pressed).1.layers.map (·.sustained.size) = [1] := by decide +kernel
  have sounds : reportsOf 0 (start.run lifted).2.flatten = [⟨.release, 60, 0⟩] := by
    decide +kernel
  have allUp : (start.run lifted).1.layers.map (·.sustainDown) = [false] := by decide +kernel
  have clear := (no_stuck_releases ⟨none, none, [{ mode := .release }]⟩ (.ofSeed 1) lifted).1
  generalize (start.run lifted).1.layers = layers at allUp clear
  obtain ⟨l, rfl, up⟩ := List.map_eq_singleton_iff.mp allUp
  exact ⟨waits, sounds, l, List.mem_cons_self, up, (clear l List.mem_cons_self).1 up⟩

end Voicing
