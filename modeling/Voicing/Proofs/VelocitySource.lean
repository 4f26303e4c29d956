import Voicing.Proofs.Pedals
import Voicing.Proofs.Recall

/-!
The velocity source of layers that attack.

A layer can be asked to hold the velocity of the latest note-on against its velocities. But a
note-on is remembered before it is offered to the layers, so at a note-on the latest velocity is
that of the note-on itself. The memory passes over the notes beyond the keyboard; a layer does
so too if its keys end on the keyboard. Only a note-off can tell the sources apart, and a layer
that attacks lets all of them pass.

* `Engine.heard_of_key`: at a note-on of a key the two sources read the same velocity.
* `Layer.answer_hearing`: to a layer that attacks the source makes no difference.
* `attacks_ignore_velocity_source`: nor does it to any run of a bank with such a layer.
-/

namespace Voicing

/-- The settings with a velocity source of their own. -/
def Settings.hearing (source : VelocitySource) (s : Settings) : Settings :=
  { s with velocitySource := source }

/-- The bank with another velocity source for the layer at a place. -/
def Bank.hearing (i : Nat) (source : VelocitySource) (b : Bank) : Bank :=
  { b with layers := b.layers.modify i (.hearing source) }

/-- The layer as it is, with another velocity source. -/
def Layer.hearing (source : VelocitySource) (l : Layer) : Layer :=
  { l with settings := l.settings.hearing source }

def Answer.hearing (source : VelocitySource) (a : Answer) : Answer :=
  { a with layer := a.layer.hearing source }

/-- The velocity of a note-on that is the layer's to answer is the latest one in the memory. -/
def Occasion.Heard (o : Occasion) (s : Settings) : Cue → Prop
  | .noteOn n v => s.keys.includes n = true → o.memory.lastVelocity = v
  | _ => True

namespace Layer

variable {l : Layer} (source : VelocitySource) (m : Memory) (n : Note) (v r : Single)

/-! ### Notes -/

/-- Where the latest velocity is that of the note, both sources read it. -/
theorem admits_hearing (heard : l.settings.keys.includes n = true → m.lastVelocity = v) :
    (l.hearing source).admits m n v r = l.admits m n v r := by
  have accepts (w : Single) : (l.hearing source).acceptsNote n w = l.acceptsNote n w := rfl
  have same : l.acceptsNote n ((l.hearing source).heardVelocity m v) =
      l.acceptsNote n (l.heardVelocity m v) := by
    -- Beyond its keys the layer refuses the note, whatever velocity it hears.
    cases inside : l.settings.keys.includes n with
    | false => simp only [acceptsNote, inside, Bool.false_and]
    | true =>
        unfold heardVelocity
        rw [heard inside]
        split <;> split <;> rfl
  unfold admits
  rw [accepts, same]
  rfl

theorem noteOn_hearing (heard : l.settings.keys.includes n = true → m.lastVelocity = v) :
    (l.hearing source).noteOn m n v r =
      ((l.noteOn m n v r).1.hearing source, (l.noteOn m n v r).2) := by
  have asks : (l.hearing source).modeAsks m = l.modeAsks m := rfl
  unfold noteOn
  rw [admits_hearing source m n v r heard, asks]
  split <;> rfl

/-- A layer that attacks lets note-offs pass. -/
theorem noteOff_of_attacking (attacking : l.settings.mode.isRelease = false) :
    l.noteOff m n v r = (l, false) := by
  unfold noteOff
  split
  · split
    · next mode => exact absurd attacking (by simp [mode, Mode.isRelease])
    · next mode => exact absurd attacking (by simp [mode, Mode.isRelease])
    · rfl
    · rfl
    · rfl
  · rfl

theorem noteOff_hearing (attacking : l.settings.mode.isRelease = false) :
    (l.hearing source).noteOff m n v r =
      ((l.noteOff m n v r).1.hearing source, (l.noteOff m n v r).2) := by
  rw [noteOff_of_attacking m n v r attacking]
  exact noteOff_of_attacking m n v r attacking

/-! ### Controllers -/

theorem moveSustain_hearing (c : Controller) :
    (l.hearing source).moveSustain c v = (l.moveSustain c v).hearing source := by
  unfold moveSustain
  change (if c = l.settings.sustain.controller then _ else _) = _
  split <;> rfl

theorem moveSostenuto_hearing (c : Controller) :
    (l.hearing source).moveSostenuto m c v = (l.moveSostenuto m c v).hearing source := by
  unfold moveSostenuto
  change (if c = l.settings.sostenuto.controller then _ else _) = _
  split <;> rfl

theorem controller_hearing (c : Controller) :
    (l.hearing source).controller m c v =
      ((l.controller m c v).1.hearing source, (l.controller m c v).2) := by
  have gate (k : Layer) : (k.hearing source).moveGate c v = (k.moveGate c v).hearing source := rfl
  have triggers (k : Layer) : (k.hearing source).isTrigger c v = k.isTrigger c v := rfl
  simp only [controller, moveSustain_hearing, moveSostenuto_hearing, gate, triggers]
  split <;> rfl

theorem rest_hearing : (l.hearing source).rest m = (l.rest m).hearing source := by
  have start : ((l.hearing source).setBend 0).setAftertouch 0 =
      ((l.setBend 0).setAftertouch 0).hearing source := rfl
  unfold rest
  rw [start]
  refine List.foldl_hom (hearing source) ?_
  intro k c
  exact congrArg Prod.fst (controller_hearing source m 0 c)

/-! ### Answers -/

theorem redecide_hearing (attacking : l.settings.mode.isRelease = false) (rs : List Release)
    (draws : KeyStream) :
    (l.hearing source).redecide m rs draws = (l.redecide m rs draws).hearing source := by
  induction rs generalizing draws with
  | nil => rfl
  | cons r rs ih =>
      unfold redecide
      rw [noteOff_of_attacking m r.note r.velocity draws.draw attacking,
        noteOff_of_attacking (l := l.hearing source) m r.note r.velocity draws.draw attacking]
      simp only [ih]
      rfl

theorem releaseLifted_hearing (attacking : l.settings.mode.isRelease = false) (wasDown : Bool)
    (draws : KeyStream) :
    (l.hearing source).releaseLifted m wasDown draws =
      (l.releaseLifted m wasDown draws).hearing source := by
  unfold releaseLifted
  have lifted : (wasDown && !(l.hearing source).sustainDown) = (wasDown && !l.sustainDown) := rfl
  rw [lifted]
  split
  · exact redecide_hearing (l := l.dropSustained) source m attacking l.sustained.toList draws
  · rfl

/-- To a layer that attacks the source makes no difference. -/
theorem answer_hearing (attacking : l.settings.mode.isRelease = false) {o : Occasion} {cue : Cue}
    (heard : o.Heard l.settings cue) (draws : KeyStream) :
    cue.answer o draws (l.hearing source) = (cue.answer o draws l).hearing source := by
  cases cue with
  | noteOn n v =>
      have switched : (l.hearing source).switchKeys n o.previous =
          (l.switchKeys n o.previous).hearing source := rfl
      simp only [Cue.answer, switched,
        noteOn_hearing (l := l.switchKeys n o.previous) source o.memory n v o.draw heard]
      rfl
  | noteOff n v =>
      simp only [Cue.answer, noteOff_hearing source o.memory n v o.draw attacking]
      rfl
  | controller c v =>
      have moved : (l.controller o.memory c v).1.settings.mode.isRelease = false := by
        rwa [settings_controller]
      have down : (l.hearing source).sustainDown = l.sustainDown := rfl
      simp only [Cue.answer, answerController, controller_hearing, down,
        releaseLifted_hearing source o.memory moved]
      rfl
  | rest =>
      have rested : (l.rest o.memory).settings.mode.isRelease = false := by
        rwa [settings_rest]
      simp only [Cue.answer, answerReset, rest_hearing]
      exact releaseLifted_hearing source o.memory rested l.sustainDown draws
  | _ => rfl

end Layer

/-! ### All layers -/

def Round.hearing (i : Nat) (source : VelocitySource) (round : Round) : Round :=
  { round with layers := round.layers.modify i (.hearing source) }

/-- If the source makes no difference to the layer at a place, it makes none to the others. -/
theorem offer_hearing (answer : KeyStream → Layer → Answer) (source : VelocitySource) (j i : Nat)
    (draws : KeyStream) (ls : List Layer)
    (same : ∀ l, ls[i]? = some l → ∀ draws,
      answer draws (l.hearing source) = (answer draws l).hearing source) :
    offer answer j draws (ls.modify i (.hearing source)) =
      (offer answer j draws ls).hearing i source := by
  induction ls generalizing j i draws with
  | nil => cases i <;> rfl
  | cons l ls ih =>
      cases i with
      | zero =>
          simp only [List.modify_zero_cons, offer, same l rfl draws]
          rfl
      | succ i =>
          simp only [List.modify_succ_cons, offer, ih (j + 1) i (answer draws l).draws same]
          rfl

namespace Engine

/-- The engine as it is, with another velocity source for the layer at a place. -/
def hearing (i : Nat) (source : VelocitySource) (e : Engine) : Engine :=
  { e with layers := e.layers.modify i (.hearing source) }

theorem ofBank_hearing (b : Bank) (i : Nat) (source : VelocitySource) (draws : KeyStream) :
    ofBank (b.hearing i source) draws = (ofBank b draws).hearing i source := by
  have layers : (b.layers.modify i (.hearing source)).map Layer.initial =
      (b.layers.map Layer.initial).modify i (.hearing source) := by
    refine List.ext_getElem? fun j => ?_
    simp only [List.getElem?_map, List.getElem?_modify]
    cases b.layers[j]? with
    | none => rfl
    | some s => split <;> rfl
  unfold ofBank Bank.hearing hearing
  rw [layers]

/-- Every cue reaches the layers with the velocity that is the latest one in the memory, as far
as notes on the keyboard go. -/
theorem heard_of_key (e : Engine) (cue : Cue) {s : Settings}
    (keyboard : s.keys.high.toNat < noteCount) : (e.occasion cue).Heard s cue := by
  cases cue with
  | noteOn n v =>
      intro inside
      have below : n.toNat ≤ s.keys.high.toNat := (Interval.includes_iff.mp inside).2
      have key : n.toNat < noteCount := Nat.lt_of_le_of_lt below keyboard
      have last := e.memory.last_apply (.noteOn n v)
      simp only [Memory.Event.startsOver, Memory.Event.played, if_pos key] at last
      exact congrArg Prod.snd last
  | _ => trivial

variable {e : Engine} {i : Nat} {s : Settings}
  (place : e.layers[i]?.map (·.settings) = some s) (attacking : s.mode.isRelease = false)
  (keyboard : s.keys.high.toNat < noteCount) (source : VelocitySource)
include place attacking keyboard

theorem take_hearing (cue : Cue) :
    (e.hearing i source).take cue = ((e.take cue).1.hearing i source, (e.take cue).2) := by
  have same (l : Layer) (here : e.layers[i]? = some l) (draws : KeyStream) :
      cue.answer (e.occasion cue) draws (l.hearing source) =
        (cue.answer (e.occasion cue) draws l).hearing source := by
    rw [here, Option.map_some, Option.some.injEq] at place
    subst place
    exact Layer.answer_hearing source attacking (e.heard_of_key cue keyboard) draws
  -- The memory and the draws are the same, so both engines offer the cue on the same occasion.
  have round := offer_hearing (cue.answer (e.occasion cue)) source 0 i (e.prepare cue).draws
    e.layers same
  exact congrArg (fun round : Round =>
    ({ e.prepare cue with layers := round.layers, draws := round.draws }, round.triggers)) round

theorem follow_hearing (cues : List Cue) :
    (e.hearing i source).follow cues = ((e.follow cues).1.hearing i source, (e.follow cues).2) := by
  induction cues generalizing e with
  | nil => rfl
  | cons cue cues ih =>
      have kept := (settings_take e cue i).trans place
      rw [follow_cons, follow_cons, take_hearing place attacking keyboard, ih kept]

theorem step_hearing (event : Event) :
    (e.hearing i source).step event = ((e.step event).1.hearing i source, (e.step event).2) := by
  have cues : (e.hearing i source).cues = e.cues := cues_eq_of_channel rfl
  rw [step_eq_follow, step_eq_follow, cues, follow_hearing place attacking keyboard]

theorem run_hearing (events : List Event) :
    (e.hearing i source).run events = ((e.run events).1.hearing i source, (e.run events).2) := by
  induction events generalizing e with
  | nil => rfl
  | cons event events ih =>
      have kept := (settings_step e event i).trans place
      rw [run_cons, run_cons, step_hearing place attacking keyboard, ih kept]

end Engine

/-- To a bank with a layer that attacks, and whose keys end on the keyboard, the velocity source
of this layer makes no difference: event by event the triggers are the same, and after every run
the memory, the stream of draws and all layers are, but for the setting itself. -/
theorem attacks_ignore_velocity_source (b : Bank) (i : Nat) (s : Settings)
    (listed : b.layers[i]? = some s) (attacking : s.mode.isRelease = false)
    (keyboard : s.keys.high.toNat < noteCount) (source : VelocitySource) (draws : KeyStream)
    (events : List Engine.Event) :
    let one := (Engine.ofBank b draws).run events
    let other := (Engine.ofBank (b.hearing i source) draws).run events
    other.2 = one.2 ∧ other.1.memory = one.1.memory ∧ other.1.draws = one.1.draws ∧
      other.1.layers = one.1.layers.modify i (.hearing source) := by
  intro one other
  have place : (Engine.ofBank b draws).layers[i]?.map (·.settings) = some s := by
    simp [Engine.ofBank, listed, Layer.initial]
  have same : other = (one.1.hearing i source, one.2) := by
    change (Engine.ofBank (b.hearing i source) draws).run events = _
    rw [Engine.ofBank_hearing]
    exact Engine.run_hearing place attacking keyboard source events
  rw [same]
  exact ⟨rfl, rfl, rfl, rfl⟩

/-- A layer for loud notes that are struck, and one for those that are let go. -/
def bell : Bank where
  layers := [{ velocities := ⟨0.5, 1⟩ }, { velocities := ⟨0.5, 1⟩, mode := .releaseKey }]

/-- A loud note is struck and let go, then a soft one, and a note beyond the keyboard. -/
def chime : List Engine.Event :=
  [.noteOn 60 0.75, .noteOff 60 0.5, .noteOn 62 0.25, .rawMessage [0x80, 62, 100],
    .noteOn 200 0.75]

/-- The bell strikes the loud note alone, whichever velocity its first layer is to hear. -/
theorem bell_strikes_either_way :
    let one := (Engine.ofBank bell (.ofSeed 1)).run chime
    let other := (Engine.ofBank (bell.hearing 0 .previous) (.ofSeed 1)).run chime
    (bell.hearing 0 .previous).layers[0]?.map (·.velocitySource) = some .previous ∧
      one.2.map (reportsOf 0) = [[⟨.attack, 60, 0.75⟩], [], [], [], []] ∧ other.2 = one.2 ∧
      other.1.memory = one.1.memory ∧ other.1.draws = one.1.draws ∧
      other.1.layers = one.1.layers.modify 0 (.hearing .previous) := by
  intro one other
  have struck : one.2.map (reportsOf 0) = [[⟨.attack, 60, 0.75⟩], [], [], [], []] := by
    decide +kernel
  have ignored := attacks_ignore_velocity_source bell 0 _ rfl rfl (by decide) .previous (.ofSeed 1)
    chime
  exact ⟨rfl, struck, ignored⟩

end Voicing
