import Voicing.Proofs.Obedience

/-!
The moments at which layers sound.

A trigger says which layer sounds and why, but not how things stand at that moment. A
`Moment` keeps the memory and the layer beside the report; moments are taken in the same
places as reports, and without memory and layer they are the reports
(`Engine.reports_moments`).

* `Cue.moments_fit`: at every moment of an answer the sustain pedal is where the answer
  leaves it, and what is released is held by neither pedal.
* `Engine.Obedient.moments`: at every moment of an event the memory agrees with that.
* `held_release_never_sounds`: at the moment of a release, in a layer that minds the
  pedals on its releases, neither pedal holds the note.
-/

namespace Voicing

/-- A report with the memory and the layer as they are when it is made. -/
structure Moment where
  memory : Memory
  layer : Layer
  report : Report

namespace Layer

variable (l : Layer) (m : Memory) (draws : KeyStream)

/-- The moment of a report if the layer sounds. -/
def momentIf (kind : TriggerKind) (number : UInt16) (value : Single) (decided : Layer × Bool) :
    List Moment :=
  (reportIf kind number value decided.2).map (Moment.mk m decided.1)

/-- The moments at which releases that are decided again sound. -/
def redecideMoments : List Release → KeyStream → Layer → List Moment
  | [], _, _ => []
  | r :: rs, draws, l =>
    let decided := l.noteOff m r.note r.velocity draws.draw
    momentIf m .release r.note.toUInt16 r.velocity decided ++
      redecideMoments rs draws.next decided.1

/-- The moments at which releases sound that a lifted sustain pedal lets go. -/
def releaseLiftedMoments (wasDown : Bool) : List Moment :=
  if wasDown && !l.sustainDown then redecideMoments m l.sustained.toList draws l.dropSustained
  else []

end Layer

/-- The moments at which a layer answers a cue. -/
def Cue.moments (o : Occasion) (cue : Cue) (draws : KeyStream) (l : Layer) : List Moment :=
  match cue with
  | .noteOn n v =>
    Layer.momentIf o.memory .attack n.toUInt16 v
      ((l.switchKeys n o.previous).noteOn o.memory n v o.draw)
  | .noteOff n v =>
    Layer.momentIf o.memory .release n.toUInt16 v (l.noteOff o.memory n v o.draw)
  | .controller c v =>
    let moved := l.controller o.memory c v
    Layer.momentIf o.memory .controller c v moved ++
      moved.1.releaseLiftedMoments o.memory draws l.sustainDown
  | .rest => (l.rest o.memory).releaseLiftedMoments o.memory draws l.sustainDown
  | _ => []

/-! ### Moments are reports -/

namespace Layer

variable {l : Layer} {m : Memory} {draws : KeyStream}

theorem reports_momentIf (kind : TriggerKind) (number : UInt16) (value : Single)
    (decided : Layer × Bool) :
    (momentIf m kind number value decided).map (·.report) =
      reportIf kind number value decided.2 := by
  simp [momentIf, Function.comp_def]

theorem reports_redecideMoments (rs : List Release) :
    (redecideMoments m rs draws l).map (·.report) = (l.redecide m rs draws).reports := by
  induction rs generalizing draws l with
  | nil => rfl
  | cons r rs ih =>
      simp only [redecideMoments, redecide, List.map_append, reports_momentIf, ih]

theorem reports_releaseLiftedMoments (wasDown : Bool) :
    (l.releaseLiftedMoments m draws wasDown).map (·.report) =
      (l.releaseLifted m wasDown draws).reports := by
  unfold releaseLiftedMoments releaseLifted
  split
  · exact reports_redecideMoments _
  · rfl

end Layer

theorem Cue.reports_moments (o : Occasion) (cue : Cue) (draws : KeyStream) (l : Layer) :
    (cue.moments o draws l).map (·.report) = (cue.answer o draws l).reports := by
  cases cue with
  | noteOn n v => exact Layer.reports_momentIf _ _ _ _
  | noteOff n v => exact Layer.reports_momentIf _ _ _ _
  | controller c v =>
      simp only [moments, answer, Layer.answerController, List.map_append, Layer.reports_momentIf,
        Layer.reports_releaseLiftedMoments]
  | rest => exact Layer.reports_releaseLiftedMoments _
  | _ => rfl

namespace Engine

/-- The moments at which the layer at a place answers a cue. -/
def momentsAt (e : Engine) (i : Nat) (cue : Cue) : List Moment :=
  (e.layers[i]?.map fun l => cue.moments (e.occasion cue) (e.streamFor cue i) l).getD []

/-- The moments at which the layer at a place answers cues one after the other. -/
def momentsAlong (e : Engine) (i : Nat) : List Cue → List Moment
  | [] => []
  | cue :: cues => e.momentsAt i cue ++ (e.take cue).1.momentsAlong i cues

/-- The moments at which the layer at a place is reported to sound on an event. -/
def moments (e : Engine) (i : Nat) (event : Event) : List Moment :=
  if event = .resetControllers then [] else e.momentsAlong i (e.cues event)

theorem reports_momentsAt (e : Engine) (i : Nat) (cue : Cue) :
    (e.momentsAt i cue).map (·.report) = reportsOf i (e.take cue).2 := by
  rw [reportsOf_take]
  unfold momentsAt
  cases e.layers[i]? with
  | none => rfl
  | some l => exact Cue.reports_moments _ _ _ _

theorem reports_momentsAlong (e : Engine) (i : Nat) (cues : List Cue) :
    (e.momentsAlong i cues).map (·.report) = reportsOf i (e.follow cues).2 := by
  induction cues generalizing e with
  | nil => rfl
  | cons cue cues ih =>
      simp only [momentsAlong, follow_cons, List.map_append, reportsOf_append, reports_momentsAt,
        ih]

/-- Without memory and layer, the moments of an event are its reports. -/
theorem reports_moments (e : Engine) (i : Nat) (event : Event) :
    (e.moments i event).map (·.report) = reportsOf i (e.step event).2 := by
  rw [step_eq_follow]
  unfold moments
  split
  · rfl
  · exact reports_momentsAlong e i _

end Engine

/-! ### What holds at a moment -/

namespace Moment

/-- Neither pedal holds the note of the report. -/
structure Free (s : Moment) : Prop where
  sustain_up : s.layer.sustainDown = false
  not_caught : ∀ n : Note, s.report.number = n.toUInt16 → s.layer.caught.holds n = false

/-- A moment with this memory in the life of this layer: settings and sustain pedal are
the layer's, and if the layer minds the pedals on its releases, a release is free. -/
structure Fits (m : Memory) (l : Layer) (s : Moment) : Prop where
  memory : s.memory = m
  settings : s.layer.settings = l.settings
  sustain : s.layer.sustainDown = l.sustainDown
  free : s.report.kind = .release → l.settings.mode = .release → s.Free

/-- A moment of a layer with these settings after all that has been heard: if the layer
minds the pedals on its releases, a release is free, and the memory of a known controller
of MIDI does not press the sustain pedal. -/
structure Lawful (heard : List Cue) (settings : Option Settings) (s : Moment) : Prop where
  settings : settings = some s.layer.settings
  free : s.report.kind = .release → s.layer.settings.mode = .release → s.Free
  heeds : s.report.kind = .release → s.layer.settings.mode = .release →
    s.layer.settings.sustain.controller.toNat < 128 →
    s.layer.settings.sustain.controller.isKnown heard = true →
    s.layer.settings.sustain.isPressedBy
      (s.memory.controller s.layer.settings.sustain.controller) = false

variable {m : Memory} {l l' : Layer} {s : Moment}

/-- After all controllers have gone to rest, those of MIDI are known. -/
theorem Lawful.of_rest {heard others : List Cue} {settings : Option Settings}
    (lawful : s.Lawful (heard ++ [.rest]) settings) : s.Lawful others settings := by
  refine ⟨lawful.settings, lawful.free, ?_⟩
  intro release mode midi _
  apply lawful.heeds release mode midi
  have inside : s.layer.settings.sustain.controller.toNat < controllerCount :=
    Nat.lt_trans midi (by decide)
  rw [Controller.isKnown_append]
  simp [Cue.makesKnown, inside]

theorem Fits.of_same (fits : s.Fits m l) (settings : l.settings = l'.settings)
    (sustain : l.sustainDown = l'.sustainDown) : s.Fits m l' := by
  refine ⟨fits.memory, fits.settings.trans settings, fits.sustain.trans sustain, ?_⟩
  rw [← settings]
  exact fits.free

end Moment

namespace Layer

variable {l : Layer} {m : Memory} {s : Moment}

theorem mem_momentIf {kind : TriggerKind} {number : UInt16} {value : Single}
    {decided : Layer × Bool} :
    s ∈ momentIf m kind number value decided ↔
      decided.2 = true ∧ s = ⟨m, decided.1, kind, number, value⟩ := by
  unfold momentIf reportIf
  cases decided.2 <;> simp

theorem Orderly.noteOff_fits (orderly : l.Orderly) {n : Note} {v w r : Single}
    (mem : s ∈ momentIf m .release n.toUInt16 w (l.noteOff m n v r)) : s.Fits m l := by
  obtain ⟨sounds, rfl⟩ := mem_momentIf.mp mem
  obtain ⟨settings, sustain, -, -⟩ := noteOff_fields l m n v r
  refine ⟨rfl, settings, sustain, ?_⟩
  intro _ mode
  obtain ⟨up, notCaught⟩ := orderly.free_of_sounds mode sounds
  refine ⟨sustain.trans up, ?_⟩
  intro other same
  have number : n = other := UInt8.toUInt16_inj.mp same
  rw [← number, orderly.caught_noteOff]
  exact notCaught

theorem Orderly.redecide_fits (orderly : l.Orderly) {rs : List Release} {draws : KeyStream}
    (mem : s ∈ redecideMoments m rs draws l) : s.Fits m l := by
  induction rs generalizing draws l with
  | nil => exact absurd mem (List.not_mem_nil)
  | cons r rs ih =>
      rcases List.mem_append.mp mem with now | later
      · exact orderly.noteOff_fits now
      · obtain ⟨settings, sustain, -, -⟩ := noteOff_fields l m r.note r.velocity draws.draw
        exact (ih orderly.noteOff later).of_same settings sustain

theorem Orderly.releaseLifted_fits (orderly : l.Orderly) {draws : KeyStream} {wasDown : Bool}
    (mem : s ∈ l.releaseLiftedMoments m draws wasDown) : s.Fits m l := by
  unfold releaseLiftedMoments at mem
  split at mem
  · have dropped : l.dropSustained.Orderly := orderly.step .dropSustained
    exact (dropped.redecide_fits mem).of_same rfl rfl
  · exact absurd mem (List.not_mem_nil)

end Layer

/-- At every moment of an answer the sustain pedal is where the answer leaves it, and what
is released is held by neither pedal. -/
theorem Cue.moments_fit {l : Layer} (orderly : l.Orderly) (o : Occasion) (cue : Cue)
    (draws : KeyStream) {s : Moment} (mem : s ∈ cue.moments o draws l) :
    s.Fits o.memory (cue.answer o draws l).layer := by
  cases cue with
  | noteOn n v =>
      obtain ⟨-, rfl⟩ := Layer.mem_momentIf.mp mem
      exact ⟨rfl, rfl, rfl, fun kind => nomatch kind⟩
  | noteOff n v =>
      obtain ⟨settings, sustain, -, -⟩ := Layer.noteOff_fields l o.memory n v o.draw
      exact (orderly.noteOff_fits mem).of_same settings.symm sustain.symm
  | controller c v =>
      have settings := Layer.settings_releaseLifted (l.controller o.memory c v).1 o.memory draws
        l.sustainDown
      have sustain := Layer.sustainDown_releaseLifted (l.controller o.memory c v).1 o.memory draws
        l.sustainDown
      rcases List.mem_append.mp mem with own | lifted
      · obtain ⟨-, rfl⟩ := Layer.mem_momentIf.mp own
        exact ⟨rfl, settings.symm, sustain.symm, fun kind => nomatch kind⟩
      · exact (orderly.controller.releaseLifted_fits lifted).of_same settings.symm sustain.symm
  | rest =>
      have settings := Layer.settings_releaseLifted (l.rest o.memory) o.memory draws l.sustainDown
      have sustain := Layer.sustainDown_releaseLifted (l.rest o.memory) o.memory draws l.sustainDown
      have rested : (l.rest o.memory).Orderly :=
        Layer.rest_keeps o.memory (fun _ _ h => h.controller) (orderly.of_hold rfl)
      exact (rested.releaseLifted_fits mem).of_same settings.symm sustain.symm
  | _ => exact absurd mem (List.not_mem_nil)

/-- A pedal that no value presses is not minded, or the value is below its threshold. -/
theorem Pedal.isPressedBy_eq_false_iff {p : Pedal} {value : Single} :
    p.isPressedBy value = false ↔ p.minded = false ∨ ¬ p.threshold ≤ value := by
  unfold isPressedBy
  cases p.minded <;> simp

namespace Engine

variable {heard : List Cue} {e : Engine} {i : Nat} {s : Moment}

/-- A moment of a cue is one in the life of the layer that the cue leads to. -/
theorem Obedient.momentsAt_fit (obedient : Obedient heard e) {cue : Cue}
    (mem : s ∈ e.momentsAt i cue) :
    ∃ l, (e.take cue).1.layers[i]? = some l ∧ s.Fits (e.take cue).1.memory l := by
  unfold momentsAt at mem
  cases at_place : e.layers[i]? with
  | none => simp [at_place] at mem
  | some l =>
      rw [at_place] at mem
      refine ⟨(e.answerOf cue i l).layer, ?_, ?_⟩
      · rw [layer_take, at_place]
        rfl
      · exact Cue.moments_fit (obedient.orderly l (List.mem_of_getElem? at_place)) _ _ _ mem

/-- The moments of a cue are lawful. -/
theorem Obedient.momentsAt (obedient : Obedient heard e) {cue : Cue}
    (mem : s ∈ e.momentsAt i cue) :
    s.Lawful (heard ++ [cue]) (e.layers[i]?.map (·.settings)) := by
  obtain ⟨l, at_place, fits⟩ := obedient.momentsAt_fit mem
  have free (release : s.report.kind = .release) (mode : s.layer.settings.mode = .release) :
      s.Free :=
    fits.free release (fits.settings ▸ mode)
  refine ⟨?_, free, ?_⟩
  · rw [← settings_take e cue, at_place, fits.settings]
    rfl
  · intro release mode midi known
    have up := (free release mode).sustain_up
    rw [fits.settings] at midi known ⊢
    have heeds := (obedient.take cue).heeds l (List.mem_of_getElem? at_place) midi known
    rw [fits.memory]
    exact heeds.symm.trans (fits.sustain.symm.trans up)

/-- The moments of an event are lawful, as those of its cues are. When all controllers are
reset, the first cue already makes them known. -/
theorem Obedient.moments (obedient : Obedient heard e) {event : Event}
    (mem : s ∈ e.moments i event) :
    s.Lawful (heard ++ e.cues event) (e.layers[i]?.map (·.settings)) := by
  unfold Engine.moments at mem
  split at mem
  · exact absurd mem (List.not_mem_nil)
  · have few := fewCues_cues e event
    generalize e.cues event = cues at few mem ⊢
    cases few with
    | nothing => exact absurd mem (List.not_mem_nil)
    | single cue =>
        rw [momentsAlong, momentsAlong, List.append_nil] at mem
        exact obedient.momentsAt mem
    | resetAll v =>
        rw [momentsAlong, momentsAlong, momentsAlong, List.append_nil] at mem
        rcases List.mem_append.mp mem with resting | own
        -- What is heard of the second cue makes no difference to the first.
        · exact (obedient.momentsAt resting).of_rest
        · have later := (obedient.take .rest).momentsAt own
          rwa [settings_take, List.append_assoc] at later

end Engine

/-- A held release never sounds. The moments of an event are what is reported on it, each
with the memory and the layer as they are then; at a moment at which a layer that minds
the pedals on its releases sounds for a release, its sustain pedal is up and the sostenuto
pedal has not caught the note. If the sustain pedal is moved by a controller of MIDI that
has arrived or gone to zero since everything last started over, it is not minded or the
memory has the controller below the threshold. -/
theorem held_release_never_sounds (b : Bank) (draws : KeyStream) (before : List Engine.Event)
    (event : Engine.Event) (i : Nat) :
    let start := Engine.ofBank b draws
    let e := (start.run before).1
    (e.moments i event).map (·.report) = reportsOf i (e.step event).2 ∧
      ∀ s ∈ e.moments i event, b.layers[i]? = some s.layer.settings ∧
        (s.report.kind = .release → s.layer.settings.mode = .release →
          s.layer.sustainDown = false ∧
            (∀ n : Note, s.report.number = n.toUInt16 → s.layer.caught.holds n = false) ∧
            let pedal := s.layer.settings.sustain
            pedal.controller.toNat < 128 →
              pedal.controller.isKnown ((before ++ [event]).flatMap start.cues) = true →
              pedal.minded = false ∨ ¬ pedal.threshold ≤ s.memory.controller pedal.controller) := by
  intro start e
  refine ⟨e.reports_moments i event, ?_⟩
  intro s mem
  have heard : (before ++ [event]).flatMap start.cues =
      before.flatMap start.cues ++ e.cues event := by
    rw [Engine.cues_eq_of_channel (Engine.channel_run start before)]
    simp
  have lawful := (Engine.obedient_run b draws before).moments mem
  rw [Engine.settings_run, ← heard] at lawful
  refine ⟨lawful.settings, ?_⟩
  intro release mode
  obtain ⟨up, free⟩ := lawful.free release mode
  refine ⟨up, free, ?_⟩
  intro pedal midi known
  exact Pedal.isPressedBy_eq_false_iff.mp (lawful.heeds release mode midi known)

/-- When the pedal is lifted, the release that it held sounds at a moment at which neither
pedal holds it any more. -/
theorem released_note_is_free :
    let b : Bank := ⟨none, none, [{ mode := .release }]⟩
    let pressed : List Engine.Event := [.controller .sustain 1, .noteOff 60 0]
    let e := ((Engine.ofBank b (.ofSeed 1)).run pressed).1
    ∃ s ∈ e.moments 0 (.controller .sustain 0), s.report = ⟨.release, 60, 0⟩ ∧
      s.layer.settings = { mode := .release } ∧ s.layer.sustainDown = false ∧
      s.layer.caught.holds 60 = false ∧ ¬ 0.5 ≤ s.memory.controller .sustain := by
  intro b pressed e
  have sounds : (e.moments 0 (.controller .sustain 0)).map (·.report) = [⟨.release, 60, 0⟩] := by
    decide +kernel
  have mem : ⟨.release, 60, 0⟩ ∈ (e.moments 0 (.controller .sustain 0)).map (·.report) := by
    rw [sounds]
    exact List.mem_cons_self
  obtain ⟨s, mem, report⟩ := List.mem_map.mp mem
  obtain ⟨-, moments⟩ := held_release_never_sounds b (.ofSeed 1) pressed (.controller .sustain 0) 0
  obtain ⟨listed, held⟩ := moments s mem
  have settings : s.layer.settings = { mode := .release } := (Option.some.inj listed).symm
  obtain ⟨up, free, heeds⟩ := held (by rw [report]) (by rw [settings])
  rw [settings] at heeds
  have below := (heeds (by decide) (by decide +kernel)).resolve_left (by decide)
  exact ⟨s, mem, report, settings, up, free 60 (by rw [report]; rfl), below⟩

end Voicing
