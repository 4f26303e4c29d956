import Voicing.Proofs.Followers

/-!
What layers are told.

To a layer a cue is a few events, one after the other: a note-on comes behind its key
switches, rest is every control at zero, and a sustain pedal that goes up has all that waited
told again as note-offs. Only a new start is nothing that a layer is told, since it is another
layer then.

* `Layer.redecide_layer`: releases are decided again by telling them.
* `Cue.answer_layer`, `Cue.told_of_report`: a layer after a cue is the layer after the events
  it is told, and a note that it reports is one of them.
* `Engine.layer_follow`: so a layer after any cues is the layer after all it is told.
-/

namespace Voicing

namespace Layer

/-- The memory that comes with an event. -/
def Event.memory? : Event → Option Memory
  | .noteOn m _ _ _ | .noteOff m _ _ _ | .controller m _ _ => some m
  | _ => none

/-- The velocity that comes with an event. -/
def Event.velocity? : Event → Option Single
  | .noteOn _ _ v _ | .noteOff _ _ v _ => some v
  | _ => none

/-- What a layer is told when releases are decided again. -/
def toldAgain (m : Memory) : List Release → KeyStream → List Event
  | [], _ => []
  | r :: rs, draws => .noteOff m r.note r.velocity draws.draw :: toldAgain m rs draws.next

/-- What a layer is told of the releases that waited, if its sustain pedal has come up. -/
def toldLifted (l : Layer) (m : Memory) (draws : KeyStream) (wasDown : Bool) : List Event :=
  if wasDown && !l.sustainDown then .dropSustained :: toldAgain m l.sustained.toList draws else []

section Again

variable (l : Layer) (m : Memory) (draws : KeyStream)

theorem redecide_layer (rs : List Release) :
    (l.redecide m rs draws).layer = l.run (toldAgain m rs draws) := by
  induction rs generalizing l draws with
  | nil => rfl
  | cons r rs ih => exact ih _ _

theorem releaseLifted_layer (wasDown : Bool) :
    (l.releaseLifted m wasDown draws).layer = l.run (l.toldLifted m draws wasDown) := by
  unfold releaseLifted toldLifted
  split
  · exact redecide_layer _ m draws _
  · rfl

variable {l m draws}

/-- What is told again is a release with the velocity with which it waited. -/
theorem mem_toldAgain {rs : List Release} {event : Event} (mem : event ∈ toldAgain m rs draws) :
    ∃ r ∈ rs, ∃ draw, event = .noteOff m r.note r.velocity draw := by
  induction rs generalizing draws with
  | nil => exact absurd mem List.not_mem_nil
  | cons r rs ih =>
      rcases List.mem_cons.mp mem with rfl | later
      · exact ⟨r, List.mem_cons_self, _, rfl⟩
      · obtain ⟨r', mem', told⟩ := ih later
        exact ⟨r', List.mem_cons_of_mem _ mem', told⟩

theorem mem_toldLifted {wasDown : Bool} {event : Event}
    (mem : event ∈ l.toldLifted m draws wasDown) :
    event = .dropSustained ∨
      ∃ r ∈ l.sustained.toList, ∃ draw, event = .noteOff m r.note r.velocity draw := by
  unfold toldLifted at mem
  split at mem
  · exact (List.mem_cons.mp mem).imp id mem_toldAgain
  · exact absurd mem List.not_mem_nil

/-- What is reported of releases that are decided again has been told. -/
theorem told_of_report_redecide {rs : List Release} {report : Report}
    (mem : report ∈ (l.redecide m rs draws).reports) :
    ∃ event ∈ toldAgain m rs draws, event.velocity? = some report.value := by
  induction rs generalizing l draws with
  | nil => exact absurd mem List.not_mem_nil
  | cons r rs ih =>
      rcases List.mem_append.mp mem with own | later
      · rw [eq_of_mem_reportIf own]
        exact ⟨_, List.mem_cons_self, rfl⟩
      · obtain ⟨event, told, velocity⟩ := ih later
        exact ⟨event, List.mem_cons_of_mem _ told, velocity⟩

theorem told_of_report_releaseLifted {wasDown : Bool} {report : Report}
    (mem : report ∈ (l.releaseLifted m wasDown draws).reports) :
    ∃ event ∈ l.toldLifted m draws wasDown, event.velocity? = some report.value := by
  unfold releaseLifted at mem
  unfold toldLifted
  split at mem
  · next lifted =>
      obtain ⟨event, told, velocity⟩ := told_of_report_redecide mem
      rw [if_pos lifted]
      exact ⟨event, List.mem_cons_of_mem _ told, velocity⟩
  · exact absurd mem List.not_mem_nil

end Again

end Layer

/-! ### Cues -/

/-- What a cue tells a layer. -/
def Cue.told (o : Occasion) (cue : Cue) (draws : KeyStream) (l : Layer) : List Layer.Event :=
  match cue with
  | .noteOn n v => [.switchKeys n o.previous, .noteOn o.memory n v o.draw]
  | .noteOff n v => [.noteOff o.memory n v o.draw]
  | .controller c v =>
    .controller o.memory c v ::
      (l.controller o.memory c v).1.toldLifted o.memory draws l.sustainDown
  | .rest => Layer.restEvents o.memory ++ (l.rest o.memory).toldLifted o.memory draws l.sustainDown
  | .bend v => [.bend v]
  | .aftertouch v => [.aftertouch v]
  | .polyAftertouch _ _ => []
  | .tempo s => [.tempo s]
  | .startOver => []

namespace Cue

variable {o : Occasion} {cue : Cue} {draws : KeyStream} {l : Layer}

/-- A layer after a cue is the layer after what it is told. -/
theorem answer_layer (going : cue ≠ .startOver) :
    (cue.answer o draws l).layer = l.run (cue.told o draws l) := by
  cases cue with
  | controller c v => exact Layer.releaseLifted_layer _ _ _ _
  | rest =>
      refine (Layer.releaseLifted_layer _ _ _ _).trans ?_
      rw [told, Layer.run_append, ← Layer.rest_eq_run]
  | startOver => exact absurd rfl going
  | _ => rfl

/-- The velocity of a note that is reported has been told. -/
theorem told_of_report {report : Report} (mem : report ∈ (cue.answer o draws l).reports)
    (note : report.kind ≠ .controller) :
    ∃ event ∈ cue.told o draws l, event.velocity? = some report.value := by
  cases cue with
  | noteOn n v =>
      rw [Layer.eq_of_mem_reportIf mem]
      exact ⟨_, List.mem_cons_of_mem _ List.mem_cons_self, rfl⟩
  | noteOff n v =>
      rw [Layer.eq_of_mem_reportIf mem]
      exact ⟨_, List.mem_cons_self, rfl⟩
  | controller c v =>
      rcases List.mem_append.mp mem with own | lifted
      · rw [Layer.eq_of_mem_reportIf own] at note
        exact absurd rfl note
      · obtain ⟨event, told, velocity⟩ := Layer.told_of_report_releaseLifted lifted
        exact ⟨event, List.mem_cons_of_mem _ told, velocity⟩
  | rest =>
      obtain ⟨event, told, velocity⟩ := Layer.told_of_report_releaseLifted mem
      exact ⟨event, List.mem_append_right _ told, velocity⟩
  | _ => exact absurd mem List.not_mem_nil

end Cue

/-! ### Engines -/

namespace Engine

/-- What a cue tells the layer at a place. -/
def toldAt (e : Engine) (i : Nat) (cue : Cue) : List Layer.Event :=
  (e.layers[i]?.map fun l => cue.told (e.occasion cue) (e.streamFor cue i) l).getD []

/-- What cues tell the layer at a place, one after the other. -/
def toldAlong (e : Engine) (i : Nat) : List Cue → List Layer.Event
  | [] => []
  | cue :: cues => e.toldAt i cue ++ (e.take cue).1.toldAlong i cues

theorem toldAt_of_layer {e : Engine} {i : Nat} {l : Layer} (listed : e.layers[i]? = some l)
    (cue : Cue) : e.toldAt i cue = cue.told (e.occasion cue) (e.streamFor cue i) l := by
  rw [toldAt, listed]
  rfl

/-- As long as nothing starts over, a layer is what it makes of all that it is told. -/
theorem layer_follow {cues : List Cue} (going : Cue.startOver ∉ cues) (e : Engine) (i : Nat) :
    (e.follow cues).1.layers[i]? = e.layers[i]?.map (·.run (e.toldAlong i cues)) := by
  induction cues generalizing e with
  | nil => simp [toldAlong]
  | cons cue cues ih =>
      rw [List.mem_cons, not_or] at going
      rw [follow_cons, ih going.2, layer_take, toldAlong]
      cases listed : e.layers[i]? with
      | none => rfl
      | some l =>
          simp only [Option.map_some, Layer.run_append, toldAt_of_layer listed]
          rw [answerOf, Cue.answer_layer (Ne.symm going.1)]

end Engine

end Voicing
