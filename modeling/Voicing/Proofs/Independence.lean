import Voicing.Proofs.Levels
import Voicing.Proofs.Pedals

/-!
Layers do not hear each other.

The layers of a bank share a memory and a stream of draws, and each takes as many draws as
its sustain pedal lets releases go. A layer that accepts every draw is not disturbed by
that: its reply to a cue, which is the layer afterwards and its reports, does not depend
on the draws at all (`Layer.reply_answer`). So it runs among other layers as it runs alone
(`layer_runs_as_alone`), whatever the other layers and the seeds are.
-/

namespace Voicing

/-- Every draw there can be is in the slice of these settings. -/
def Settings.AcceptsDraws (s : Settings) : Prop :=
  ∀ r : Single, 0 ≤ r → r < 1 → (Layer.initial s).acceptsDraw r = true

/-- The slice that is left to a layer when none is given holds every draw. -/
theorem Settings.acceptsDraws_of_whole {s : Settings} (whole : s.draws = ⟨0, 1⟩) :
    s.AcceptsDraws := by
  intro r low high
  have inside : (⟨0, 1⟩ : Interval Single).contains r = true :=
    Interval.contains_iff.mpr ⟨low, high⟩
  simp [Layer.acceptsDraw, Layer.initial, whole, inside]

/-- What is seen of an answer from outside: the layer afterwards and its reports. -/
def Answer.reply (a : Answer) : Layer × List Report := (a.layer, a.reports)

namespace Layer

variable {l : Layer} (accepts : l.settings.AcceptsDraws) (m : Memory) (n : Note) (v : Single)
  (draws others : KeyStream)
include accepts

theorem acceptsDraw_draw : l.acceptsDraw draws.draw = true :=
  accepts _ draws.draw_mem.1 draws.draw_mem.2

theorem admits_draw : l.admits m n v draws.draw = l.admits m n v others.draw := by
  unfold admits
  rw [acceptsDraw_draw accepts draws, acceptsDraw_draw accepts others]

theorem noteOn_draw : l.noteOn m n v draws.draw = l.noteOn m n v others.draw := by
  unfold noteOn
  rw [admits_draw accepts m n v draws others]

theorem noteOff_draw : l.noteOff m n v draws.draw = l.noteOff m n v others.draw := by
  unfold noteOff
  rw [admits_draw accepts m n v draws others]

theorem reply_redecide (rs : List Release) :
    (l.redecide m rs draws).reply = (l.redecide m rs others).reply := by
  induction rs generalizing l draws others with
  | nil => rfl
  | cons r rs ih =>
      have decided := noteOff_draw accepts m r.note r.velocity draws others
      have kept : (l.noteOff m r.note r.velocity others.draw).1.settings.AcceptsDraws := by
        rw [(noteOff_fields l m r.note r.velocity others.draw).1]
        exact accepts
      have later := ih kept draws.next others.next
      unfold redecide
      rw [decided]
      simp only [Answer.reply, Prod.mk.injEq] at later ⊢
      exact ⟨later.1, by rw [later.2]⟩

theorem reply_releaseLifted (wasDown : Bool) :
    (l.releaseLifted m wasDown draws).reply = (l.releaseLifted m wasDown others).reply := by
  unfold releaseLifted
  split
  · exact reply_redecide (l := l.dropSustained) accepts m draws others _
  · rfl

/-- The reply of a layer that accepts every draw does not depend on the draws, neither on
the one that the layers share nor on those that it takes itself. -/
theorem reply_answer (o : Occasion) (cue : Cue) (shared other : KeyStream) :
    (cue.answer { o with draw := shared.draw } draws l).reply =
      (cue.answer { o with draw := other.draw } others l).reply := by
  cases cue with
  | noteOn n v =>
      have decided := noteOn_draw (l := l.switchKeys n o.previous) accepts o.memory n v shared other
      simp only [Cue.answer, Answer.reply, decided]
  | noteOff n v =>
      have decided := noteOff_draw accepts o.memory n v shared other
      simp only [Cue.answer, Answer.reply, decided]
  | controller c v =>
      have kept : (l.controller o.memory c v).1.settings.AcceptsDraws := by
        rwa [settings_controller]
      have lifted := reply_releaseLifted kept o.memory draws others l.sustainDown
      simp only [Answer.reply, Prod.mk.injEq] at lifted
      simp only [Cue.answer, answerController, Answer.reply, lifted.1, lifted.2]
  | rest =>
      have kept : (l.rest o.memory).settings.AcceptsDraws := by
        rwa [settings_rest]
      simp only [Cue.answer, answerReset]
      exact reply_releaseLifted kept o.memory draws others l.sustainDown
  | _ => simp only [Cue.answer, silently, Answer.reply]

end Layer

namespace Engine

/-! ### Among others and alone -/

/-- A layer stands at a place of one engine and is all there is in another. -/
structure Mirrors (i : Nat) (among alone : Engine) (l : Layer) : Prop where
  memory : among.memory = alone.memory
  channel : among.channel = alone.channel
  among_layer : among.layers[i]? = some l
  alone_layers : alone.layers = [l]
  accepts : l.settings.AcceptsDraws

variable {i : Nat} {among alone : Engine} {l : Layer}

/-- In an engine of one layer all triggers are the layer's. -/
theorem take_single (only : alone.layers = [l]) (cue : Cue) :
    (alone.take cue).1.layers = [(alone.answerOf cue 0 l).layer] ∧
      (alone.take cue).2.map (·.report) = (alone.answerOf cue 0 l).reports := by
  have prepared : (alone.prepare cue).layers = [l] := only
  unfold take offerAll answerOf streamFor
  rw [prepared, only]
  simp [offer, streamAt, Function.comp_def]

/-- The layer's reply to a cue is the same among others and alone. -/
theorem Mirrors.take (mirrors : Mirrors i among alone l) (cue : Cue) :
    (∃ l', Mirrors i (among.take cue).1 (alone.take cue).1 l') ∧
      reportsOf i (among.take cue).2 = (alone.take cue).2.map (·.report) := by
  have reply : (among.answerOf cue i l).reply = (alone.answerOf cue 0 l).reply := by
    have occasion : among.occasion cue =
        { alone.occasion cue with draw := among.draws.draw } := by
      unfold Engine.occasion
      rw [mirrors.memory]
    unfold answerOf
    rw [occasion]
    exact Layer.reply_answer mirrors.accepts _ _ _ _ _ _
  obtain ⟨layers, reports⟩ := take_single mirrors.alone_layers cue
  have among_layer := layer_take among cue i
  have among_reports := reportsOf_take among cue i
  rw [mirrors.among_layer] at among_layer among_reports
  obtain ⟨same_layer, same_reports⟩ := Prod.mk.inj reply
  refine ⟨⟨(alone.answerOf cue 0 l).layer, ?_⟩, ?_⟩
  · refine ⟨?_, mirrors.channel, ?_, layers, ?_⟩
    · rw [memory_take, memory_take, mirrors.memory]
    · rw [among_layer, ← same_layer]
      rfl
    · unfold answerOf
      rw [Layer.settings_answer]
      exact mirrors.accepts
  · rw [among_reports, reports, ← same_reports]
    rfl

theorem Mirrors.follow (mirrors : Mirrors i among alone l) (cues : List Cue) :
    (∃ l', Mirrors i (among.follow cues).1 (alone.follow cues).1 l') ∧
      reportsOf i (among.follow cues).2 = (alone.follow cues).2.map (·.report) := by
  induction cues generalizing among alone l with
  | nil => exact ⟨⟨l, mirrors⟩, rfl⟩
  | cons cue cues ih =>
      obtain ⟨⟨l', taken⟩, reports⟩ := mirrors.take cue
      obtain ⟨followed, later⟩ := ih taken
      refine ⟨followed, ?_⟩
      simp only [follow_cons, reportsOf_append, List.map_append, reports, later]

theorem Mirrors.step (mirrors : Mirrors i among alone l) (event : Event) :
    (∃ l', Mirrors i (among.step event).1 (alone.step event).1 l') ∧
      reportsOf i (among.step event).2 = (alone.step event).2.map (·.report) := by
  obtain ⟨followed, reports⟩ := mirrors.follow (among.cues event)
  rw [step_eq_follow, step_eq_follow, ← cues_eq_of_channel mirrors.channel]
  refine ⟨followed, ?_⟩
  split
  · rfl
  · exact reports

theorem Mirrors.run (mirrors : Mirrors i among alone l) (events : List Event) :
    (∃ l', Mirrors i (among.run events).1 (alone.run events).1 l') ∧
      (among.run events).2.map (reportsOf i) = (alone.run events).2.map (·.map (·.report)) := by
  induction events generalizing among alone l with
  | nil => exact ⟨⟨l, mirrors⟩, rfl⟩
  | cons event events ih =>
      obtain ⟨⟨l', stepped⟩, reports⟩ := mirrors.step event
      obtain ⟨ran, later⟩ := ih stepped
      refine ⟨ran, ?_⟩
      simp only [run_cons, List.map_cons, reports, later]

end Engine

/-- A layer that accepts every draw runs among other layers as it runs alone: event by
event it reports the same, and afterwards memory and layer are the same, whatever the
other layers are and wherever the draws of the two engines come from. -/
theorem layer_runs_as_alone (b : Bank) (i : Nat) (s : Settings) (listed : b.layers[i]? = some s)
    (accepts : s.AcceptsDraws) (seed : Option UInt64) (draws others : KeyStream)
    (events : List Engine.Event) :
    let among := (Engine.ofBank b draws).run events
    let alone := (Engine.ofBank ⟨b.channel, seed, [s]⟩ others).run events
    among.2.map (reportsOf i) = alone.2.map (·.map (·.report)) ∧
      among.1.memory = alone.1.memory ∧
      ∃ l, among.1.layers[i]? = some l ∧ alone.1.layers = [l] := by
  intro among alone
  have start : Engine.Mirrors i (Engine.ofBank b draws)
      (Engine.ofBank ⟨b.channel, seed, [s]⟩ others) (.initial s) := by
    refine ⟨rfl, rfl, ?_, rfl, accepts⟩
    simp [Engine.ofBank, listed]
  obtain ⟨⟨l, mirrors⟩, reports⟩ := start.run events
  exact ⟨reports, mirrors.memory, l, mirrors.among_layer, mirrors.alone_layers⟩

/-- Two layers that mind the pedals on their releases; the first sounds on half of the
draws only. -/
def duet : Bank where
  layers := [{ draws := ⟨0, 0.5⟩, mode := .release }, { mode := .release }]

/-- Two notes end under the sustain pedal, and all controllers are reset. -/
def phrase : List Engine.Event :=
  [.noteOn 60 0.5, .noteOn 64 0.25, .controller .sustain 1, .noteOff 60 0, .noteOff 64 0,
    .controller .resetAll 0]

/-- The second layer of the duet does not hear how many releases the first one draws for. -/
theorem duet_release_runs_as_alone :
    duet.layers[1]? = some { mode := .release } ∧
      Settings.AcceptsDraws { mode := .release } ∧
      let among := (Engine.ofBank duet (.ofSeed 1)).run phrase
      let alone := (Engine.ofBank ⟨none, some 7, [{ mode := .release }]⟩ (.ofSeed 2)).run phrase
      among.2.map (reportsOf 1) = alone.2.map (·.map (·.report)) ∧
        among.1.memory = alone.1.memory ∧
        ∃ l, among.1.layers[1]? = some l ∧ alone.1.layers = [l] := by
  have listed : duet.layers[1]? = some { mode := .release } := rfl
  have accepts : Settings.AcceptsDraws { mode := .release } := Settings.acceptsDraws_of_whole rfl
  exact ⟨listed, accepts, layer_runs_as_alone duet 1 _ listed accepts _ _ _ phrase⟩

end Voicing
