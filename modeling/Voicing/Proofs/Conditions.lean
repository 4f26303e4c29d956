import Voicing.Proofs.Faults
import Voicing.Proofs.Turns
import Mathlib.Data.List.Induction

/-!
Conditions on controllers.

A layer is silent unless the controllers that have a condition meet it. What counts is the value to
which a controller was set last, by a message or when all controllers went to rest, since everything
last started over; a controller that was never set stands in nobody's way. The condition on a
controller is the first one listed: a further one for the same controller is a setting without a
fault, but nothing ever looks at it.

* `Cue.gates_of_report`: a layer that reports has no gate closed, but for whose turn it is.
* `Follower.position_follow`: a position is where the last value of its control puts it.
* `Engine.gates_of_reportsAlong`: each report is made while the gates are open after all that has
  been heard by then.
* `reports_meet_conditions`: so the values that were heard last meet the conditions.
* `second_condition_is_not_asked`: unless there are two for a controller.
-/

namespace Voicing

/-! ### Values heard last -/

namespace Control

variable (k : Control)

/-- The value to which a control was set last, after a cue. -/
def lastAfter (last : Option Single) (cue : Cue) : Option Single :=
  if cue = .startOver then none else (k.setBy cue).or last

/-- The value to which cues set a control last, if any did since everything last started over. -/
def lastSet (heard : List Cue) : Option Single := heard.foldl k.lastAfter none

theorem lastSet_append (heard : List Cue) (cue : Cue) :
    k.lastSet (heard ++ [cue]) = k.lastAfter (k.lastSet heard) cue := by
  simp [lastSet]

end Control

namespace Follower

variable (f : Follower)

/-- Where the last value of its control puts a position that starts somewhere. -/
def positionOf (start : Bool) (s : Settings) (heard : List Cue) : Bool :=
  (((f.control s).lastSet heard).map (f.wanted s)).getD start

variable {f} {start : Bool} (fresh : ∀ s, f.position (.initial s) = start)
include fresh

/-- A cue puts a position where the last value of its control wants it, if it was there before. -/
theorem position_answer_of_positionOf {l : Layer} {heard : List Cue}
    (before : f.position l = f.positionOf start l.settings heard) (o : Occasion) (cue : Cue)
    (draws : KeyStream) :
    f.position (cue.answer o draws l).layer =
      f.positionOf start (cue.answer o draws l).layer.settings (heard ++ [cue]) := by
  rw [Layer.settings_answer, positionOf, Control.lastSet_append, Control.lastAfter]
  by_cases anew : cue = .startOver
  · subst anew
    exact fresh l.settings
  · rw [f.position_answer o draws anew, if_neg anew, before, positionOf]
    cases (f.control l.settings).setBy cue <;> rfl

/-- A position after any cues is where the last value of its control puts it. -/
theorem position_follow (b : Bank) (draws : KeyStream) (heard : List Cue) :
    ∀ l ∈ ((Engine.ofBank b draws).follow heard).1.layers,
      f.position l = f.positionOf start l.settings heard := by
  induction heard using List.reverseRecOn with
  | nil =>
      intro l mem
      obtain ⟨s, -, rfl⟩ := List.mem_map.mp mem
      exact fresh s
  | append_singleton heard cue ih =>
      intro l' mem
      rw [Engine.follow_append, Engine.follow_singleton] at mem
      obtain ⟨i, l, before, rfl⟩ := Engine.mem_layers_take mem
      exact position_answer_of_positionOf fresh (ih l before) _ cue _

end Follower

/-! ### Open gates -/

namespace Layer

variable {l : Layer} {m : Memory} {draws : KeyStream} {report : Report}

/-- What sounds leaves no gate closed, but for whose turn it is. -/
theorem gates_of_sounds (event : Event) (sounds : (l.step event).2 = true) :
    (l.step event).1.gatesOnTurn.areOpen = true := by
  rw [sounds_step, isReady_eq, Bool.and_eq_true, Bool.and_eq_true] at sounds
  exact sounds.2.1

theorem sounds_of_mem_reportIf {kind : TriggerKind} {number : UInt16} {value : Single}
    {sounds : Bool} (mem : report ∈ reportIf kind number value sounds) : sounds = true := by
  cases sounds with
  | true => rfl
  | false => exact absurd mem List.not_mem_nil

/-- Releases that are decided again move no gate, so that all are open if one sounds. -/
theorem gates_of_redecide {rs : List Release} (mem : report ∈ (l.redecide m rs draws).reports) :
    l.gatesOnTurn.areOpen = true := by
  induction rs generalizing l draws with
  | nil => exact absurd mem List.not_mem_nil
  | cons r rs ih =>
      rw [← l.gatesOnTurn_noteOff m r.note r.velocity draws.draw]
      rcases List.mem_append.mp mem with now | later
      · exact gates_of_sounds (.noteOff m r.note r.velocity draws.draw)
          (sounds_of_mem_reportIf now)
      · exact ih later

theorem gates_of_releaseLifted {wasDown : Bool}
    (mem : report ∈ (l.releaseLifted m wasDown draws).reports) : l.gatesOnTurn.areOpen = true := by
  unfold releaseLifted at mem
  split at mem
  · have dropped := gates_of_redecide mem
    exact dropped
  · exact absurd mem List.not_mem_nil

end Layer

/-- A layer that reports on a cue has no gate closed then, but for whose turn it is. -/
theorem Cue.gates_of_report {o : Occasion} {cue : Cue} {draws : KeyStream} {l : Layer}
    {report : Report} (mem : report ∈ (cue.answer o draws l).reports) :
    (cue.answer o draws l).layer.gatesOnTurn.areOpen = true := by
  cases cue with
  | noteOn n v =>
      exact Layer.gates_of_sounds (.noteOn o.memory n v o.draw)
        (Layer.sounds_of_mem_reportIf mem)
  | noteOff n v =>
      exact Layer.gates_of_sounds (.noteOff o.memory n v o.draw)
        (Layer.sounds_of_mem_reportIf mem)
  | controller c v =>
      refine (congrArg Gates.areOpen (Layer.gatesOnTurn_releaseLifted _ _ _ _)).trans ?_
      rcases List.mem_append.mp mem with own | lifted
      · exact Layer.gates_of_sounds (.controller o.memory c v)
          (Layer.sounds_of_mem_reportIf own)
      · exact Layer.gates_of_releaseLifted lifted
  | rest =>
      refine (congrArg Gates.areOpen (Layer.gatesOnTurn_releaseLifted _ _ _ _)).trans ?_
      exact Layer.gates_of_releaseLifted mem
  | _ => exact absurd mem List.not_mem_nil

namespace Engine

/-- What the layer at a place reports on cues that follow on what has been heard: each report with
all that has been heard by then. -/
def reportsAlong (e : Engine) (i : Nat) (heard : List Cue) : List Cue → List (List Cue × Report)
  | [] => []
  | cue :: cues =>
    (reportsOf i (e.take cue).2).map (heard ++ [cue], ·) ++
      (e.take cue).1.reportsAlong i (heard ++ [cue]) cues

/-- What the layer at a place reports on an event that follows on what has been heard. -/
def heardReports (e : Engine) (i : Nat) (heard : List Cue) (event : Event) :
    List (List Cue × Report) :=
  if event = .resetControllers then [] else e.reportsAlong i heard (e.cues event)

theorem reports_reportsAlong (e : Engine) (i : Nat) (heard cues : List Cue) :
    (e.reportsAlong i heard cues).map (·.2) = reportsOf i (e.follow cues).2 := by
  induction cues generalizing e heard with
  | nil => rfl
  | cons cue cues ih =>
      rw [reportsAlong, List.map_append, ih, List.map_map, follow_cons, reportsOf_append]
      simp [Function.comp_def]

/-- Without what has been heard, these are the reports of the event. -/
theorem reports_heardReports (e : Engine) (i : Nat) (heard : List Cue) (event : Event) :
    (e.heardReports i heard event).map (·.2) = reportsOf i (e.step event).2 := by
  rw [step_eq_follow, heardReports]
  split
  · rfl
  · exact reports_reportsAlong e i heard _

/-- Each report is made when no gate is closed after all that has been heard by then. -/
theorem gates_of_reportsAlong (start : Engine) (i : Nat) {heard cues : List Cue}
    {r : List Cue × Report} (mem : r ∈ (start.follow heard).1.reportsAlong i heard cues) :
    ∃ l, (start.follow r.1).1.layers[i]? = some l ∧ l.gatesOnTurn.areOpen = true := by
  induction cues generalizing heard with
  | nil => exact absurd mem List.not_mem_nil
  | cons cue cues ih =>
      have next : (start.follow (heard ++ [cue])).1 = ((start.follow heard).1.take cue).1 := by
        rw [follow_append, follow_singleton]
      rcases List.mem_append.mp mem with now | later
      · obtain ⟨report, own, rfl⟩ := List.mem_map.mp now
        rw [reportsOf_take] at own
        rw [next, layer_take]
        cases listed : (start.follow heard).1.layers[i]? with
        | none => simp [listed] at own
        | some l =>
            rw [listed] at own
            exact ⟨_, rfl, Cue.gates_of_report own⟩
      · exact ih (next ▸ later)

end Engine

/-! ### Conditions -/

namespace Settings

variable {s : Settings}

/-- Settings without a fault have conditions on remembered controllers only. -/
theorem remembered_of_valid (valid : s.fault? = none) {entry : ControllerRange}
    (listed : entry ∈ s.conditions) : entry.controller.toNat < controllerCount := by
  have workable := fault?_eq_none_iff.mp valid
  exact (workable.entries entry (List.mem_append_left _ listed)).1

end Settings

section Gates

variable {b : Bank} {draws : KeyStream} {heard : List Cue} {l : Layer}
  (listed : l ∈ ((Engine.ofBank b draws).follow heard).1.layers) {c : Controller}
  (inside : c.toNat < controllerCount)
include listed

/-- The gate of a controller is where the last value of the controller wants it. -/
theorem gate_follow :
    l.gates.controllers.isOpen c =
      (((Control.controller c).lastSet heard).map
        ((Follower.gate c inside).wanted l.settings)).getD true :=
  Follower.position_follow (f := .gate c inside) (fun _ => ControllerGates.isOpen_allOpen c) b draws
    heard l listed

include inside

/-- While no gate is closed, the last value of a controller meets the condition on it. -/
theorem meets_of_gates (gates : l.gatesOnTurn.areOpen = true) {range : Interval Single}
    (first : Settings.FirstListed l.settings.conditions c range) {v : Single}
    (last : (Control.controller c).lastSet heard = some v) : range.includes v = true := by
  have wanted := gate_follow listed inside
  have free : l.gates.controllers.isOpen c = true := by
    simp only [Gates.areOpen, Bool.and_eq_true, ControllerGates.areOpen_iff] at gates
    exact gates.2 c
  rw [free, last] at wanted
  exact (Follower.wanted_gate_iff inside).mp wanted.symm range first

end Gates

/-- Whenever a layer whose settings are without a fault reports, for whatever reason, each
controller meets the condition that is listed first for it: the value to which the controller was
set last, if it was set at all since everything last started over, is in the range, both bounds
included. What has been heard by then includes what the layer answers. Where no controller has two
conditions, all of them are met. -/
theorem reports_meet_conditions (b : Bank) (draws : KeyStream) (before : List Engine.Event)
    (event : Engine.Event) (i : Nat) (s : Settings) (listed : b.layers[i]? = some s)
    (valid : s.fault? = none) :
    let start := Engine.ofBank b draws
    let e := (start.run before).1
    let reports := e.heardReports i (before.flatMap start.cues) event
    reports.map (·.2) = reportsOf i (e.step event).2 ∧
      ∀ r ∈ reports,
        (∀ c range v, Settings.FirstListed s.conditions c range →
          (Control.controller c).lastSet r.1 = some v → range.includes v = true) ∧
        ((s.conditions.map (·.controller)).Nodup → ∀ entry ∈ s.conditions, ∀ v,
          (Control.controller entry.controller).lastSet r.1 = some v →
            entry.range.includes v = true) := by
  intro start e reports
  refine ⟨e.reports_heardReports i _ event, ?_⟩
  intro r mem
  have along : r ∈ (start.follow (before.flatMap start.cues)).1.reportsAlong i
      (before.flatMap start.cues) (e.cues event) := by
    rw [← Engine.run_fst_eq_follow]
    unfold reports Engine.heardReports at mem
    split at mem
    · exact absurd mem List.not_mem_nil
    · exact mem
  obtain ⟨l, here, gates⟩ := start.gates_of_reportsAlong i along
  have settings : l.settings = s := by
    have same := Engine.settings_follow b draws r.1 i
    rw [here, listed] at same
    exact Option.some.inj same
  have met (c : Controller) (range : Interval Single) (v : Single)
      (first : Settings.FirstListed s.conditions c range)
      (last : (Control.controller c).lastSet r.1 = some v) : range.includes v = true := by
    have inside := Settings.remembered_of_valid valid first.mem
    rw [← settings] at first
    exact meets_of_gates (List.mem_of_getElem? here) inside gates first last
  refine ⟨met, ?_⟩
  intro distinct entry mem v last
  exact met _ _ v (Settings.firstListed_of_distinct distinct mem) last

/-- A layer that sounds while the modulation wheel is in its upper half. -/
def upperHalf : Settings := { conditions := [⟨1, ⟨0.5, 1⟩⟩] }

/-- The wheel goes up and a note is struck; the note is heard after a value that meets the
condition. -/
theorem upperHalf_is_met :
    let b : Bank := { layers := [upperHalf] }
    let start := Engine.ofBank b (.ofSeed 1)
    let raised : List Engine.Event := [.controller 1 0.75]
    ∃ r ∈ (start.run raised).1.heardReports 0 (raised.flatMap start.cues) (.noteOn 60 0.5),
      r.2 = ⟨.attack, 60, 0.5⟩ ∧ (Control.controller 1).lastSet r.1 = some 0.75 ∧
        (Interval.mk 0.5 1).includes (0.75 : Single) = true := by
  intro b start raised
  have heard : (start.run raised).1.heardReports 0 (raised.flatMap start.cues) (.noteOn 60 0.5) =
      [([.controller 1 0.75, .noteOn 60 0.5], ⟨.attack, 60, 0.5⟩)] := by
    decide +kernel
  obtain ⟨-, met⟩ := reports_meet_conditions b (.ofSeed 1) raised (.noteOn 60 0.5) 0 upperHalf rfl
    (by decide +kernel)
  obtain ⟨first, -⟩ := met _ (heard ▸ List.mem_cons_self)
  refine ⟨_, heard ▸ List.mem_cons_self, rfl, by decide +kernel, ?_⟩
  exact first 1 ⟨0.5, 1⟩ 0.75 ⟨[], [], rfl, nofun⟩ (by decide +kernel)

/-- A layer with two conditions on the modulation wheel. -/
def twiceAsked : Settings := { conditions := [⟨1, ⟨0, 1⟩⟩, ⟨1, ⟨0.5, 1⟩⟩] }

/-- Nothing is wrong with its settings, but it is heard while the wheel does not meet the second. -/
theorem second_condition_is_not_asked :
    twiceAsked.fault? = none ∧
      let start := Engine.ofBank { layers := [twiceAsked] } (.ofSeed 1)
      let raised : List Engine.Event := [.controller 1 0.25]
      (start.run raised).1.heardReports 0 (raised.flatMap start.cues) (.noteOn 60 0.5) =
          [([.controller 1 0.25, .noteOn 60 0.5], ⟨.attack, 60, 0.5⟩)] ∧
        (Control.controller 1).lastSet [.controller 1 0.25, .noteOn 60 0.5] = some 0.25 ∧
        (Interval.mk 0.5 1).includes (0.25 : Single) = false := by
  decide +kernel

end Voicing
