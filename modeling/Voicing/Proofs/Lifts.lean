import Voicing.Proofs.Readiness
import Voicing.Proofs.Told

/-!
What a lifted sustain pedal lets go.

When a controller brings the sustain pedal of a layer up, the releases that waited are decided
again in the order in which they came to wait: each on the layer as those before it have left
it, and each with the next draw of the stream that all layers share. None of them comes to wait
a second time.

* `Layer.reports_redecide`: what is reported of releases that are decided again.
* `Layer.Orderly.turnsTaken_toldAgain`: how many of them take a turn.
* `Layer.letsGo_releaseLifted`: what a lifted pedal leaves alone.
* `Layer.draws_offer_controller`, `Layer.streamAt_controller`: how many draws all that takes,
  and where in the stream the draws of a layer begin.
* `lifted_pedal_decides_each_release`: all of it together, for a controller that an engine
  hears.
-/

namespace Voicing

/-! ### Draws ahead -/

namespace KeyStream

/-- The stream after so many draws. -/
def skip (s : KeyStream) (count : Nat) : KeyStream := { s with position := s.position + count }

@[simp] theorem skip_zero (s : KeyStream) : s.skip 0 = s := rfl

theorem next_eq_skip (s : KeyStream) : s.next = s.skip 1 := rfl

theorem skip_skip (s : KeyStream) (j k : Nat) : (s.skip j).skip k = s.skip (j + k) := by
  unfold skip
  rw [Nat.add_assoc]

theorem next_skip (s : KeyStream) (k : Nat) : s.next.skip k = s.skip (k + 1) := by
  rw [next_eq_skip, skip_skip, Nat.add_comm]

end KeyStream

namespace Layer

variable {l : Layer} {m : Memory} {draws : KeyStream}

/-! ### Releases decided again -/

/-- What a layer admits is a matter of its settings. -/
theorem admits_of_settings {k : Layer} (same : k.settings = l.settings) : k.admits = l.admits := by
  funext m n v r
  unfold admits acceptsNote heardVelocity acceptsDraw
  rw [same]

/-- Each release is decided on the layer as those before it have left it, with a draw of its
own. -/
theorem reports_redecide (rs : List Release) (l : Layer) (draws : KeyStream) :
    (l.redecide m rs draws).reports =
      (rs.mapIdx fun k r => reportIf .release r.note.toUInt16 r.velocity
        ((l.run (toldAgain m (rs.take k) draws)).noteOff m r.note r.velocity
          (draws.skip k).draw).2).flatten := by
  induction rs generalizing l draws with
  | nil => rfl
  | cons r rs ih =>
      rw [List.mapIdx_cons, List.flatten_cons]
      simp only [redecide, ih, KeyStream.next_skip]
      rfl

theorem draws_redecide (rs : List Release) (l : Layer) (draws : KeyStream) :
    (l.redecide m rs draws).draws = draws.skip rs.length := by
  induction rs generalizing l draws with
  | nil => rfl
  | cons r rs ih => exact (ih _ _).trans (KeyStream.next_skip draws rs.length)

/-- A release that a lifted pedal lets go takes a turn if the layer admits it and the other
pedal has not caught it. -/
theorem Orderly.turnsTaken_toldAgain (orderly : l.Orderly) (mode : l.settings.mode = .release)
    (up : l.sustainDown = false) (rs : List Release) (draws : KeyStream) :
    l.turnsTaken (toldAgain m rs draws) =
      (rs.mapIdx fun k r => l.admits m r.note r.velocity (draws.skip k).draw &&
        !l.caught.holds r.note).count true := by
  induction rs generalizing l draws with
  | nil => rfl
  | cons r rs ih =>
      obtain ⟨settings, still, -, -⟩ := l.noteOff_fields m r.note r.velocity draws.draw
      have later := ih orderly.noteOff (settings ▸ mode) (still.trans up) draws.next
      rw [admits_of_settings settings, orderly.caught_noteOff] at later
      have now : l.qualifies (.noteOff m r.note r.velocity draws.draw) =
          (l.admits m r.note r.velocity draws.draw && !l.caught.holds r.note) := by
        rw [← orderly.isCaught_eq, qualifies, mode, up, Bool.not_false, Bool.and_true]
        rfl
      rw [toldAgain, turnsTaken, now, List.mapIdx_cons, List.count_cons, Nat.add_comm]
      refine congrArg₂ (· + ·) (later.trans ?_) ?_
      · simp only [KeyStream.next_skip]
      · simp

/-- The same of all that waited in a layer, when its pedals have moved and the pedal is up. -/
theorem Orderly.turnsTaken_of_lifted (orderly : l.Orderly) {moved : Layer}
    (same : moved.settings = l.settings) (still : moved.Orderly) (up : moved.sustainDown = false)
    (draws : KeyStream) :
    moved.dropSustained.turnsTaken (toldAgain m l.sustained.toList draws) =
      (l.sustained.toList.mapIdx fun k r => l.admits m r.note r.velocity (draws.skip k).draw &&
        !moved.caught.holds r.note).count true := by
  by_cases mode : l.settings.mode = .release
  · have dropped : moved.dropSustained.Orderly := still.step .dropSustained
    have admits : moved.dropSustained.admits = l.admits := admits_of_settings same
    rw [dropped.turnsTaken_toldAgain (same.symm ▸ mode) up, admits]
    rfl
  · rw [orderly.sustained_of_mode mode]
    rfl

/-! ### What is left alone -/

/-- A layer whose lifted pedal has let go of all that waited: everything but the count of turns
and the sequence gate is where it was when the pedal had moved. -/
structure LetsGo (moved l : Layer) : Prop where
  sustained : l.sustained = .empty
  caught : l.caught = moved.caught
  sustainDown : l.sustainDown = moved.sustainDown
  sostenutoDown : l.sostenutoDown = moved.sostenutoDown
  gates : ∀ gate, gate ≠ .sequence → l.gates.isOpen gate = moved.gates.isOpen gate

theorem letsGo_releaseLifted {moved : Layer} (orderly : moved.Orderly)
    (up : moved.sustainDown = false) :
    LetsGo moved (moved.releaseLifted m true draws).layer := by
  obtain ⟨-, caught⟩ :=
    releaseLifted_keeps (l := moved) (P := fun k => k.Orderly ∧ k.caught = moved.caught) m
      (fun k n v r held => ⟨held.1.noteOff, held.1.caught_noteOff.trans held.2⟩)
      true draws ⟨orderly, rfl⟩ ⟨orderly.step .dropSustained, rfl⟩
  have sostenuto := Follower.sostenuto.position_releaseLifted (l := moved) (m := m) true draws
  refine ⟨?_, caught, sustainDown_releaseLifted _ _ _ _, sostenuto, ?_⟩
  · rw [sustained_releaseLifted, up]
    rfl
  · intro gate other
    rw [← isOpen_gatesOnTurn _ other, gatesOnTurn_releaseLifted, isOpen_gatesOnTurn _ other]

/-! ### The controller that lifts the pedal -/

section Controller

variable {c : Controller} {v : Single}

theorem letsGo_answerController (orderly : l.Orderly) (down : l.sustainDown = true)
    (up : (l.controller m c v).1.sustainDown = false) :
    LetsGo (l.controller m c v).1 (l.answerController m c v draws).layer := by
  have lifted : LetsGo (l.controller m c v).1
      ((l.controller m c v).1.releaseLifted m true draws).layer :=
    letsGo_releaseLifted orderly.controller up
  rw [← down] at lifted
  exact lifted

/-- The turns that a controller takes which lifts the pedal: one for the trigger, and one for
each release that is admitted and not caught. -/
theorem turns_answerController (orderly : l.Orderly) (down : l.sustainDown = true)
    (up : (l.controller m c v).1.sustainDown = false) :
    (l.answerController m c v draws).layer.turns =
      l.turns + UInt64.ofNat ((if l.isTrigger c v then 1 else 0) +
        (l.sustained.toList.mapIdx fun k r =>
          l.admits m r.note r.velocity (draws.skip k).draw &&
            !(l.controller m c v).1.caught.holds r.note).count true) := by
  have moved : (l.controller m c v).1.turns =
      l.turns + UInt64.ofNat (if l.isTrigger c v then 1 else 0) := by
    refine (l.turns_step (.controller m c v)).trans ?_
    change (if l.isTrigger c v then _ else _) = _
    split
    · rfl
    · exact (UInt64.add_zero _).symm
  have settings := l.settings_controller m v c
  rw [answerController_of_lifted down up, lettingGo]
  dsimp only
  rw [redecide_layer, turns_run, UInt64.ofNat_add, ← UInt64.add_assoc, ← moved,
    orderly.turnsTaken_of_lifted settings orderly.controller up]
  rfl

end Controller

/-! ### One stream for all layers -/

/-- How many releases wait in the layers whose sustain pedals are down before and up
afterwards. -/
def waitingUnderLifted : List Layer → List Layer → Nat
  | l :: ls, l' :: ls' =>
    (if l.sustainDown && !l'.sustainDown then l.sustained.size else 0) + waitingUnderLifted ls ls'
  | _, _ => 0

theorem draws_releaseLifted (wasDown : Bool) (l : Layer) :
    (l.releaseLifted m wasDown draws).draws =
      draws.skip (if wasDown && !l.sustainDown then l.sustained.size else 0) := by
  unfold releaseLifted
  split
  · exact draws_redecide _ _ _
  · rfl

section Stream

variable (m : Memory) (c : Controller) (v : Single)

theorem draws_answerController (draws : KeyStream) (l : Layer) :
    (l.answerController m c v draws).draws =
      draws.skip (if l.sustainDown && !(l.answerController m c v draws).layer.sustainDown then
        l.sustained.size else 0) := by
  have still : (l.answerController m c v draws).layer.sustainDown =
      (l.controller m c v).1.sustainDown :=
    sustainDown_releaseLifted _ _ _ _
  have waits := l.sustained_controller m v c
  rw [still, ← waits]
  exact draws_releaseLifted l.sustainDown (l.controller m c v).1

/-- A controller takes a draw for each release that a lifted pedal lets go. -/
theorem draws_offer_controller (i : Nat) (draws : KeyStream) (ls : List Layer) :
    (offer (answerController m c v) i draws ls).draws =
      draws.skip (waitingUnderLifted ls (offer (answerController m c v) i draws ls).layers) := by
  induction ls generalizing i draws with
  | nil => rfl
  | cons l ls ih =>
      refine (ih _ _).trans ?_
      simp only [offer, waitingUnderLifted]
      generalize offer (answerController m c v) (i + 1) (l.answerController m c v draws).draws ls =
        others
      rw [draws_answerController, KeyStream.skip_skip]

/-- The draws of a layer begin behind those for the layers before it. -/
theorem streamAt_controller (i : Nat) (draws : KeyStream) (ls : List Layer) (j : Nat) :
    streamAt (answerController m c v) draws ls j =
      draws.skip (waitingUnderLifted (ls.take j)
        ((offer (answerController m c v) i draws ls).layers.take j)) := by
  induction ls generalizing i draws j with
  | nil => simp [streamAt, waitingUnderLifted]
  | cons l ls ih =>
      cases j with
      | zero => rfl
      | succ j =>
          refine (ih (i + 1) _ j).trans ?_
          simp only [offer, waitingUnderLifted, List.take_succ_cons]
          generalize offer (answerController m c v) (i + 1) (l.answerController m c v draws).draws
            ls = others
          rw [draws_answerController, KeyStream.skip_skip]

end Stream

end Layer

namespace Engine

variable (e : Engine) (c : Controller) (v : Single)

theorem draws_take_controller :
    (e.take (.controller c v)).1.draws = e.draws.skip
      (1 + Layer.waitingUnderLifted e.layers (e.take (.controller c v)).1.layers) := by
  refine (Layer.draws_offer_controller _ c v 0 e.draws.next e.layers).trans ?_
  rw [KeyStream.next_eq_skip, KeyStream.skip_skip]
  rfl

theorem streamFor_controller (i : Nat) :
    e.streamFor (.controller c v) i = e.draws.skip
      (1 + Layer.waitingUnderLifted (e.layers.take i)
        ((e.take (.controller c v)).1.layers.take i)) := by
  refine (Layer.streamAt_controller _ c v 0 e.draws.next e.layers i).trans ?_
  rw [KeyStream.next_eq_skip, KeyStream.skip_skip]
  rfl

end Engine

/-- A controller other than the one that resets all others has brought sustain pedals up. Each
layer whose pedal came up reports its own trigger first, should there be one. Then it decides
the releases that waited, in their order: each on the layer as those before it have left it and
with a draw of its own, and a release that sounds is reported with the velocity with which it
waited. Nothing waits any more then. The other pedal, what it caught and all gates but the
sequence gate are as the controller left them, and the turns went up by one for each release
that is admitted and not caught, and by one for the trigger. All layers take their draws from
one stream, one behind the other. -/
theorem lifted_pedal_decides_each_release (b : Bank) (draws : KeyStream)
    (events : List Engine.Event) (c : Controller) (v : Single) (other : c ≠ 121) :
    let e := ((Engine.ofBank b draws).run events).1
    let after := (e.controller c v).1
    let m := after.memory
    after.draws = e.draws.skip (1 + Layer.waitingUnderLifted e.layers after.layers) ∧
    ∀ (i : Nat) (l l' : Layer), e.layers[i]? = some l → after.layers[i]? = some l' →
      l.sustainDown = true → l'.sustainDown = false →
      let moved := l.controller m c v
      let waiting := l.sustained.toList
      let own := e.draws.skip
        (1 + Layer.waitingUnderLifted (e.layers.take i) (after.layers.take i))
      reportsOf i (e.controller c v).2 =
        Layer.reportIf .controller c v moved.2 ++
          (waiting.mapIdx fun k r => Layer.reportIf .release r.note.toUInt16 r.velocity
            ((moved.1.dropSustained.run (Layer.toldAgain m (waiting.take k) own)).noteOff m
              r.note r.velocity (own.skip k).draw).2).flatten ∧
      moved.1.LetsGo l' ∧
      l'.turns = l.turns + UInt64.ofNat ((if l.isTrigger c v then 1 else 0) +
        (waiting.mapIdx fun k r => l.admits m r.note r.velocity (own.skip k).draw &&
          !moved.1.caught.holds r.note).count true) := by
  intro e
  have plain : c ≠ .resetAll := other
  have taken : e.controller c v = e.take (.controller c v) := by
    rw [Engine.controller_eq_follow, Engine.controllerCues, if_neg plain, Engine.follow_singleton]
  rw [taken]
  refine ⟨e.draws_take_controller c v, ?_⟩
  intro i l l' before here down up moved waiting own
  have orderly : l.Orderly := Layer.orderly_of_mem_run (List.mem_of_getElem? before)
  have answered := e.layer_take (.controller c v) i
  have reports := e.reportsOf_take (.controller c v) i
  rw [before] at answered reports
  have stream : e.streamFor (.controller c v) i = own := e.streamFor_controller c v i
  have answer : e.answerOf (.controller c v) i l =
      l.answerController (e.take (.controller c v)).1.memory c v own := by
    rw [← stream]
    rfl
  have same : l' = (l.answerController (e.take (.controller c v)).1.memory c v own).layer := by
    rw [← answer]
    exact Option.some.inj (here.symm.trans answered)
  have lifted : moved.1.sustainDown = false := by
    rw [same] at up
    exact (Layer.sustainDown_releaseLifted _ _ _ _).symm.trans up
  refine ⟨?_, ?_, ?_⟩
  · refine reports.trans ?_
    rw [Option.map_some, Option.getD_some, answer, Layer.answerController_of_lifted down lifted]
    exact congrArg (_ ++ ·) (Layer.reports_redecide _ _ _)
  · rw [same]
    exact Layer.letsGo_answerController orderly down lifted
  · rw [same]
    exact Layer.turns_answerController orderly down lifted

/-- A layer that also sounds when the pedal comes up, and one for the lower keys. -/
def damper : Bank where
  layers := [{ mode := .release, triggers := [⟨.sustain, ⟨0, 0.25⟩⟩] },
    { mode := .release, keys := ⟨0, 60⟩ }]

/-- Two releases wait in the first layer and one in the second; the pedal lets go of all three,
with a draw for each besides the one for the controller. -/
theorem damper_lets_go :
    let e := ((Engine.ofBank damper (.ofSeed 1)).run
      [.controller .sustain 1, .noteOff 60 0.5, .noteOff 64 0.5]).1
    let after := (e.controller .sustain 0).1
    reportsOf 0 (e.controller .sustain 0).2 =
        [⟨.controller, 64, 0⟩, ⟨.release, 60, 0⟩, ⟨.release, 64, 0⟩] ∧
      after.draws = e.draws.skip 4 ∧
      ∃ l l', e.layers[0]? = some l ∧ after.layers[0]? = some l' ∧ l.sustained.size = 2 ∧
        l.sustainDown = true ∧ l'.sustainDown = false ∧
        (l.controller after.memory .sustain 0).1.LetsGo l' := by
  intro e after
  have seen : (e.layers.map (fun l => (l.sustained.size, l.sustainDown)),
      after.layers.map (·.sustainDown), Layer.waitingUnderLifted e.layers after.layers,
      reportsOf 0 (e.controller .sustain 0).2) =
      ([(2, true), (1, true)], [false, false], 3,
        [⟨.controller, 64, 0⟩, ⟨.release, 60, 0⟩, ⟨.release, 64, 0⟩]) := by
    decide +kernel
  simp only [Prod.mk.injEq] at seen
  obtain ⟨waits, ups, three, reports⟩ := seen
  obtain ⟨spent, each⟩ := lifted_pedal_decides_each_release damper (.ofSeed 1)
    [.controller .sustain 1, .noteOff 60 0.5, .noteOff 64 0.5] .sustain 0 (by decide)
  have first : (e.layers.map (fun l => (l.sustained.size, l.sustainDown)))[0]? = some (2, true) :=
    congrArg (·[0]?) waits
  have firstUp : (after.layers.map (·.sustainDown))[0]? = some false := congrArg (·[0]?) ups
  rw [List.getElem?_map, Option.map_eq_some_iff] at first firstUp
  obtain ⟨l, before, facts⟩ := first
  obtain ⟨l', here, up⟩ := firstUp
  obtain ⟨size, down⟩ := Prod.mk.inj facts
  obtain ⟨-, letsGo, -⟩ := each 0 l l' before here down up
  refine ⟨reports, ?_, l, l', before, here, size, down, up, letsGo⟩
  exact spent.trans (congrArg (fun k => e.draws.skip (1 + k)) three)

end Voicing
