import Voicing.Proofs.Lifts
import Mathlib.Data.List.Nodup

/-!
Turns taken while all controllers are put to rest.

To a layer rest is every controller at zero, one after the other. That a controller at zero is
a trigger is not reported then, but the turn is taken all the same. Behind it come the releases
that waited for the sustain pedal, if rest lifts it, and those of them that qualify take their
turns as well.

* `Layer.turnsTaken_restEvents`: rest by itself takes a turn for each trigger at zero.
* `Layer.Orderly.turnsLifted_eq`: which of the releases that rest lets go take a turn.
* `Layer.turns_answerReset`, `Layer.sequence_answerReset`: the rotation of a layer after rest
  and all that it lets go.
* `reset_takes_turns_of_zero_triggers`: the same of every layer of an engine.
-/

namespace Voicing

theorem nodup_allControllers : allControllers.Nodup := by
  refine List.Nodup.map_on ?_ List.nodup_range
  intro j below k small same
  rw [List.mem_range] at below small
  have numbers := congrArg UInt16.toNat same
  have fits : controllerCount < 2 ^ 16 := by decide
  rwa [UInt16.toNat_ofNat_of_lt' (Nat.lt_trans below fits),
    UInt16.toNat_ofNat_of_lt' (Nat.lt_trans small fits)] at numbers

namespace Settings

/-- The remembered controllers that make a layer sound at zero. -/
def zeroTriggers (s : Settings) : List Controller :=
  allControllers.filter fun c => s.onController && ((s.trigger? c).map (·.includes 0)).getD false

theorem mem_zeroTriggers_iff {s : Settings} {c : Controller} :
    c ∈ s.zeroTriggers ↔ c.toNat < controllerCount ∧ s.onController? ≠ some false ∧
      ∃ range, FirstListed s.triggers c range ∧ range.includes 0 = true := by
  unfold zeroTriggers
  rw [List.mem_filter, mem_allControllers, triggers_iff]

theorem nodup_zeroTriggers (s : Settings) : s.zeroTriggers.Nodup := nodup_allControllers.filter _

end Settings

namespace Layer

variable (l : Layer) (m : Memory) (draws : KeyStream)

/-- How many of the releases that wait for the sustain pedal take a turn when all controllers
are put to rest. -/
def turnsLifted : Nat :=
  if l.sustainDown && !(l.rest m).sustainDown then
    (l.rest m).dropSustained.turnsTaken (toldAgain m l.sustained.toList draws)
  else 0

/-- Controllers at zero take a turn for each trigger among them. -/
theorem turnsTaken_controllers (cs : List Controller) :
    l.turnsTaken (cs.map (Event.controller m · 0)) = (cs.filter (l.isTrigger · 0)).length := by
  induction cs generalizing l with
  | nil => rfl
  | cons c cs ih =>
      have later : (fun d => (l.step (.controller m c 0)).1.isTrigger d 0) = (l.isTrigger · 0) := by
        unfold isTrigger
        rw [settings_step]
      rw [List.map_cons, turnsTaken, ih, later, List.filter_cons]
      change (if l.isTrigger c 0 = true then 1 else 0) + _ = _
      split
      · rw [List.length_cons, Nat.add_comm]
      · exact Nat.zero_add _

/-- Rest by itself takes a turn for each trigger at zero. -/
theorem turnsTaken_restEvents :
    l.turnsTaken (restEvents m) = l.settings.zeroTriggers.length := by
  have wheels : l.turnsTaken (restEvents m) =
      ((l.setBend 0).setAftertouch 0).turnsTaken (allControllers.map (Event.controller m · 0)) :=
    (Nat.zero_add _).trans (Nat.zero_add _)
  rw [wheels, turnsTaken_controllers]
  rfl

theorem turnsTaken_toldLifted :
    (l.rest m).turnsTaken ((l.rest m).toldLifted m draws l.sustainDown) =
      l.turnsLifted m draws := by
  unfold toldLifted turnsLifted
  rw [sustained_rest]
  split
  · exact Nat.zero_add _
  · rfl

variable {l m} in
theorem Orderly.rest (orderly : l.Orderly) : (l.rest m).Orderly :=
  rest_keeps m (fun _ _ held => held.controller) ((orderly.step (.bend 0)).step (.aftertouch 0))

variable {l m draws} in
theorem Orderly.answerReset (orderly : l.Orderly) : (l.answerReset m draws).layer.Orderly :=
  orderly.answer ⟨m, none, 0⟩ .rest draws

variable {l m} in
/-- If rest lifts the pedal, a release that waited takes a turn if the layer admits it and the other
pedal has not caught it. -/
theorem Orderly.turnsLifted_eq (orderly : l.Orderly) :
    l.turnsLifted m draws =
      if l.sustainDown && !(l.answerReset m draws).layer.sustainDown then
        (l.sustained.toList.mapIdx fun j r => l.admits m r.note r.velocity (draws.skip j).draw &&
          !(l.answerReset m draws).layer.caught.holds r.note).count true
      else 0 := by
  have still : (l.answerReset m draws).layer.sustainDown = (l.rest m).sustainDown :=
    sustainDown_releaseLifted _ _ _ _
  unfold turnsLifted
  rw [still]
  cases down : l.sustainDown with
  | false => rfl
  | true =>
      cases up : (l.rest m).sustainDown with
      | true => rfl
      | false =>
          have lifted : LetsGo (l.rest m) (l.answerReset m draws).layer := by
            unfold Layer.answerReset
            rw [down]
            exact letsGo_releaseLifted orderly.rest up
          rw [lifted.caught]
          exact orderly.turnsTaken_of_lifted (l.settings_rest m) orderly.rest up draws

/-- A layer in which nothing waits takes no turn for what waited. -/
theorem turnsLifted_of_isEmpty (empty : l.sustained.isEmpty = true) :
    l.turnsLifted m draws = 0 := by
  unfold turnsLifted
  rw [HeldReleases.isEmpty_iff.mp empty]
  exact ite_self 0

/-- All that a layer is told when all controllers are put to rest. -/
theorem answerReset_layer :
    (l.answerReset m draws).layer =
      l.run (restEvents m ++ (l.rest m).toldLifted m draws l.sustainDown) := by
  rw [run_append, ← rest_eq_run]
  exact releaseLifted_layer _ m draws _

theorem turnsTaken_answerReset :
    l.turnsTaken (restEvents m ++ (l.rest m).toldLifted m draws l.sustainDown) =
      l.settings.zeroTriggers.length + l.turnsLifted m draws := by
  rw [turnsTaken_append, turnsTaken_restEvents, ← rest_eq_run, turnsTaken_toldLifted]

theorem turns_answerReset :
    (l.answerReset m draws).layer.turns =
      l.turns + UInt64.ofNat (l.settings.zeroTriggers.length + l.turnsLifted m draws) := by
  rw [answerReset_layer, turns_run, turnsTaken_answerReset]

theorem sequence_answerReset :
    (l.answerReset m draws).layer.gates.sequence =
      l.sequenceAfter (l.settings.zeroTriggers.length + l.turnsLifted m draws) := by
  rw [answerReset_layer, sequence_run, turnsTaken_answerReset]

end Layer

/-- A reset of all controllers makes of a layer what rest makes of it. -/
theorem Engine.layer_resetControllers (e : Engine) {i : Nat} {l : Layer}
    (listed : e.layers[i]? = some l) :
    e.resetControllers.1.layers[i]? =
      some (l.answerReset e.resetControllers.1.memory (e.streamFor .rest i)).layer := by
  refine (e.layer_take .rest i).trans ?_
  rw [listed]
  rfl

/-- Whatever has happened before, and whether all controllers are put to rest by a reset or
ahead of the controller that does so: the counter of each layer goes up by one for each
release that is decided again and qualifies, which are those that waited for a pedal that has come
up, and that are admitted and not caught; and besides for each of its triggers at zero. A
layer without such a trigger, in which nothing waits, keeps its counter and its sequence
gate. -/
theorem reset_takes_turns_of_zero_triggers (b : Bank) (draws : KeyStream)
    (events : List Engine.Event) :
    let e := ((Engine.ofBank b draws).run events).1
    let rested := e.resetControllers.1
    (∀ v, (e.controller 121 v).1 = (rested.hearController 121 v).1) ∧
    (∀ s : Settings, s.zeroTriggers.Nodup ∧ ∀ c, c ∈ s.zeroTriggers ↔
      c.toNat < controllerCount ∧ s.onController? ≠ some false ∧
        ∃ range, Settings.FirstListed s.triggers c range ∧ range.includes 0 = true) ∧
    ∀ (i : Nat) (l : Layer), e.layers[i]? = some l →
      ∃ k : Layer, rested.layers[i]? = some k ∧
        let own := e.streamFor .rest i
        let lifted :=
          if l.sustainDown && !k.sustainDown then
            (l.sustained.toList.mapIdx fun j r =>
              l.admits rested.memory r.note r.velocity (own.skip j).draw &&
                !k.caught.holds r.note).count true
          else 0
        k.turns = l.turns + UInt64.ofNat (l.settings.zeroTriggers.length + lifted) ∧
        k.gates.sequence = l.sequenceAfter (l.settings.zeroTriggers.length + lifted) ∧
        (l.settings.zeroTriggers = [] → k.turns = l.turns + UInt64.ofNat lifted) ∧
        (l.settings.zeroTriggers = [] → l.sustained.isEmpty = true →
          k.turns = l.turns ∧ k.gates.sequence = l.gates.sequence) := by
  intro e rested
  refine ⟨fun v => rfl, fun s => ⟨s.nodup_zeroTriggers, fun c => Settings.mem_zeroTriggers_iff⟩, ?_⟩
  intro i l listed
  have orderly : l.Orderly := Layer.orderly_of_mem_run (List.mem_of_getElem? listed)
  have at_place := e.layer_resetControllers listed
  have turns := l.turns_answerReset rested.memory (e.streamFor .rest i)
  have sequence := l.sequence_answerReset rested.memory (e.streamFor .rest i)
  refine ⟨_, at_place, ?_⟩
  dsimp only
  rw [← orderly.turnsLifted_eq]
  refine ⟨turns, sequence, ?_, ?_⟩
  · intro silent
    rw [turns, silent, List.length_nil, Nat.zero_add]
  · intro silent empty
    have still : l.settings.zeroTriggers.length +
        l.turnsLifted rested.memory (e.streamFor .rest i) = 0 := by
      rw [silent, l.turnsLifted_of_isEmpty rested.memory _ empty]
      rfl
    rw [still] at turns sequence
    exact ⟨turns.trans (UInt64.add_zero _), sequence⟩

/-- The first of two voices that sound on releases. This one has no pedal. -/
def firstRelease : Settings :=
  { mode := .release, sequenceLength := 2, sustain := ⟨.sustain, 0.5, false⟩ }

/-- The second one minds the pedal, and it also sounds when the controller 20 goes down. -/
def secondRelease : Settings :=
  { mode := .release, sequenceLength := 2, sequencePosition := 2,
    triggers := [⟨20, ⟨0, 0.5⟩⟩, ⟨21, ⟨0.5, 1⟩⟩] }

/-- A note is struck and let go under the pedal. -/
def underPedal : List Engine.Event := [.controller .sustain 1, .noteOn 60 0.5, .noteOff 60 0]

/-- Whatever the draw, the second voice admits a release of the note. -/
theorem admitted_secondRelease {l : Layer} (settings : l.settings = secondRelease) {m : Memory}
    (soft : m.polyAftertouch 60 = 0) (draws : KeyStream) :
    ([⟨60, 0.5⟩].mapIdx fun j (r : Release) =>
      l.admits m r.note r.velocity (draws.skip j).draw &&
        !HeldReleases.empty.holds r.note).count true = 1 := by
  have drawn : l.acceptsDraw (draws.skip 0).draw = true := by
    refine Layer.acceptsDraw_draw ?_ _
    rw [settings]
    exact Settings.acceptsDraws_of_whole rfl
  have admitted : l.admits m 60 0.5 (draws.skip 0).draw = true := by
    unfold Layer.admits Layer.acceptsNote Layer.heardVelocity
    rw [drawn, soft, settings]
    change (secondRelease.onNote && (secondRelease.keys.includes 60 &&
      secondRelease.velocities.includes 0.5) && true &&
        secondRelease.polyAftertouches.includes 0) = true
    decide +kernel
  rw [List.mapIdx_cons, List.mapIdx_nil, admitted]
  rfl

/-- The release has taken the first turn of the first voice, and waits in the second one. The reset
leaves the first voice at that; the second one takes a turn for its trigger and another one, which
is its own, for the release. -/
theorem reset_counts_waiting_release :
    let e := ((Engine.ofBank { layers := [firstRelease, secondRelease] } (.ofSeed 1)).run
      underPedal).1
    let rested := e.resetControllers.1
    e.layers.map (fun l => (l.turns, l.gates.sequence, l.sustained.size)) =
        [(1, true, 0), (0, false, 1)] ∧
      (∃ k : Layer, rested.layers[0]? = some k ∧ k.turns = 1 ∧ k.gates.sequence = true) ∧
      ∃ k : Layer, rested.layers[1]? = some k ∧ k.turns = 2 ∧ k.gates.sequence = true := by
  intro e rested
  have before : e.layers.map (fun l =>
      (l.settings, l.turns, l.gates.sequence, l.sustainDown, l.sustained.toList)) =
      [(firstRelease, 1, true, false, []), (secondRelease, 0, false, true, [⟨60, 0.5⟩])] := by
    decide +kernel
  obtain ⟨l, l', listed⟩ : ∃ l l', e.layers = [l, l'] := by
    rw [← List.length_eq_two, ← List.length_map, before]
    rfl
  rw [listed] at before
  simp only [List.map_cons, List.map_nil, List.cons.injEq, Prod.mk.injEq] at before
  obtain ⟨⟨settings, turns, sequence, -, waiting⟩,
    ⟨settings', turns', -, down', waiting'⟩, -⟩ := before
  obtain ⟨-, -, each⟩ := reset_takes_turns_of_zero_triggers
    { layers := [firstRelease, secondRelease] } (.ofSeed 1) underPedal
  refine ⟨by decide +kernel, ?_, ?_⟩
  · obtain ⟨k, here, -, -, -, kept⟩ := each 0 l (by rw [listed]; rfl)
    have silent : l.settings.zeroTriggers = [] := by
      rw [settings]
      decide +kernel
    obtain ⟨same, still⟩ := kept silent (HeldReleases.isEmpty_iff.mpr waiting)
    exact ⟨k, here, same.trans turns, still.trans sequence⟩
  · have second : e.layers[1]? = some l' := by
      rw [listed]
      rfl
    obtain ⟨k, here, counted, position, -⟩ := each 1 l' second
    have answered : k = (l'.answerReset rested.memory (e.streamFor .rest 1)).layer :=
      Option.some.inj (here.symm.trans (e.layer_resetControllers second))
    have up := Follower.sustain.position_answerReset l' rested.memory (e.streamFor .rest 1)
    have lifted := Follower.sostenuto.position_answerReset l' rested.memory (e.streamFor .rest 1)
    rw [← answered, settings'] at up lifted
    have free : k.caught = .empty := by
      have orderly : l'.Orderly := Layer.orderly_of_mem_run (List.mem_of_getElem? second)
      have answer : k.Orderly := answered ▸ orderly.answerReset
      exact answer.caught_of_up lifted
    have triggers : l'.settings.zeroTriggers.length = 1 := by
      rw [settings']
      decide +kernel
    have pedal : k.sustainDown = false := up
    have comesUp : (true && !false) = true := rfl
    have soft : rested.memory.polyAftertouch 60 = 0 := by decide +kernel
    rw [triggers, down', pedal, waiting', free, if_pos comesUp,
      admitted_secondRelease settings' soft] at counted position
    refine ⟨k, here, counted.trans ?_, position.trans ?_⟩
    · rw [turns']
      rfl
    · rw [Layer.sequenceAfter_succ, settings', turns']
      decide

/-- The first of two voices, which sounds when the controller 20 goes down. -/
def firstVoice : Settings :=
  { triggers := [⟨20, ⟨0, 0.5⟩⟩], sequenceLength := 2 }

/-- Nothing has happened and nothing waits, but the reset takes a turn and opens the sequence
gate. -/
theorem reset_takes_turn_of_silent_trigger :
    let e := Engine.ofBank ⟨none, none, [firstVoice]⟩ (.ofSeed 1)
    let rested := e.resetControllers.1
    (∀ l ∈ e.layers, l.sustained.isEmpty = true ∧ l.turns = 0 ∧ l.gates.sequence = false) ∧
      ∃ k ∈ rested.layers, k.turns = 1 ∧ k.gates.sequence = true := by
  intro e rested
  have before : e.layers = [.initial firstVoice] := rfl
  have after := e.layer_resetControllers (i := 0) (l := .initial firstVoice) rfl
  have turns := (Layer.initial firstVoice).turns_answerReset e.resetControllers.1.memory
    (e.streamFor .rest 0)
  have sequence := (Layer.initial firstVoice).sequence_answerReset e.resetControllers.1.memory
    (e.streamFor .rest 0)
  have taken : (Layer.initial firstVoice).settings.zeroTriggers.length +
      (Layer.initial firstVoice).turnsLifted e.resetControllers.1.memory
        (e.streamFor .rest 0) = 1 := by
    rw [Layer.turnsLifted_of_isEmpty _ _ _ rfl]
    decide +kernel
  rw [taken] at turns sequence
  have one : (Layer.initial firstVoice).turns + UInt64.ofNat 1 = 1 := by decide
  have own : firstVoice.owns ((Layer.initial firstVoice).turns + UInt64.ofNat 0) = true := by
    decide
  -- from here on the answer itself is opaque: it takes all controllers to evaluate it
  generalize (Layer.initial firstVoice).answerReset e.resetControllers.1.memory
    (e.streamFor .rest 0) = answer at after turns sequence
  refine ⟨?_, _, List.mem_of_getElem? after, turns.trans one, sequence.trans own⟩
  intro l mem
  rw [before, List.mem_singleton] at mem
  subst mem
  exact ⟨rfl, rfl, rfl⟩

end Voicing
