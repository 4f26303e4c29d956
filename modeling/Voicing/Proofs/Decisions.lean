import Voicing.Proofs.Readiness

/-!
What a layer counts and what it answers.

A layer is asked about notes and controllers. Some of them ask for a turn in one of the ways that
`Layer.AsksForTurn` lists; these are counted, whether or not the layer sounds, and a layer sounds if
its own turn is asked for while no other gate is closed. A note that asks for no turn is forgotten,
unless it is a release that has to wait for the sustain pedal.

* `Layer.admits_iff`: what a layer asks of a note, one thing after the other.
* `Layer.Orderly.qualifies_iff`: what qualifies, said by mode.
* `Layer.sounds_iff`: what makes a layer sound, gate by gate.
* `Layer.noteOn_of_not_asks`, `Layer.Orderly.noteOff_of_not_asks`: what the other notes leave.
* `Layer.turns_count_what_asks`: all of that after any events.
-/

namespace Voicing

namespace Layer

variable {l : Layer} {m : Memory} {n : Note} {v r : Single}

/-! ### What is admitted -/

/-- What a layer asks of a note that begins or ends. Its velocity, or the latest that any note was
struck with, is to be among the layer's velocities. Draws are below one; should one not be, it
belongs to the slices that end at one or later. -/
structure Admits (l : Layer) (m : Memory) (n : Note) (v r : Single) : Prop where
  onNote : l.settings.onNote = true
  key : l.settings.keys.low ≤ n ∧ n ≤ l.settings.keys.high
  current : l.settings.velocitySource = .current →
    l.settings.velocities.low ≤ v ∧ v ≤ l.settings.velocities.high
  previous : l.settings.velocitySource = .previous →
    l.settings.velocities.low ≤ m.lastVelocity ∧ m.lastVelocity ≤ l.settings.velocities.high
  draw : l.settings.draws.low ≤ r ∧ r < l.settings.draws.high ∨
    1 ≤ r ∧ l.settings.draws.low ≤ l.settings.draws.high ∧ 1 ≤ l.settings.draws.high
  polyAftertouch : l.settings.polyAftertouches.low ≤ m.polyAftertouch n ∧
    m.polyAftertouch n ≤ l.settings.polyAftertouches.high

theorem acceptsDraw_iff :
    l.acceptsDraw r = true ↔ l.settings.draws.low ≤ r ∧ r < l.settings.draws.high ∨
      1 ≤ r ∧ l.settings.draws.low ≤ l.settings.draws.high ∧ 1 ≤ l.settings.draws.high := by
  unfold acceptsDraw
  simp only [Bool.or_eq_true, Bool.and_eq_true, decide_eq_true_eq, Interval.contains_iff,
    Interval.isOrdered_iff, and_assoc]

theorem heardVelocity_iff {P : Single → Prop} :
    P (l.heardVelocity m v) ↔ (l.settings.velocitySource = .current → P v) ∧
      (l.settings.velocitySource = .previous → P m.lastVelocity) := by
  unfold heardVelocity
  cases l.settings.velocitySource <;> simp

/-- What a layer admits, one thing after the other. -/
theorem admits_iff : l.admits m n v r = true ↔ l.Admits m n v r := by
  have heard := heardVelocity_iff (l := l) (m := m) (v := v)
    (P := fun v => l.settings.velocities.low ≤ v ∧ v ≤ l.settings.velocities.high)
  unfold admits acceptsNote
  simp only [Bool.and_eq_true, Interval.includes_iff, acceptsDraw_iff, heard]
  constructor
  · rintro ⟨⟨⟨onNote, key, current, previous⟩, draw⟩, polyAftertouch⟩
    exact ⟨onNote, key, current, previous, draw, polyAftertouch⟩
  · rintro ⟨onNote, key, current, previous, draw, polyAftertouch⟩
    exact ⟨⟨⟨onNote, key, current, previous⟩, draw⟩, polyAftertouch⟩

/-! ### What asks for a turn -/

/-- The ways in which an event asks for a turn. A controller does so with a value in the first
trigger range that is listed for it, unless the layer is told to ignore controllers. -/
inductive AsksForTurn (l : Layer) : Event → Prop where
  | attack {m : Memory} {n : Note} {v r : Single} : l.Admits m n v r →
      l.settings.mode = .attack → AsksForTurn l (.noteOn m n v r)
  | first {m : Memory} {n : Note} {v r : Single} : l.Admits m n v r →
      l.settings.mode = .first → m.held = 1 → AsksForTurn l (.noteOn m n v r)
  | legato {m : Memory} {n : Note} {v r : Single} : l.Admits m n v r →
      l.settings.mode = .legato → 1 < m.held → AsksForTurn l (.noteOn m n v r)
  | releaseKey {m : Memory} {n : Note} {v r : Single} : l.Admits m n v r →
      l.settings.mode = .releaseKey → AsksForTurn l (.noteOff m n v r)
  | release {m : Memory} {n : Note} {v r : Single} : l.Admits m n v r →
      l.settings.mode = .release → l.sustainDown = false → l.caught.holds n = false →
      AsksForTurn l (.noteOff m n v r)
  | trigger {m : Memory} {c : Controller} {v : Single} {range : Interval Single} :
      l.settings.onController? ≠ some false → Settings.FirstListed l.settings.triggers c range →
      range.includes v = true → AsksForTurn l (.controller m c v)

/-- A release that has to wait for the sustain pedal. -/
structure SetsAside (l : Layer) (m : Memory) (n : Note) (v r : Single) : Prop where
  admitted : l.Admits m n v r
  mode : l.settings.mode = .release
  free : l.caught.holds n = false
  down : l.sustainDown = true

theorem qualifies_noteOn_iff :
    l.qualifies (.noteOn m n v r) = true ↔ l.AsksForTurn (.noteOn m n v r) := by
  change (l.admits m n v r && l.modeAsks m) = true ↔ _
  rw [Bool.and_eq_true, admits_iff]
  constructor
  · rintro ⟨admitted, asks⟩
    unfold modeAsks at asks
    cases mode : l.settings.mode with
    | attack => exact .attack admitted mode
    | first =>
        rw [mode] at asks
        exact .first admitted mode (eq_of_beq asks)
    | legato =>
        rw [mode] at asks
        exact .legato admitted mode (of_decide_eq_true asks)
    | _ =>
        rw [mode] at asks
        exact absurd asks Bool.false_ne_true
  · intro asks
    cases asks with
    | attack admitted mode => exact ⟨admitted, by rw [modeAsks, mode]⟩
    | first admitted mode only => exact ⟨admitted, by rw [modeAsks, mode]; simp [only]⟩
    | legato admitted mode more => exact ⟨admitted, by rw [modeAsks, mode]; simp [more]⟩

theorem Orderly.qualifies_noteOff_iff (orderly : l.Orderly) :
    l.qualifies (.noteOff m n v r) = true ↔ l.AsksForTurn (.noteOff m n v r) := by
  change (l.admits m n v r && (l.settings.mode == .releaseKey ||
    l.settings.mode == .release && !l.isCaught n && !l.sustainDown)) = true ↔ _
  rw [orderly.isCaught_eq, Bool.and_eq_true, Bool.or_eq_true, Bool.and_eq_true, Bool.and_eq_true,
    Bool.not_eq_true', Bool.not_eq_true', beq_iff_eq, beq_iff_eq, admits_iff]
  constructor
  · rintro ⟨admitted, mode | ⟨⟨mode, free⟩, up⟩⟩
    · exact .releaseKey admitted mode
    · exact .release admitted mode up free
  · intro asks
    cases asks with
    | releaseKey admitted mode => exact ⟨admitted, .inl mode⟩
    | release admitted mode up free => exact ⟨admitted, .inr ⟨⟨mode, free⟩, up⟩⟩

/-- What qualifies in an orderly layer, said by mode. -/
theorem Orderly.qualifies_iff (orderly : l.Orderly) (event : Event) :
    l.qualifies event = true ↔ l.AsksForTurn event := by
  cases event with
  | noteOn m n v r => exact qualifies_noteOn_iff
  | noteOff m n v r => exact orderly.qualifies_noteOff_iff
  | controller m c v =>
      refine Settings.triggers_iff.trans ?_
      constructor
      · rintro ⟨may, range, listed, inside⟩
        exact .trigger may listed inside
      · intro asks
        cases asks with
        | trigger may listed inside => exact ⟨may, _, listed, inside⟩
  | _ => exact ⟨fun never => absurd never Bool.false_ne_true, fun asks => nomatch asks⟩

theorem Orderly.defers_iff (orderly : l.Orderly) :
    l.defers m n v r = true ↔ l.SetsAside m n v r := by
  unfold defers
  rw [orderly.isCaught_eq, Bool.and_eq_true, Bool.and_eq_true, Bool.and_eq_true, beq_iff_eq,
    Bool.not_eq_true', admits_iff]
  constructor
  · rintro ⟨⟨⟨admitted, mode⟩, free⟩, down⟩
    exact ⟨admitted, mode, free, down⟩
  · rintro ⟨admitted, mode, free, down⟩
    exact ⟨⟨⟨admitted, mode⟩, free⟩, down⟩

/-! ### What is answered -/

theorem areOpen_gatesOnTurn_iff :
    l.gatesOnTurn.areOpen = true ↔ ∀ gate, gate ≠ .sequence → l.gates.isOpen gate = true := by
  rw [Gates.areOpen_iff_isOpen]
  constructor
  · intro all gate other
    rw [← l.isOpen_gatesOnTurn other]
    exact all gate
  · intro others gate
    by_cases own : gate = .sequence
    · subst own
      rfl
    · rw [l.isOpen_gatesOnTurn own]
      exact others gate own

/-- An event makes a layer sound if it takes the layer's own turn and finds or leaves every other
gate open. -/
theorem sounds_iff (event : Event) :
    (l.step event).2 = true ↔ l.qualifies event = true ∧ l.settings.owns l.turns = true ∧
      ∀ gate, gate ≠ .sequence → (l.step event).1.gates.isOpen gate = true := by
  rw [sounds_step, isReady_eq, sequence_step, Bool.and_eq_true, Bool.and_eq_true,
    areOpen_gatesOnTurn_iff]
  constructor
  · rintro ⟨qualifies, others, own⟩
    rw [if_pos qualifies] at own
    exact ⟨qualifies, own, others⟩
  · rintro ⟨qualifies, own, others⟩
    rw [if_pos qualifies]
    exact ⟨qualifies, others, own⟩

/-! ### What is left alone -/

theorem noteOn_of_not_asks (passes : ¬l.AsksForTurn (.noteOn m n v r)) :
    l.noteOn m n v r = (l, false) := by
  rw [← qualifies_noteOn_iff] at passes
  exact if_neg passes

theorem Orderly.noteOff_of_not_asks (orderly : l.Orderly)
    (passes : ¬l.AsksForTurn (.noteOff m n v r)) :
    l.noteOff m n v r =
      (if l.defers m n v r then { l with sustained := l.sustained.push ⟨n, m.velocity n⟩ } else l,
        false) := by
  unfold Layer.noteOff defers
  cases admitted : l.admits m n v r with
  | false => rfl
  | true =>
      cases mode : l.settings.mode with
      | releaseKey => exact absurd (.releaseKey (admits_iff.mp admitted) mode) passes
      | release =>
          rw [if_pos rfl]
          dsimp only
          rw [orderly.releaseUnderPedals_eq, orderly.isCaught_eq]
          cases free : l.caught.holds n with
          | true => rfl
          | false =>
              cases down : l.sustainDown with
              | true => rfl
              | false => exact absurd (.release (admits_iff.mp admitted) mode down free) passes
      | _ => rfl

/-! ### Runs -/

/-- After any events in the life of a layer, the counter shows how many of them asked for a turn
when they came. The next event makes the layer sound exactly if it asks for a turn, if that turn,
of which `count` have gone before, is the layer's own, and if every other gate is open then. A note
that asks for no turn leaves the layer as it was, but for a release that is put aside. -/
theorem turns_count_what_asks (s : Settings) (events : List Event) :
    let start := initial s
    let l := start.run events
    let count := start.turnsTaken events
    (∀ event, l.qualifies event = true ↔ l.AsksForTurn event) ∧
      (count < UInt64.size → l.turns.toNat = count) ∧
      (count < UInt64.size → ∀ event, (l.step event).2 = true ↔
        l.AsksForTurn event ∧
          (1 ≤ s.sequencePosition.toNat ∧
            count % max s.sequenceLength.toNat 1 = s.sequencePosition.toNat - 1) ∧
          ∀ gate, gate ≠ .sequence → (l.step event).1.gates.isOpen gate = true) ∧
      (∀ m n v r, ¬l.AsksForTurn (.noteOn m n v r) →
        l.step (.noteOn m n v r) = (l, false)) ∧
      (∀ m n v r, ¬l.AsksForTurn (.noteOff m n v r) → ¬l.SetsAside m n v r →
        l.step (.noteOff m n v r) = (l, false)) ∧
      ∀ m n v r, l.SetsAside m n v r → ¬l.AsksForTurn (.noteOff m n v r) ∧
        l.step (.noteOff m n v r) =
          ({ l with sustained := l.sustained.push ⟨n, m.velocity n⟩ }, false) := by
  intro start l count
  have orderly : l.Orderly := (orderly_initial s).run events
  have turns : l.turns = UInt64.ofNat count :=
    (start.turns_run events).trans (UInt64.zero_add _)
  refine ⟨orderly.qualifies_iff, ?_, ?_, ?_, ?_, ?_⟩
  · intro small
    rw [turns, UInt64.toNat_ofNat_of_lt' small]
  · intro small event
    have settings : l.settings = s := start.settings_run events
    rw [sounds_iff, orderly.qualifies_iff, owns_iff, settings, turns,
      UInt64.toNat_ofNat_of_lt' small]
  · intro m n v r passes
    exact noteOn_of_not_asks passes
  · intro m n v r passes stays
    rw [← orderly.defers_iff] at stays
    refine (orderly.noteOff_of_not_asks passes).trans ?_
    rw [if_neg stays]
  · intro m n v r aside
    have passes : ¬l.AsksForTurn (.noteOff m n v r) := by
      intro asks
      cases asks with
      | releaseKey _ mode => exact absurd (mode.symm.trans aside.mode) nofun
      | release _ _ up _ => exact absurd (up.symm.trans aside.down) Bool.false_ne_true
    refine ⟨passes, (orderly.noteOff_of_not_asks passes).trans ?_⟩
    rw [if_pos (orderly.defers_iff.mpr aside)]

/-- The second of three voices, which are heard when a note ends or a pedal is pressed half way. A
further trigger for the pedal comes too late to count. -/
def secondEnding : Settings :=
  { mode := .release, sequenceLength := 3, sequencePosition := 2,
    triggers := [⟨20, ⟨0.5, 1⟩⟩, ⟨20, ⟨0, 1⟩⟩] }

/-- A note ends. -/
def ending : Event := .noteOff .initial 60 1 0

/-- The pedal takes the first turn, though not while it is up, and the note that ends next makes
the layer sound. Under the sustain pedal it waits instead, and a note that begins changes
nothing. -/
theorem secondEnding_sounds_or_waits :
    let start := initial secondEnding
    let pressed : Event := .controller .initial 20 0.75
    let raised : Event := .controller .initial 20 0.25
    let under := start.run [pressed, .controller .initial .sustain 1]
    start.AsksForTurn pressed ∧ ¬start.AsksForTurn raised ∧
      (start.run [raised, pressed]).turns.toNat = 1 ∧
      (start.run [raised, pressed]).AsksForTurn ending ∧
      ((start.run [raised, pressed]).step ending).2 = true ∧ under.SetsAside .initial 60 1 0 ∧
      (under.step ending).1.sustained.toList = [⟨60, 0⟩] ∧
      under.step (.noteOn .initial 60 1 0) = (under, false) := by
  intro start pressed raised under
  obtain ⟨asks, -⟩ := turns_count_what_asks secondEnding []
  obtain ⟨-, counts, answers, -⟩ := turns_count_what_asks secondEnding [raised, pressed]
  obtain ⟨-, -, -, noteOns, -, waits⟩ :=
    turns_count_what_asks secondEnding [pressed, .controller .initial .sustain 1]
  have first : start.qualifies pressed = true := by decide +kernel
  have silent : start.qualifies raised = false := by decide +kernel
  have sounds : ((start.run [raised, pressed]).step ending).2 = true := by decide +kernel
  have one : start.turnsTaken [raised, pressed] = 1 := by decide +kernel
  have aside : under.SetsAside .initial 60 1 0 :=
    ⟨admits_iff.mp (by decide +kernel), rfl, by decide +kernel, by decide +kernel⟩
  have room : (under.sustained.push ⟨60, Memory.initial.velocity 60⟩).toList = [⟨60, 0⟩] := by
    decide +kernel
  refine ⟨(asks pressed).mp first, ?_, (counts (by decide +kernel)).trans one,
    ((answers (by decide +kernel) ending).mp sounds).1, sounds, aside, ?_, ?_⟩
  · intro also
    exact Bool.eq_false_iff.mp silent ((asks raised).mpr also)
  · exact (congrArg (·.1.sustained.toList) (waits _ _ _ _ aside).2).trans room
  · refine noteOns _ _ _ _ ?_
    intro asks
    cases asks with
    | attack _ mode => exact absurd mode (by decide)
    | first _ mode _ => exact absurd mode (by decide)
    | legato _ mode _ => exact absurd mode (by decide)

end Layer

end Voicing
