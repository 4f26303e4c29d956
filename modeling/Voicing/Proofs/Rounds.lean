import Voicing.Proofs.Faults
import Voicing.Proofs.Turns
import Mathlib.Data.Nat.Periodic
import Mathlib.Order.Interval.Finset.Nat

/-!
The rounds of a layer.

A layer counts turns and has one of them in each round: of as many turns in succession as a round
has, wherever they begin, one opens the sequence gate. That is so if the layer's turn is one of
the round. Settings without a fault can also name a turn that comes after the last one; it never
comes, and the layer is never heard.

* `Layer.sequence_outcomes`: where the turns of a run put the sequence gate.
* `count_window`: a round begins anywhere.
* `one_turn_of_each_round`: both put together, for settings without a fault.
* `lateVoice_is_never_heard`: a turn that no round has.
-/

namespace Voicing

namespace Settings

variable {s : Settings}

/-- Settings without a fault have rounds of at least one turn, and name none before the first. -/
theorem sequence_of_valid (valid : s.fault? = none) :
    1 ≤ s.sequenceLength ∧ 1 ≤ s.sequencePosition := by
  have workable := fault?_eq_none_iff.mp valid
  exact ⟨workable.sequenceLength, workable.sequencePosition⟩

/-- A turn that is the layer's own is one of the round. -/
theorem position_le_of_owns {turn : UInt64} (own : s.owns turn = true) :
    s.sequencePosition.toNat ≤ s.roundLength := by
  have positive : 0 < s.roundLength := Nat.lt_of_lt_of_le Nat.one_pos (Nat.le_max_right _ _)
  have below := Nat.mod_lt turn.toNat positive
  rw [owns, beq_iff_eq] at own
  omega

/-- The settings own the turns of a run as they are numbered, until the counter comes round. -/
theorem owns_ofNat {k : Nat} (small : k < UInt64.size) :
    s.owns (.ofNat k) = (k % s.roundLength + 1 == s.sequencePosition.toNat) := by
  rw [owns, UInt64.toNat_ofNat_of_lt' small]

end Settings

namespace Layer

variable (l : Layer)

/-! ### One event -/

/-- A layer whose turn comes after the last one of a round is not heard. -/
theorem position_le_of_sounds {event : Event} (sounds : (l.step event).2 = true) :
    l.settings.sequencePosition.toNat ≤ l.settings.roundLength := by
  rw [sounds_step, isReady_eq, sequence_step, Bool.and_eq_true, Bool.and_eq_true] at sounds
  obtain ⟨qualifies, -, own⟩ := sounds
  rw [if_pos qualifies] at own
  exact Settings.position_le_of_owns own

/-! ### Runs -/

/-- What comes of the events of a run that take a turn: the layer afterwards, and whether it
sounds. -/
def outcomes (l : Layer) : List Event → List (Layer × Bool)
  | [] => []
  | event :: events =>
    (if l.qualifies event then [l.step event] else []) ++ (l.step event).1.outcomes events

theorem length_outcomes (events : List Event) :
    (l.outcomes events).length = l.turnsTaken events := by
  induction events generalizing l with
  | nil => rfl
  | cons event events ih =>
      rw [outcomes, turnsTaken, List.length_append, ih]
      split <;> rfl

theorem sounds_outcomes (events : List Event) :
    ∀ o ∈ l.outcomes events, o.2 = (o.1.gatesOnTurn.areOpen && o.1.gates.sequence) := by
  induction events generalizing l with
  | nil => exact fun o mem => absurd mem List.not_mem_nil
  | cons event events ih =>
      intro o mem
      rcases List.mem_append.mp mem with now | later
      · split at now
        · next qualifies =>
            cases List.mem_singleton.mp now
            rw [← isReady_eq, sounds_step, qualifies, Bool.true_and]
        · exact absurd now List.not_mem_nil
      · exact ih _ o later

/-- Each turn of a run opens the sequence gate if it is the layer's own, and closes it otherwise. -/
theorem sequence_outcomes (events : List Event) :
    (l.outcomes events).map (·.1.gates.sequence) =
      (List.range (l.turnsTaken events)).map
        fun k => l.settings.owns (l.turns + UInt64.ofNat k) := by
  induction events generalizing l with
  | nil => rfl
  | cons event events ih =>
      rw [outcomes, turnsTaken, List.map_append, ih, settings_step, turns_step]
      cases qualifies : l.qualifies event with
      | false => simp
      | true =>
          have now := l.sequence_step event
          rw [if_pos qualifies] at now
          have own : l.settings.owns (l.turns + UInt64.ofNat 0) = l.isOwnTurn := by
            rw [show UInt64.ofNat 0 = 0 from rfl, UInt64.add_zero]
            rfl
          have next (k : Nat) : l.turns + 1 + UInt64.ofNat k = l.turns + UInt64.ofNat (k + 1) := by
            rw [UInt64.ofNat_add, UInt64.add_assoc, UInt64.add_comm 1]
            rfl
          rw [if_pos rfl, if_pos rfl, if_pos rfl, Nat.add_comm 1, List.range_succ_eq_map]
          simp only [List.map_cons, List.map_nil, List.map_map, List.singleton_append, now, own,
            next, Function.comp_def, Nat.succ_eq_add_one]

end Layer

/-- Of as many turns in succession as a round has, one has a given position in its round. -/
theorem count_window {length position : Nat} (first : Nat) (positive : 1 ≤ position) :
    (List.range' first length).countP (fun k => k % length + 1 == position) =
      if position ≤ length then 1 else 0 := by
  have periodic : Function.Periodic (fun k => k % length + 1 = position) length := by
    intro k
    simp
  have whole := Nat.filter_multiset_Ico_card_eq_of_periodic first length _ periodic
  have listed : Multiset.Ico first (first + length) = ↑(List.range' first length) := by
    refine (congrArg Finset.val (Nat.Ico_eq_range' first (first + length))).trans ?_
    rw [Nat.add_sub_cancel_left]
  have own : (Finset.range length).filter (fun k => k % length + 1 = position) =
      if position ≤ length then {position - 1} else ∅ := by
    ext k
    rw [Finset.mem_filter, Finset.mem_range]
    constructor
    · rintro ⟨small, same⟩
      rw [Nat.mod_eq_of_lt small] at same
      rw [if_pos (by omega), Finset.mem_singleton]
      omega
    · intro mem
      split at mem
      · rw [Finset.mem_singleton] at mem
        have small : k < length := by omega
        rw [Nat.mod_eq_of_lt small]
        omega
      · exact absurd mem (Finset.notMem_empty k)
  rw [listed, Nat.count_eq_card_filter_range, own, Multiset.filter_coe, Multiset.coe_card,
    ← List.countP_eq_length_filter] at whole
  refine Eq.trans whole ?_
  split <;> rfl

/-- Settings without a fault, and any run. Of as many turns in succession as a round has, wherever
they begin, exactly one opens the sequence gate, if the layer's turn is one of the round; if it
comes after the last one, none does. That holds until the counter of turns comes round. A turn makes
the layer sound if it opens the sequence gate and no other gate is closed, and nothing but a turn
does. -/
theorem one_turn_of_each_round (s : Settings) (valid : s.fault? = none)
    (events : List Layer.Event) :
    let start := Layer.initial s
    let outcomes := start.outcomes events
    (start.run events).turns = UInt64.ofNat outcomes.length ∧
    (outcomes.length ≤ UInt64.size → ∀ first,
      first + s.sequenceLength.toNat ≤ outcomes.length →
        ((outcomes.drop first).take s.sequenceLength.toNat).countP (·.1.gates.sequence) =
          if s.sequencePosition ≤ s.sequenceLength then 1 else 0) ∧
    (∀ o ∈ outcomes, o.2 = (o.1.gatesOnTurn.areOpen && o.1.gates.sequence)) ∧
    ∀ event, ((start.run events).step event).2 = true →
      (start.run events).qualifies event = true ∧ s.sequencePosition ≤ s.sequenceLength := by
  intro start outcomes
  obtain ⟨long, positive⟩ := Settings.sequence_of_valid valid
  have round : s.roundLength = s.sequenceLength.toNat := Nat.max_eq_left long
  have length : outcomes.length = start.turnsTaken events := start.length_outcomes events
  refine ⟨?_, ?_, start.sounds_outcomes events, ?_⟩
  · rw [length, start.turns_run]
    exact UInt64.zero_add _
  · intro few first inside
    have opened : (((outcomes.drop first).take s.sequenceLength.toNat).map
        (·.1.gates.sequence)) =
        (List.range' first s.sequenceLength.toNat).map
          fun k => k % s.sequenceLength.toNat + 1 == s.sequencePosition.toNat := by
      rw [List.take_drop, List.map_drop, List.map_take, start.sequence_outcomes, ← length,
        ← List.map_take, List.take_range, Nat.min_eq_left inside, ← List.map_drop,
        List.range_eq_range', List.drop_range', Nat.zero_add, Nat.mul_one,
        Nat.add_sub_cancel_left]
      refine List.map_congr_left ?_
      intro k mem
      have small : k < UInt64.size :=
        Nat.lt_of_lt_of_le (List.mem_range'_1.mp mem).2 (Nat.le_trans inside few)
      change s.owns (0 + UInt64.ofNat k) = _
      rw [UInt64.zero_add, Settings.owns_ofNat small, round]
    have counted := congrArg (List.countP id) opened
    rw [List.countP_map, List.countP_map] at counted
    exact counted.trans (count_window first positive)
  · intro event sounds
    have within := Layer.position_le_of_sounds _ sounds
    rw [Layer.sounds_step, Bool.and_eq_true] at sounds
    refine ⟨sounds.1, ?_⟩
    rw [Layer.settings_run] at within
    change s.sequencePosition.toNat ≤ s.roundLength at within
    rwa [round] at within

/-- The second of three voices. -/
def middleVoice : Settings := { sequenceLength := 3, sequencePosition := 2 }

/-- The same note, so many times. -/
def repeated (count : Nat) : List Layer.Event := .replicate count (.noteOn .initial 60 1 0)

/-- Of three notes in succession, one is the second voice's, also if they begin behind the first. -/
theorem middleVoice_opens_once :
    middleVoice.fault? = none ∧
      let outcomes := (Layer.initial middleVoice).outcomes (repeated 4)
      outcomes.length = 4 ∧ (outcomes.take 3).countP (·.1.gates.sequence) = 1 ∧
        ((outcomes.drop 1).take 3).countP (·.1.gates.sequence) = 1 := by
  have valid : middleVoice.fault? = none := by decide
  obtain ⟨-, windows, -⟩ := one_turn_of_each_round middleVoice valid (repeated 4)
  have four : ((Layer.initial middleVoice).outcomes (repeated 4)).length = 4 := by decide +kernel
  rw [four] at windows
  exact ⟨valid, four, windows (by decide) 0 (by decide), windows (by decide) 1 (by decide)⟩

/-- A voice that waits for the second turn of a round of one. -/
def lateVoice : Settings := { sequenceLength := 1, sequencePosition := 2 }

/-- Nothing is wrong with its settings, but no turn opens its gate, and nothing is ever heard. -/
theorem lateVoice_is_never_heard :
    lateVoice.fault? = none ∧
      ((Layer.initial lateVoice).outcomes (repeated 1)).map (·.1.gates.sequence) = [false] ∧
      ∀ events event, (((Layer.initial lateVoice).run events).step event).2 = false := by
  refine ⟨by decide, by decide +kernel, ?_⟩
  intro events event
  rw [Bool.eq_false_iff]
  intro sounds
  have within := Layer.position_le_of_sounds _ sounds
  rw [Layer.settings_run] at within
  exact absurd within (by decide)

end Voicing
