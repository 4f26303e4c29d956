import Voicing.Bank.Fault

/-!
What banks are without a fault.

Settings are *workable* if a layer can do its work with them: there is a turn to take, the keys are
on the keyboard, and every range and threshold is one of numbers, in order and within reach. The
faults of settings are exactly the rules of these that they break, each fault naming what breaks it.

* `Settings.mem_faults_iff`: a fault is listed if and only if its rule is broken.
* `Settings.fault?_eq_none_iff`: settings without a fault are the workable ones.
* `Bank.layerFault?_eq_some_iff`: which fault of a list of layers is the first.
* `fault_names_first_unworkable`: so a bank has no fault exactly if it can be played, and otherwise
  its channel is at fault, or the first layer that is not workable.
-/

namespace Voicing

/-! ### Numbers and notes in order -/

theorem Binary.ne_nan_of_le {f : Format} {x y : Binary f} (le : x ≤ y) : x ≠ .nan ∧ y ≠ .nan := by
  obtain ⟨a, b, left, right, -⟩ := Binary.le_iff.mp le
  constructor
  · rintro rfl
    exact Option.some_ne_none a left.symm
  · rintro rfl
    exact Option.some_ne_none b right.symm

namespace Interval

/-- The bounds are numbers, and in order. -/
structure IsRising (i : Interval Single) : Prop where
  low_ne_nan : i.low ≠ .nan
  high_ne_nan : i.high ≠ .nan
  low_le_high : i.low ≤ i.high

/-- The bounds are notes that can be played, and in order. -/
structure IsPlayable (i : Interval Note) : Prop where
  low_le_high : i.low ≤ i.high
  high_lt : i.high.toNat < noteCount

theorem isOrdered_iff_isRising {i : Interval Single} : i.isOrdered = true ↔ i.IsRising := by
  rw [isOrdered_iff]
  constructor
  · intro le
    obtain ⟨low, high⟩ := Binary.ne_nan_of_le le
    exact ⟨low, high, le⟩
  · exact IsRising.low_le_high

theorem isOrdered_eq_false_iff {i : Interval Single} : i.isOrdered = false ↔ ¬i.IsRising := by
  rw [← isOrdered_iff_isRising, Bool.not_eq_true]

theorem isKeyRange_eq_false_iff {i : Interval Note} :
    Settings.isKeyRange i = false ↔ ¬i.IsPlayable := by
  have same : Settings.isKeyRange i = true ↔ i.IsPlayable := by
    unfold Settings.isKeyRange
    rw [Bool.and_eq_true, isOrdered_iff, decide_eq_true_iff]
    constructor
    · rintro ⟨le, lt⟩
      exact ⟨le, lt⟩
    · rintro ⟨le, lt⟩
      exact ⟨le, lt⟩
  rw [← same, Bool.not_eq_true]

end Interval

/-- The threshold is a number that the value of a controller can reach. -/
structure Pedal.IsReachable (p : Pedal) : Prop where
  ne_nan : p.threshold ≠ .nan
  zero_le : 0 ≤ p.threshold
  le_one : p.threshold ≤ 1

theorem Pedal.includes_eq_false_iff {p : Pedal} :
    (Interval.mk 0 1).includes p.threshold = false ↔ ¬p.IsReachable := by
  have same : (Interval.mk 0 1).includes p.threshold = true ↔ p.IsReachable := by
    rw [Interval.includes_iff]
    constructor
    · rintro ⟨zero_le, le_one⟩
      exact ⟨(Binary.ne_nan_of_le le_one).1, zero_le, le_one⟩
    · rintro ⟨-, zero_le, le_one⟩
      exact ⟨zero_le, le_one⟩
  rw [← same, Bool.not_eq_true]

/-! ### Settings -/

theorem RangeField.mem_all (field : RangeField) : field ∈ all := by cases field <;> decide

theorem PedalKind.mem_all (kind : PedalKind) : kind ∈ all := by cases kind <;> decide

theorem SwitchKind.mem_all (kind : SwitchKind) : kind ∈ all := by cases kind <;> decide

namespace Settings

variable {s : Settings}

/-- A layer can do its work with the settings. -/
structure IsWorkable (s : Settings) : Prop where
  sequenceLength : 1 ≤ s.sequenceLength
  sequencePosition : 1 ≤ s.sequencePosition
  keys : s.keys.IsPlayable
  ranges : ∀ field : RangeField, (field.get s).IsRising
  thresholds : ∀ kind : PedalKind, (kind.get s).IsReachable
  entries : ∀ e ∈ s.conditions ++ s.triggers,
    e.controller.toNat < controllerCount ∧ e.range.IsRising
  keyswitches : ∀ i, s.keyswitches = some i → i.IsPlayable
  switches : ∀ (kind : SwitchKind) (n : Note), kind.get s = some n → n.toNat < noteCount

/-- The settings break the rule of a fault, and do so where the fault says. -/
def Breaks (s : Settings) : Fault → Prop
  | .sequenceLength => s.sequenceLength < 1
  | .sequencePosition => s.sequencePosition < 1
  | .keys i => i = s.keys ∧ ¬s.keys.IsPlayable
  | .inverted field i => i = field.get s ∧ ¬(field.get s).IsRising
  | .threshold kind x => x = (kind.get s).threshold ∧ ¬(kind.get s).IsReachable
  | .controller c => ∃ e ∈ s.conditions ++ s.triggers,
      c = e.controller ∧ controllerCount ≤ e.controller.toNat
  | .controllerRange e => e ∈ s.conditions ++ s.triggers ∧
      e.controller.toNat < controllerCount ∧ ¬e.range.IsRising
  | .keyswitches i => s.keyswitches = some i ∧ ¬i.IsPlayable
  | .switch kind => ∃ n, kind.get s = some n ∧ noteCount ≤ n.toNat

theorem entryFault?_eq_some_iff {e : ControllerRange} {fault : Fault} :
    entryFault? e = some fault ↔
      (fault = .controller e.controller ∧ controllerCount ≤ e.controller.toNat) ∨
      (fault = .controllerRange e ∧ e.controller.toNat < controllerCount ∧ ¬e.range.IsRising) := by
  unfold entryFault?
  rw [← Interval.isOrdered_eq_false_iff]
  by_cases beyond : controllerCount ≤ e.controller.toNat
  · have outside : ¬e.controller.toNat < controllerCount := Nat.not_lt_of_le beyond
    rw [if_pos beyond]
    simp only [beyond, outside, and_true, false_and, and_false, or_false, Option.some_inj]
    exact eq_comm
  · have inside : e.controller.toNat < controllerCount := Nat.lt_of_not_le beyond
    rw [if_neg beyond]
    cases e.range.isOrdered with
    | true => simp only [beyond, if_true, and_false, or_false, reduceCtorEq]
    | false =>
        simp only [beyond, inside, and_false, false_or, Bool.false_eq_true, if_false, and_true,
          Option.some_inj]
        exact eq_comm

/-- A fault is listed if and only if the settings break its rule where it says. -/
theorem mem_faults_iff {fault : Fault} : fault ∈ s.faults ↔ s.Breaks fault := by
  simp only [faults, List.mem_append, List.mem_map, List.mem_filter, List.mem_filterMap,
    List.mem_ite_nil_right, List.mem_ite_nil_left, List.mem_singleton, entryFault?_eq_some_iff]
  -- A fault is in the part of the list that is made of its kind, and in no other.
  cases fault with
  | sequenceLength => simp [Breaks]
  | sequencePosition => simp [Breaks]
  | keys i => simp [Breaks, Interval.isKeyRange_eq_false_iff, and_comm]
  | inverted field i =>
      have own : (∃ other : RangeField, ¬(other.get s).IsRising ∧ other = field ∧ other.get s = i) ↔
          s.Breaks (.inverted field i) := by
        constructor
        · rintro ⟨_, bad, rfl, rfl⟩
          exact ⟨rfl, bad⟩
        · rintro ⟨rfl, bad⟩
          exact ⟨field, bad, rfl, rfl⟩
      simpa [Interval.isOrdered_eq_false_iff, RangeField.mem_all] using own
  | threshold kind x =>
      have own : (∃ other : PedalKind, ¬(other.get s).IsReachable ∧ other = kind ∧
          (other.get s).threshold = x) ↔ s.Breaks (.threshold kind x) := by
        constructor
        · rintro ⟨_, bad, rfl, rfl⟩
          exact ⟨rfl, bad⟩
        · rintro ⟨rfl, bad⟩
          exact ⟨kind, bad, rfl, rfl⟩
      simpa [Pedal.includes_eq_false_iff, PedalKind.mem_all] using own
  | controller c => simp [Breaks]
  | controllerRange e =>
      have own : (∃ other, (other ∈ s.conditions ∨ other ∈ s.triggers) ∧ e = other ∧
          other.controller.toNat < controllerCount ∧ ¬other.range.IsRising) ↔
          s.Breaks (.controllerRange e) := by
        rw [Breaks, List.mem_append]
        constructor
        · rintro ⟨_, listed, rfl, broken⟩
          exact ⟨listed, broken⟩
        · rintro ⟨listed, broken⟩
          exact ⟨e, listed, rfl, broken⟩
      simpa using own
  | keyswitches i => simp [Breaks, Interval.isKeyRange_eq_false_iff]
  | switch kind => simp [Breaks, SwitchKind.mem_all, Option.any_eq_true]

/-- Settings without a fault are the workable ones. -/
theorem fault?_eq_none_iff : s.fault? = none ↔ s.IsWorkable := by
  have clean : s.fault? = none ↔ ∀ fault, ¬s.Breaks fault := by
    unfold fault?
    rw [List.head?_eq_none_iff, List.eq_nil_iff_forall_not_mem]
    exact forall_congr' fun fault => not_congr mem_faults_iff
  rw [clean]
  constructor
  · intro keeps
    refine ⟨UInt32.not_lt.mp (keeps .sequenceLength), UInt32.not_lt.mp (keeps .sequencePosition),
      ?_, ?_, ?_, ?_, ?_, ?_⟩
    · exact Classical.not_not.mp fun bad => keeps (.keys _) ⟨rfl, bad⟩
    · intro field
      exact Classical.not_not.mp fun bad => keeps (.inverted field _) ⟨rfl, bad⟩
    · intro kind
      exact Classical.not_not.mp fun bad => keeps (.threshold kind _) ⟨rfl, bad⟩
    · intro e listed
      have inside : e.controller.toNat < controllerCount :=
        Nat.lt_of_not_le fun beyond => keeps (.controller _) ⟨e, listed, rfl, beyond⟩
      exact ⟨inside, Classical.not_not.mp fun bad => keeps (.controllerRange e)
        ⟨listed, inside, bad⟩⟩
    · intro i set
      exact Classical.not_not.mp fun bad => keeps (.keyswitches i) ⟨set, bad⟩
    · intro kind n set
      exact Nat.lt_of_not_le fun beyond => keeps (.switch kind) ⟨n, set, beyond⟩
  · intro workable fault broken
    cases fault with
    | sequenceLength => exact UInt32.not_lt.mpr workable.sequenceLength broken
    | sequencePosition => exact UInt32.not_lt.mpr workable.sequencePosition broken
    | keys i => exact broken.2 workable.keys
    | inverted field i => exact broken.2 (workable.ranges field)
    | threshold kind x => exact broken.2 (workable.thresholds kind)
    | controller c =>
        obtain ⟨e, listed, -, beyond⟩ := broken
        exact Nat.not_lt_of_le beyond (workable.entries e listed).1
    | controllerRange e => exact broken.2.2 (workable.entries e broken.1).2
    | keyswitches i => exact broken.2 (workable.keyswitches i broken.1)
    | switch kind =>
        obtain ⟨n, set, beyond⟩ := broken
        exact Nat.not_lt_of_le beyond (workable.switches kind n set)

theorem breaks_of_fault? {fault : Fault} (found : s.fault? = some fault) : s.Breaks fault :=
  mem_faults_iff.mp (List.mem_of_mem_head? found)

end Settings

/-! ### Banks -/

namespace Bank

/-- The channel, if there is one to listen to, is one of the sixteen. -/
def IsTuned (b : Bank) : Prop := ∀ c, b.channel = some c → 1 ≤ c ∧ c ≤ 16

theorem layerFault?_eq_none_iff {first : Nat} {layers : List Settings} :
    layerFault? first layers = none ↔ ∀ s ∈ layers, s.IsWorkable := by
  induction layers generalizing first with
  | nil => simp [layerFault?]
  | cons s layers ih =>
      rw [layerFault?, List.forall_mem_cons, ← @ih (first + 1), ← Settings.fault?_eq_none_iff]
      cases s.fault? with
      | none => simp
      | some broken => simp

/-- The first fault of a list of layers is that of the first one that is not workable. -/
theorem layerFault?_eq_some_iff {first : Nat} {layers : List Settings} {fault : Fault} :
    layerFault? first layers = some fault ↔
      ∃ k s broken, layers[k]? = some s ∧ s.fault? = some broken ∧
        fault = .layer (first + k) broken ∧ ∀ t ∈ layers.take k, t.IsWorkable := by
  induction layers generalizing first with
  | nil => simp [layerFault?]
  | cons s layers ih =>
      rw [layerFault?]
      cases found : s.fault? with
      | some broken =>
          constructor
          · intro same
            refine ⟨0, s, broken, rfl, found, (Option.some.inj same).symm, ?_⟩
            exact fun t mem => absurd mem List.not_mem_nil
          · rintro ⟨k, t, other, listed, own, rfl, before⟩
            cases k with
            | zero =>
                obtain rfl : s = t := Option.some.inj listed
                obtain rfl : broken = other := Option.some.inj (found.symm.trans own)
                rfl
            | succ k =>
                have workable := before s List.mem_cons_self
                rw [← Settings.fault?_eq_none_iff, found] at workable
                exact absurd workable (Option.some_ne_none _)
      | none =>
          refine ih.trans ?_
          constructor
          · rintro ⟨k, t, broken, listed, own, rfl, before⟩
            refine ⟨k + 1, t, broken, listed, own, ?_, ?_⟩
            · rw [Nat.add_assoc, Nat.add_comm 1]
            · exact List.forall_mem_cons.mpr ⟨Settings.fault?_eq_none_iff.mp found, before⟩
          · rintro ⟨k, t, broken, listed, own, rfl, before⟩
            cases k with
            | zero =>
                obtain rfl : s = t := Option.some.inj listed
                exact absurd (own.symm.trans found) (Option.some_ne_none _)
            | succ k =>
                refine ⟨k, t, broken, listed, own, ?_, (List.forall_mem_cons.mp before).2⟩
                rw [Nat.add_assoc, Nat.add_comm 1]

variable {b : Bank}

theorem fault?_of_tuned (tuned : b.IsTuned) : b.fault? = layerFault? 0 b.layers := by
  have passes : (b.channel.filter fun c => !(decide (1 ≤ c) && decide (c ≤ 16))) = none := by
    rw [Option.filter_eq_none_iff]
    intro c set
    obtain ⟨low, high⟩ := tuned c set
    simp [low, high]
  unfold fault?
  rw [passes]

theorem fault?_of_channel {c : UInt8} (set : b.channel = some c) (outside : ¬(1 ≤ c ∧ c ≤ 16)) :
    b.fault? = some (.channel c) := by
  have stays : (b.channel.filter fun c => !(decide (1 ≤ c) && decide (c ≤ 16))) = some c := by
    rw [Option.filter_eq_some_iff]
    refine ⟨set, ?_⟩
    rw [← Bool.decide_and, decide_eq_false outside]
    rfl
  unfold fault?
  rw [stays]

end Bank

/-- A bank has no fault exactly if its channel, if any, is one of the sixteen and all its layers
are workable. Otherwise the fault is the channel's, if that is not one of the sixteen and whatever
the layers are, or else it is the fault of the first layer that is not workable, which breaks the
rule that the fault names. -/
theorem fault_names_first_unworkable (b : Bank) :
    (b.fault? = none ↔ b.IsTuned ∧ ∀ s ∈ b.layers, s.IsWorkable) ∧
      (∀ c, b.fault? = some (.channel c) ↔ b.channel = some c ∧ ¬(1 ≤ c ∧ c ≤ 16)) ∧
      ∀ i broken, b.fault? = some (.layer i broken) ↔ b.IsTuned ∧
        ∃ s, b.layers[i]? = some s ∧ ¬s.IsWorkable ∧ s.fault? = some broken ∧ s.Breaks broken ∧
          ∀ t ∈ b.layers.take i, t.IsWorkable := by
  by_cases tuned : b.IsTuned
  · rw [Bank.fault?_of_tuned tuned]
    refine ⟨?_, ?_, ?_⟩
    · rw [Bank.layerFault?_eq_none_iff]
      exact ⟨fun all => ⟨tuned, all⟩, fun both => both.2⟩
    · intro c
      constructor
      · intro found
        obtain ⟨_, _, _, _, _, same, _⟩ := Bank.layerFault?_eq_some_iff.mp found
        exact nomatch same
      · rintro ⟨set, outside⟩
        exact absurd (tuned c set) outside
    · intro i broken
      rw [Bank.layerFault?_eq_some_iff]
      constructor
      · rintro ⟨k, s, other, listed, found, same, before⟩
        obtain ⟨rfl, rfl⟩ := Bank.Fault.layer.inj same
        rw [Nat.zero_add]
        refine ⟨tuned, s, listed, ?_, found, Settings.breaks_of_fault? found, before⟩
        rw [← Settings.fault?_eq_none_iff, found]
        exact Option.some_ne_none _
      · rintro ⟨-, s, listed, -, found, -, before⟩
        exact ⟨i, s, broken, listed, found, by rw [Nat.zero_add], before⟩
  · obtain ⟨c, set, outside⟩ : ∃ c, b.channel = some c ∧ ¬(1 ≤ c ∧ c ≤ 16) := by
      simpa only [Bank.IsTuned, Classical.not_forall, exists_prop] using tuned
    rw [Bank.fault?_of_channel set outside]
    refine ⟨?_, ?_, ?_⟩
    · exact ⟨nofun, fun both => absurd both.1 tuned⟩
    · intro d
      rw [set]
      constructor
      · intro same
        obtain rfl := Bank.Fault.channel.inj (Option.some.inj same)
        exact ⟨rfl, outside⟩
      · rintro ⟨same, -⟩
        rw [Option.some.inj same]
    · intro i broken
      exact ⟨nofun, fun both => absurd both.1 tuned⟩

/-- A layer of the last key and the last controller. Infinite bounds are in order, and so are the
two zeros. -/
def farthest : Settings where
  keyswitch := some 127
  bends := ⟨0, .zero true⟩
  tempi := ⟨0, .infinite false⟩
  conditions := [⟨511, ⟨0, 1⟩⟩]

/-- The layers before the one at fault are workable, the ones after it may be anything. One
controller further is too far, and so are one key and one channel. -/
theorem one_further_is_too_far :
    let further : Settings := { farthest with conditions := [⟨512, ⟨0, 1⟩⟩] }
    let higher : Settings := { farthest with keyswitch := some 128 }
    let b : Bank := { channel := some 16, layers := [farthest, further, { bends := ⟨-1, .nan⟩ }] }
    b.fault? = some (.layer 1 (.controller 512)) ∧ b.IsTuned ∧ farthest.IsWorkable ∧
      ¬further.IsWorkable ∧ ¬higher.IsWorkable ∧
      Bank.fault? { b with channel := some 17 } = some (.channel 17) := by
  intro further higher b
  have named : b.fault? = some (.layer 1 (.controller 512)) := by decide +kernel
  obtain ⟨-, -, layer⟩ := fault_names_first_unworkable b
  obtain ⟨tuned, s, listed, unworkable, -, -, before⟩ := (layer 1 _).mp named
  obtain rfl : further = s := Option.some.inj listed
  refine ⟨named, tuned, before farthest List.mem_cons_self, unworkable, ?_, by decide +kernel⟩
  exact fun workable => absurd (workable.switches .keyswitch 128 rfl) (by decide)

end Voicing
