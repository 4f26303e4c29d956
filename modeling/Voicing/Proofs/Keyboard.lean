import Voicing.Proofs.Recall
import Mathlib.Data.List.Count

/-!
The count of the pressed keys.

The memory keeps the number of pressed keys along the way, and the note gate with it: a key
that is struck again is not counted twice, a key that comes up without having been down is
not taken off, and rest leaves both alone.

* `Memory.pressedCount_apply`: the number of pressed notes moves as the count does.
* `Memory.Counted.apply`, `Memory.Gated.apply`: an event keeps the count right, and the gate
  as well if it does not set the gate by its number.
* `held_counts_pressed`: so they are right after every run of events.
-/

namespace Voicing

namespace Memory

variable (m : Memory) {n : Note}

/-! ### The count -/

/-- The number of notes that are pressed. -/
def pressedCount : Nat := allNotes.countP m.isPressed

theorem pressedCount_le : m.pressedCount ≤ noteCount := by
  have length : allNotes.length = noteCount := by simp [allNotes]
  rw [← length]
  exact List.countP_le_length

theorem pressedCount_pos_iff : 0 < m.pressedCount ↔ ∃ n, m.isPressed n = true := by
  unfold pressedCount
  rw [List.countP_pos_iff]
  constructor
  · exact fun ⟨n, _, pressed⟩ => ⟨n, pressed⟩
  · exact fun ⟨n, pressed⟩ => ⟨n, (mem_allNotes n).mpr (m.lt_of_isPressed pressed), pressed⟩

theorem pressedCount_initial : initial.pressedCount = 0 := by
  have up (n : Note) : initial.isPressed n = false := by
    simp only [isPressed, initial, Vector.getElem?_replicate]
    split <;> rfl
  rw [pressedCount, List.countP_eq_zero]
  exact fun n _ => Bool.eq_false_iff.mp (up n)

theorem nodup_allNotes : allNotes.Nodup :=
  pairwise_allNotes.imp UInt8.ne_of_lt

/-- The count is that of the other notes, and one more for a note that is pressed itself. -/
theorem pressedCount_eq_others (key : n.toNat < noteCount) :
    m.pressedCount = (allNotes.erase n).countP m.isPressed + if m.isPressed n then 1 else 0 := by
  rw [← List.countP_cons]
  exact (List.perm_cons_erase ((mem_allNotes n).mpr key)).countP_eq m.isPressed

/-- Two memories that differ in one key at most differ in the count by that key. -/
theorem pressedCount_moved (m' : Memory) (key : n.toNat < noteCount)
    (others : ∀ k, k ≠ n → m'.isPressed k = m.isPressed k) :
    m'.pressedCount + (if m.isPressed n then 1 else 0) =
      m.pressedCount + (if m'.isPressed n then 1 else 0) := by
  have rest : (allNotes.erase n).countP m'.isPressed = (allNotes.erase n).countP m.isPressed := by
    apply List.countP_congr
    intro k mem
    rw [others k ((nodup_allNotes.mem_erase_iff).mp mem).1]
  rw [m'.pressedCount_eq_others key, m.pressedCount_eq_others key, rest]
  omega

/-- A pressed note is the only one where one note is pressed. -/
theorem pressedCount_eq_one_iff (pressed : m.isPressed n = true) :
    m.pressedCount = 1 ↔ ∀ k, k ≠ n → m.isPressed k = false := by
  rw [m.pressedCount_eq_others (m.lt_of_isPressed pressed), if_pos pressed, Nat.add_eq_right,
    List.countP_eq_zero]
  constructor
  · intro others k other
    rw [Bool.eq_false_iff]
    intro also
    have mem : k ∈ allNotes.erase n :=
      nodup_allNotes.mem_erase_iff.mpr ⟨other, (mem_allNotes k).mpr (m.lt_of_isPressed also)⟩
    exact others k mem also
  · intro others k mem
    rw [others k (nodup_allNotes.mem_erase_iff.mp mem).1]
    exact Bool.false_ne_true

/-- The number of pressed notes goes up with a note that was up, and down with one that was
down. -/
theorem pressedCount_apply (event : Event) :
    (m.apply event).pressedCount =
      match event with
      | .noteOn n _ =>
        if n.toNat < noteCount ∧ m.isPressed n = false then m.pressedCount + 1
        else m.pressedCount
      | .noteOff n _ => if m.isPressed n then m.pressedCount - 1 else m.pressedCount
      | .reset => 0
      | _ => m.pressedCount := by
  have untouched (still : ∀ n, event.moves n = none) (going : event.startsOver = false) :
      (m.apply event).pressedCount = m.pressedCount := by
    have same : (m.apply event).isPressed = m.isPressed :=
      funext fun n => m.isPressed_apply_of_unmoved (still n) going
    rw [pressedCount, same, pressedCount]
  cases event with
  | noteOn n v =>
      dsimp only
      by_cases key : n.toNat < noteCount
      · have moved := m.pressedCount_moved (m.apply (.noteOn n v)) key fun k other =>
          m.isPressed_apply_of_unmoved (if_neg (Ne.symm other)) rfl
        have down : (m.apply (.noteOn n v)).isPressed n = true := by
          simp [m.isPressed_apply key, Event.startsOver, Event.moves]
        rw [if_pos down] at moved
        cases before : m.isPressed n with
        | false => simpa [before, key] using moved
        | true => simpa [before] using moved
      · have same : m.apply (.noteOn n v) = m := if_neg key
        rw [same, if_neg fun struck => key struck.1]
  | noteOff n v =>
      dsimp only
      by_cases key : n.toNat < noteCount
      · have moved := m.pressedCount_moved (m.apply (.noteOff n v)) key fun k other =>
          m.isPressed_apply_of_unmoved (if_neg (Ne.symm other)) rfl
        have up : (m.apply (.noteOff n v)).isPressed n = false := by
          simp [m.isPressed_apply key, Event.startsOver, Event.moves]
        rw [if_neg (Bool.eq_false_iff.mp up)] at moved
        cases before : m.isPressed n with
        | false => simpa [before] using moved
        | true =>
            rw [if_pos before] at moved
            rw [if_pos rfl]
            omega
      · have same : m.apply (.noteOff n v) = m := if_neg key
        rw [same, m.isPressed_of_le (Nat.not_lt.mp key)]
        rfl
  | reset => exact pressedCount_initial
  | _ => exact untouched (fun _ => rfl) rfl

/-- The count is that of the pressed keys, and the last note is one that can be played. -/
structure Counted : Prop where
  held : m.held = m.pressedCount
  lastNote : ∀ n, m.lastNote = some n → n.toNat < noteCount

/-- The note gate is open while a key is down. -/
def Gated : Prop := m.controller .noteGate = if 0 < m.held then 1 else 0

variable {m}

theorem counted_initial : initial.Counted where
  held := pressedCount_initial.symm
  lastNote _ none := by cases none

theorem Counted.apply (counted : m.Counted) (event : Event) : (m.apply event).Counted where
  held := by
    cases event <;> simp only [held_apply, pressedCount_apply, counted.held]
  lastNote n last := by
    have after := congrArg Prod.fst (m.last_apply event)
    dsimp only at after
    rw [after] at last
    cases event with
    | noteOn k v =>
        simp only [Event.startsOver, Event.played] at last
        by_cases key : k.toNat < noteCount
        · simp only [if_pos key] at last
          cases last
          exact key
        · simp only [if_neg key] at last
          exact counted.lastNote n last
    | reset => cases last
    | _ => exact counted.lastNote n last

/-- A key that is down has been counted. -/
theorem Counted.held_pos (counted : m.Counted) (pressed : m.isPressed n = true) : 0 < m.held := by
  rw [counted.held, pressedCount_pos_iff]
  exact ⟨n, pressed⟩

theorem Gated.apply (gated : m.Gated) (counted : m.Counted) {event : Event}
    (unset : ∀ v, event ≠ .controller .noteGate v) : (m.apply event).Gated := by
  unfold Gated at gated ⊢
  cases event with
  | noteOn n v =>
      by_cases key : n.toNat < noteCount
      · have down : (m.apply (.noteOn n v)).isPressed n = true := by
          simp [m.isPressed_apply key, Event.startsOver, Event.moves]
        rw [noteGate_apply, if_pos ((counted.apply _).held_pos down)]
        exact if_pos key
      · have same : m.apply (.noteOn n v) = m := if_neg key
        rwa [same]
  | noteOff n v =>
      by_cases key : n.toNat < noteCount
      · have fewer : (m.apply (.noteOff n v)).held ≤ m.held := by
          rw [held_apply]
          dsimp only
          split <;> omega
        rw [noteGate_apply]
        dsimp only
        by_cases nothing : (m.apply (.noteOff n v)).held = 0
        · rw [if_pos ⟨key, nothing⟩, if_neg (by omega)]
        · rw [if_neg fun both => nothing both.2, gated, if_pos (by omega), if_pos (by omega)]
      · have same : m.apply (.noteOff n v) = m := if_neg key
        rwa [same]
  | controller c v =>
      have other : c ≠ .noteGate := fun same => unset v (same ▸ rfl)
      rw [noteGate_apply, held_apply]
      exact (if_neg other).trans gated
  | reset => rfl
  | resetControllers =>
      rw [noteGate_apply, held_apply]
  | _ =>
      rw [noteGate_apply, held_apply]
      exact gated

/-- What each of some events keeps, all of them keep. -/
theorem run_keeps {P : Memory → Prop} {events : List Event}
    (step : ∀ m, ∀ event ∈ events, P m → P (m.apply event)) (start : P m) : P (m.run events) := by
  induction events generalizing m with
  | nil => exact start
  | cons event events ih =>
      have stepped := step m event List.mem_cons_self start
      exact ih (fun m later mem => step m later (List.mem_cons_of_mem _ mem)) stepped

end Memory

/-- After every run of events the count is the number of pressed notes, so that it never
goes below zero nor above the number of keys; the last note is one that can be played; and
the note gate is open as long as a note is pressed, unless it was set by its own number. -/
theorem held_counts_pressed (events : List Memory.Event) :
    let m := Memory.initial.run events
    m.held = allNotes.countP m.isPressed ∧ m.held ≤ noteCount ∧
      (∀ n, m.isPressed n = true → 0 < m.held) ∧
      (∀ n, m.lastNote = some n → n.toNat < noteCount) ∧
      ((∀ v, .controller .noteGate v ∉ events) →
        ((∃ n, m.isPressed n = true) → m.controller .noteGate = 1) ∧
          ((∀ n, m.isPressed n = false) → m.controller .noteGate = 0)) := by
  intro m
  have counted : m.Counted :=
    Memory.run_keeps (fun _ event _ counted => counted.apply event) Memory.counted_initial
  refine ⟨counted.held, ?_, fun n pressed => counted.held_pos pressed, counted.lastNote, ?_⟩
  · rw [counted.held]
    exact m.pressedCount_le
  · intro unset
    have both : m.Counted ∧ m.Gated := by
      refine Memory.run_keeps (P := fun m => m.Counted ∧ m.Gated) ?_ ⟨Memory.counted_initial, rfl⟩
      rintro m event mem ⟨counted, gated⟩
      exact ⟨counted.apply event, gated.apply counted fun v same => unset v (same ▸ mem)⟩
    have gated : m.controller .noteGate = if 0 < m.held then 1 else 0 := both.2
    rw [gated, counted.held]
    refine ⟨fun pressed => if_pos (m.pressedCount_pos_iff.mpr pressed), fun up => if_neg ?_⟩
    intro pos
    obtain ⟨n, pressed⟩ := m.pressedCount_pos_iff.mp pos
    exact absurd pressed (Bool.eq_false_iff.mp (up n))

/-- One key is struck twice and let go once, another comes up that was not down, a note
beyond the keyboard is played, and all controllers go to rest meanwhile. -/
def mashing : List Memory.Event :=
  [.noteOn 60 0.5, .noteOn 60 0.75, .noteOff 64 0, .noteOn 127 0.5, .resetControllers,
    .noteOn 128 0.5, .noteOff 60 0]

theorem mashed_keys_are_counted :
    let m := Memory.initial.run mashing
    (∀ v, .controller 134 v ∉ mashing) ∧ m.isPressed 127 = true ∧
      m.held = allNotes.countP m.isPressed ∧ m.held = 1 ∧ m.lastNote = some 127 ∧
      m.controller 134 = 1 := by
  intro m
  have unset : ∀ v, .controller 134 v ∉ mashing := by simp [mashing]
  have ⟨pressed, held, last⟩ : m.isPressed 127 = true ∧ m.held = 1 ∧ m.lastNote = some 127 := by
    decide +kernel
  obtain ⟨count, -, -, -, gate⟩ := held_counts_pressed mashing
  exact ⟨unset, pressed, count, held, last, (gate unset).1 ⟨127, pressed⟩⟩

end Voicing
