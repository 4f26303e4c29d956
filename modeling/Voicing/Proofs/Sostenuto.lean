import Voicing.Proofs.Pedals

/-!
What the sostenuto pedal has caught.

When the sostenuto pedal of a layer goes down it catches the keys of the layer that are
pressed at that moment, and it keeps them until it comes up. The pedal that goes down has
caught nothing before, so there is room for whatever can be pressed.

* `Layer.Orderly.toList_catchNotes`: what a pedal catches that goes down.
* `Layer.Orderly.push_catchNotes`: all of that finds room.
* `Layer.Orderly.caught_of_still_down`: nothing is added or taken while the pedal is down.
* `sostenuto_holds_what_was_pressed`: after any events, the pedal holds what was pressed in
  the memory with which it was told to go down, and nothing once it is up.
-/

namespace Voicing

/-! ### The keys that are pressed -/

theorem mem_allNotes (n : Note) : n ∈ allNotes ↔ n.toNat < noteCount := by
  unfold allNotes
  simp only [List.mem_map, List.mem_range]
  constructor
  · rintro ⟨k, below, rfl⟩
    have small : k < 256 := Nat.lt_trans below (by decide)
    simpa [Nat.mod_eq_of_lt small] using below
  · exact fun below => ⟨n.toNat, below, by simp⟩

theorem pairwise_allNotes : allNotes.Pairwise (· < ·) := by
  unfold allNotes
  rw [List.pairwise_map]
  refine List.pairwise_lt_range.imp_of_mem ?_
  intro j k _ below_k lt
  have small : k < 256 := Nat.lt_trans (List.mem_range.mp below_k) (by decide)
  rw [UInt8.lt_iff_toNat_lt]
  simpa [Nat.mod_eq_of_lt small, Nat.mod_eq_of_lt (Nat.lt_trans lt small)] using lt

/-- Only notes that can be played are pressed. -/
theorem Memory.lt_of_isPressed {m : Memory} {n : Note} (pressed : m.isPressed n = true) :
    n.toNat < noteCount := by
  unfold isPressed at pressed
  rcases Nat.lt_or_ge n.toNat noteCount with below | beyond
  · exact below
  · rw [Vector.getElem?_eq_none beyond] at pressed
    exact absurd pressed Bool.false_ne_true

namespace HeldReleases

/-- Releases for which there is room are appended, all of them. -/
theorem toList_foldl_push (rs : List Release) {h : HeldReleases}
    (room : h.size + rs.length ≤ capacity) : (rs.foldl push h).toList = h.toList ++ rs := by
  induction rs generalizing h with
  | nil => simp
  | cons r rs ih =>
      rw [List.length_cons] at room
      have appended : (h.push r).toList = h.toList ++ [r] := by
        rw [toList_push, if_pos (by omega)]
      have size : (h.push r).size = h.size + 1 := by
        simp [HeldReleases.size, appended]
      rw [List.foldl_cons, ih (by omega), appended, List.append_assoc]
      rfl

end HeldReleases

namespace Layer

variable {l : Layer} {m : Memory} {c : Controller} {v : Single}

theorem mem_pressedKeys {n : Note} :
    n ∈ l.pressedKeys m ↔ l.settings.keys.includes n = true ∧ m.isPressed n = true := by
  unfold pressedKeys
  rw [List.mem_filter, Bool.and_eq_true, mem_allNotes]
  constructor
  · exact fun h => h.2
  · exact fun h => ⟨m.lt_of_isPressed h.2, h⟩

theorem pairwise_pressedKeys : (l.pressedKeys m).Pairwise (· < ·) :=
  pairwise_allNotes.filter _

theorem length_pressedKeys_le : (l.pressedKeys m).length ≤ HeldReleases.capacity := by
  have length : allNotes.length = HeldReleases.capacity := by
    simp [allNotes, HeldReleases.capacity]
  rw [← length]
  exact List.length_filter_le _ _

/-- The releases of the keys that are pressed, as loud as they were struck. -/
def pressedReleases (l : Layer) (m : Memory) : List Release :=
  (l.pressedKeys m).map fun n => ⟨n, m.velocity n⟩

theorem mem_pressedReleases {r : Release} :
    r ∈ l.pressedReleases m ↔ l.settings.keys.includes r.note = true ∧
      m.isPressed r.note = true ∧ r.velocity = m.velocity r.note := by
  unfold pressedReleases
  simp only [List.mem_map, mem_pressedKeys]
  constructor
  · rintro ⟨n, ⟨inside, pressed⟩, rfl⟩
    exact ⟨inside, pressed, rfl⟩
  · rintro ⟨inside, pressed, velocity⟩
    exact ⟨r.note, ⟨inside, pressed⟩, by rw [← velocity]⟩

theorem catchNotes_eq_foldl :
    l.catchNotes m = (l.pressedReleases m).foldl HeldReleases.push l.caught := by
  unfold catchNotes pressedReleases
  rw [List.foldl_map]

/-! ### Going down -/

/-- A pedal that goes down catches the keys that are pressed. -/
theorem Orderly.toList_catchNotes (orderly : l.Orderly) (up : l.sostenutoDown = false) :
    (l.catchNotes m).toList = l.pressedReleases m := by
  have length : (l.pressedReleases m).length ≤ HeldReleases.capacity := by
    unfold pressedReleases
    rw [List.length_map]
    exact length_pressedKeys_le
  rw [catchNotes_eq_foldl, orderly.caught_of_up up, HeldReleases.toList_foldl_push]
  · rfl
  · exact (Nat.zero_add _).symm ▸ length

/-- There is room for every release that a pedal catches that goes down. -/
theorem Orderly.push_catchNotes (orderly : l.Orderly) (up : l.sostenutoDown = false)
    {before after : List Release} {r : Release}
    (split : l.pressedReleases m = before ++ r :: after) :
    (before.foldl HeldReleases.push l.caught).push? r ≠ none := by
  have length : before.length + (after.length + 1) ≤ HeldReleases.capacity := by
    have bound := length_pressedKeys_le (l := l) (m := m)
    have parts := congrArg List.length split
    rw [pressedReleases, List.length_map, List.length_append, List.length_cons] at parts
    omega
  have caught : (before.foldl HeldReleases.push l.caught).toList = before := by
    rw [orderly.caught_of_up up, HeldReleases.toList_foldl_push]
    · rfl
    · have nothing : HeldReleases.empty.size = 0 := rfl
      omega
  rw [ne_eq, HeldReleases.push?_eq_none_iff, HeldReleases.size, caught]
  omega

/-! ### Events -/

/-- Only controllers move the sostenuto pedal and change what it has caught. -/
theorem Orderly.sostenuto_of_other (orderly : l.Orderly) {event : Event}
    (other : ∀ m c v, event ≠ .controller m c v) :
    (l.step event).1.sostenutoDown = l.sostenutoDown ∧ (l.step event).1.caught = l.caught := by
  cases event with
  | noteOn m n v r =>
      have same := l.hold_noteOn m n v r
      exact ⟨congrArg Hold.sostenutoDown same, congrArg Hold.caught same⟩
  | noteOff m n v r => exact ⟨(l.noteOff_fields m n v r).2.2.1, orderly.caught_noteOff⟩
  | controller m c v => exact absurd rfl (other m c v)
  | _ => exact ⟨rfl, rfl⟩

theorem sostenuto_controller :
    (l.controller m c v).1.sostenutoDown =
        (if c = l.settings.sostenuto.controller then l.settings.sostenuto.isPressedBy v
          else l.sostenutoDown) ∧
      (l.controller m c v).1.caught = l.caughtAfter m v c := by
  obtain ⟨-, -, down, -, caught⟩ := Hold.mk.inj (l.hold_controller m v c)
  exact ⟨down, caught⟩

/-- While the pedal is down it neither catches nor lets go. -/
theorem Orderly.caught_of_still_down (orderly : l.Orderly) {event : Event}
    (down : l.sostenutoDown = true) (still : (l.step event).1.sostenutoDown = true) :
    (l.step event).1.caught = l.caught := by
  by_cases other : ∀ m c v, event ≠ .controller m c v
  · exact (orderly.sostenuto_of_other other).2
  · obtain ⟨m, c, v, rfl⟩ : ∃ m c v, event = .controller m c v := by
      simpa using other
    obtain ⟨moved, caught⟩ := sostenuto_controller (l := l) (m := m) (c := c) (v := v)
    change (l.controller m c v).1.sostenutoDown = true at still
    rw [moved] at still
    refine caught.trans ?_
    unfold caughtAfter
    split at still
    · simp [*]
    · simp [*]

/-- It takes a controller to make the pedal go down, and the memory that comes with it says
what is caught. -/
theorem Orderly.caught_of_goes_down (orderly : l.Orderly) {event : Event}
    (up : l.sostenutoDown = false) (down : (l.step event).1.sostenutoDown = true) :
    ∃ m c v, event = .controller m c v ∧
      (l.step event).1.caught.toList = l.pressedReleases m := by
  by_cases other : ∀ m c v, event ≠ .controller m c v
  · have same := (orderly.sostenuto_of_other other).1
    exact absurd (down.symm.trans (same.trans up)) (by decide)
  · obtain ⟨m, c, v, rfl⟩ : ∃ m c v, event = .controller m c v := by
      simpa using other
    obtain ⟨moved, caught⟩ := sostenuto_controller (l := l) (m := m) (c := c) (v := v)
    change (l.controller m c v).1.sostenutoDown = true at down
    rw [moved] at down
    have catches : l.caughtAfter m v c = l.catchNotes m := by
      unfold caughtAfter
      split at down
      · simp [*]
      · exact absurd (down.symm.trans up) (by decide)
    refine ⟨m, c, v, rfl, ?_⟩
    change (l.controller m c v).1.caught.toList = _
    rw [caught, catches, orderly.toList_catchNotes up]

/-! ### Runs -/

theorem Orderly.run (orderly : l.Orderly) (events : List Event) : (l.run events).Orderly :=
  run_keeps (fun _ event held => held.step event) events orderly

/-- While the pedal stays down over a run, it holds what it held. -/
theorem Orderly.caught_run (orderly : l.Orderly) {events : List Event}
    (still : ∀ later, later <+: events → (l.run later).sostenutoDown = true) :
    (l.run events).caught = l.caught := by
  induction events generalizing l with
  | nil => rfl
  | cons event events ih =>
      have down : l.sostenutoDown = true := still [] List.nil_prefix
      have next : (l.step event).1.sostenutoDown = true :=
        still [event] (List.prefix_cons_inj event |>.mpr List.nil_prefix)
      rw [run_cons, ih (orderly.step event), orderly.caught_of_still_down down next]
      intro later early
      exact still (event :: later) ((List.prefix_cons_inj event).mpr early)

/-- The memory with which the pedal was told to go down for the last time: it was up before,
and has been down ever since. -/
def WentDownWith (l : Layer) (events : List Event) (m : Memory) : Prop :=
  ∃ before c v after, events = before ++ .controller m c v :: after ∧
    (l.run before).sostenutoDown = false ∧
    ∀ later, later <+: after → (l.run (before ++ .controller m c v :: later)).sostenutoDown = true

/-- What the pedal holds that went down with a memory. -/
theorem Orderly.toList_caught (orderly : l.Orderly) {events : List Event}
    (went : l.WentDownWith events m) : (l.run events).caught.toList = l.pressedReleases m := by
  obtain ⟨before, c, v, after, rfl, up, still⟩ := went
  have earlier := orderly.run before
  have moves : ∀ later, l.run (before ++ .controller m c v :: later) =
      (((l.run before).step (.controller m c v)).1).run later := by
    intro later
    rw [run_append, run_cons]
  have down : ((l.run before).step (.controller m c v)).1.sostenutoDown = true := by
    have now := still [] List.nil_prefix
    rwa [moves] at now
  obtain ⟨m', c', v', same, caught⟩ := earlier.caught_of_goes_down up down
  cases same
  rw [moves, (earlier.step _).caught_run, caught]
  · unfold pressedReleases pressedKeys
    rw [settings_run]
  · intro later early
    rw [← moves]
    exact still later early

/-- A pedal that is down after a run has been down all the way, or it went down on it. -/
theorem Orderly.down_or_wentDownWith (orderly : l.Orderly) {events : List Event}
    (down : (l.run events).sostenutoDown = true) :
    (∀ later, later <+: events → (l.run later).sostenutoDown = true) ∨
      ∃ m, l.WentDownWith events m := by
  induction events generalizing l with
  | nil =>
      refine .inl ?_
      intro later early
      rwa [List.prefix_nil.mp early]
  | cons event events ih =>
      rcases ih (orderly.step event) down with stayed | ⟨m, before, c, v, after, rfl, up, still⟩
      · have next : (l.step event).1.sostenutoDown = true := stayed [] List.nil_prefix
        cases now : l.sostenutoDown with
        | true =>
            refine .inl ?_
            rintro (_ | ⟨other, later⟩) early
            · exact now
            · obtain ⟨rfl, rest⟩ := List.cons_prefix_cons.mp early
              exact stayed later rest
        | false =>
            obtain ⟨m, c, v, rfl, -⟩ := orderly.caught_of_goes_down now next
            exact .inr ⟨m, [], c, v, events, rfl, now, stayed⟩
      · exact .inr ⟨m, event :: before, c, v, after, rfl, up, still⟩

theorem Orderly.exists_wentDownWith (orderly : l.Orderly) (up : l.sostenutoDown = false)
    {events : List Event} (down : (l.run events).sostenutoDown = true) :
    ∃ m, l.WentDownWith events m := by
  rcases orderly.down_or_wentDownWith down with stayed | went
  · have now : l.sostenutoDown = true := stayed [] List.nil_prefix
    exact absurd (now.symm.trans up) (by decide)
  · exact went

end Layer

/-- After any events in the life of a layer a lifted sostenuto pedal holds nothing, and a
pedal that is down holds the keys of the layer that were pressed in the memory with which it
was told to go down, each once, in ascending order and as loud as it had been struck. Nothing
changes that while it stays down; there is room for all that it catches, and a release never
finds a note on the list of a lifted pedal, from which it would have to be taken. -/
theorem sostenuto_holds_what_was_pressed (s : Settings) (events : List Layer.Event) :
    let start := Layer.initial s
    let l := start.run events
    (l.sostenutoDown = false → l.caught = .empty) ∧
      (l.sostenutoDown = true → ∃ m, start.WentDownWith events m) ∧
      (∀ m, start.WentDownWith events m →
        (∀ r, r ∈ l.caught.toList ↔ s.keys.includes r.note = true ∧
          m.isPressed r.note = true ∧ r.velocity = m.velocity r.note) ∧
        l.caught.toList.Pairwise (·.note < ·.note)) ∧
      (∀ event, l.sostenutoDown = true → (l.step event).1.sostenutoDown = true →
        (l.step event).1.caught = l.caught) ∧
      (∀ m before r after, l.sostenutoDown = false → l.pressedReleases m = before ++ r :: after →
        (before.foldl HeldReleases.push l.caught).push? r ≠ none) ∧
      ∀ n, l.caught.holds n = true → l.isCaught n = true := by
  intro start l
  have fresh : start.Orderly := Layer.orderly_initial s
  have orderly : l.Orderly := fresh.run events
  refine ⟨orderly.caught_of_up, fresh.exists_wentDownWith rfl, ?_, ?_, ?_, ?_⟩
  · intro m went
    rw [fresh.toList_caught went]
    refine ⟨fun r => Layer.mem_pressedReleases, ?_⟩
    unfold Layer.pressedReleases
    rw [List.pairwise_map]
    exact Layer.pairwise_pressedKeys
  · intro event down still
    exact orderly.caught_of_still_down down still
  · intro m before r after up split
    exact orderly.push_catchNotes up split
  · intro n held
    rwa [orderly.isCaught_eq]

/-- A layer for the middle of the keyboard. -/
def middle : Settings where
  keys := ⟨48, 72⟩

/-- A chord, of which the top note is none of the layer's. -/
def chord : Memory := Memory.initial.run [.noteOn 60 0.25, .noteOn 64 0.75, .noteOn 80 0.5]

/-- A note of the chord ends, and the pedal is pressed harder while only another note is
held. -/
def afterChord : List Layer.Event :=
  [.noteOff (chord.noteOff 64 0) 64 0 0, .controller (Memory.initial.noteOn 62 1) .sostenuto 1]

/-- The pedal goes down with the chord, and afterwards does not come up. -/
def heldChord : List Layer.Event := .controller chord .sostenuto 0.5 :: afterChord

theorem wentDownWith_chord : (Layer.initial middle).WentDownWith heldChord chord := by
  refine ⟨[], .sostenuto, 0.5, afterChord, rfl, rfl, ?_⟩
  intro later early
  obtain ⟨k, rfl⟩ : ∃ k, later = afterChord.take k := ⟨_, List.prefix_iff_eq_take.mp early⟩
  match k with
  | 0 => decide +kernel
  | 1 => decide +kernel
  | k + 2 =>
      rw [List.take_of_length_le (Nat.le_add_left 2 k)]
      decide +kernel

/-- The pedal holds what it caught when it went down, and neither what is none of the
layer's nor what was pressed later. -/
theorem chord_stays_caught :
    let start := Layer.initial middle
    let l := start.run heldChord
    start.WentDownWith heldChord chord ∧ l.sostenutoDown = true ∧
      (⟨60, 0.25⟩ : Release) ∈ l.caught.toList ∧ (⟨64, 0.75⟩ : Release) ∈ l.caught.toList ∧
      (∀ r ∈ l.caught.toList, r.note ≠ 80 ∧ r.note ≠ 62) ∧
      l.caught.toList.Pairwise (·.note < ·.note) ∧ l.isCaught 64 = true := by
  have went := wentDownWith_chord
  have down : ((Layer.initial middle).run heldChord).sostenutoDown = true := by decide +kernel
  obtain ⟨-, -, holds, -, -, caught⟩ := sostenuto_holds_what_was_pressed middle heldChord
  obtain ⟨members, ascending⟩ := holds chord went
  dsimp only
  generalize (Layer.initial middle).run heldChord = l at *
  have low : (⟨60, 0.25⟩ : Release) ∈ l.caught.toList := (members _).mpr (by decide +kernel)
  have high : (⟨64, 0.75⟩ : Release) ∈ l.caught.toList := (members _).mpr (by decide +kernel)
  have outside : middle.keys.includes 80 = false := by decide
  have unpressed : chord.isPressed 62 = false := by decide +kernel
  refine ⟨went, down, low, high, ?_, ascending, ?_⟩
  · intro r mem
    obtain ⟨inside, pressed, -⟩ := (members r).mp mem
    refine ⟨?_, ?_⟩
    · intro same
      rw [same, outside] at inside
      exact Bool.false_ne_true inside
    · intro same
      rw [same, unpressed] at pressed
      exact Bool.false_ne_true pressed
  · exact caught 64 (HeldReleases.holds_iff.mpr ⟨_, high, rfl⟩)

end Voicing
