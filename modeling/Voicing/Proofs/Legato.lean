import Voicing.Proofs.Attacks
import Voicing.Proofs.Keyboard

/-!
First notes and legato notes.

A layer can be asked to sound on every note-on, on those that find no other key down, or on
those that find another key down. The memory only counts the keys, and the count includes the
one that has just been struck: a note-on is a first one if it leaves the count at one. As the
count is that of the pressed keys after every run, the first notes and the legato notes are
all notes, and none is both.

* `Engine.Abreast.attacksOf_inMode`: the mode takes its share of what a layer attacks on every note.
* `Engine.held_of_struck`: a struck note leaves the count at one if no other key is down.
* `first_and_legato_split_attacks`: the two shares make up the whole.
-/

namespace Voicing

/-- Whether a mode asks for a note-on that leaves so many keys down. -/
def Mode.asks (held : Nat) : Mode → Bool
  | .attack => true
  | .first => held == 1
  | .legato => decide (1 < held)
  | .releaseKey | .release => false

/-- The settings with a name and a mode of their own. -/
def Settings.inMode (s : Settings) (name : Option String) (mode : Mode) : Settings :=
  { s with name := name, mode := mode }

theorem Layer.modeAsks_eq (l : Layer) (m : Memory) :
    l.modeAsks m = l.settings.mode.asks m.held := by
  unfold modeAsks
  cases l.settings.mode <;> rfl

namespace Engine

variable {e : Engine} {event : Event} {n : Note} {v : Single}

/-! ### The keys -/

theorem cues_of_struck (struck : e.struck? event = some (n, v)) : e.cues event = [.noteOn n v] := by
  unfold struck? at struck
  split at struck
  · next k w cues =>
    obtain ⟨rfl, rfl⟩ := Prod.mk.inj (Option.some.inj struck)
    exact cues
  · exact absurd struck (by simp)

theorem memory_of_struck (struck : e.struck? event = some (n, v)) :
    (e.step event).1.memory = e.memory.apply (.noteOn n v) := by
  rw [step_fst, cues_of_struck struck, follow_singleton, memory_take]
  rfl

/-- The count of an engine is that of the pressed keys. -/
theorem counted_run (b : Bank) (draws : KeyStream) (events : List Event) :
    ((ofBank b draws).run events).1.memory.Counted := by
  refine run_keeps (P := fun e => e.memory.Counted) ?_ Memory.counted_initial events
  intro e cue counted
  rw [memory_take]
  exact Memory.run_keeps (fun _ event _ counted => counted.apply event) counted

/-- A struck key is down, and it is the only one that counts if no other is. -/
theorem held_of_struck (counted : e.memory.Counted) (key : n.toNat < noteCount)
    (struck : e.struck? event = some (n, v)) :
    0 < (e.step event).1.memory.held ∧
      ((e.step event).1.memory.held = 1 ↔
        ∀ k, k ≠ n → (e.step event).1.memory.isPressed k = false) := by
  rw [memory_of_struck struck]
  have down : (e.memory.apply (.noteOn n v)).isPressed n = true := by
    simp [Memory.isPressed_apply _ key, Memory.Event.startsOver, Memory.Event.moves]
  have after := counted.apply (.noteOn n v)
  refine ⟨after.held_pos down, ?_⟩
  rw [after.held]
  exact Memory.pressedCount_eq_one_iff _ down

/-! ### The modes -/

variable {s : Settings} {l a : Layer}

/-- A layer attacks as it does in the mode that asks for every note, if its own mode asks. -/
theorem Abreast.attacksOf_inMode {i j : Nat} (abreast : Abreast i j e e)
    (here : e.layers[i]? = some l) (there : e.layers[j]? = some a)
    (length : s.sequenceLength = 1) (position : s.sequencePosition = 1)
    {name other : Option String} {mode : Mode} (own : l.settings = s.inMode name mode)
    (every : a.settings = s.inMode other .attack) (struck : e.struck? event = some (n, v)) :
    attacksOf i (e.step event).2 =
      if mode.asks (e.step event).1.memory.held then attacksOf j (e.step event).2 else [] := by
  have turn : l.isOwnTurn = a.isOwnTurn := by
    rw [Layer.isOwnTurn_of_single (own ▸ length) (own ▸ position),
      Layer.isOwnTurn_of_single (every ▸ length) (every ▸ position)]
  have admits (m : Memory) (k : Note) (w r : Single) : l.admits m k w r = a.admits m k w r := by
    unfold Layer.admits Layer.acceptsNote Layer.heardVelocity Layer.acceptsDraw
    rw [own, every]
    rfl
  have asks (m : Memory) : l.modeAsks m = mode.asks m.held := by
    rw [Layer.modeAsks_eq, own]
    rfl
  have always (m : Memory) : a.modeAsks m = true := by
    rw [Layer.modeAsks_eq, every]
    rfl
  refine abreast.attacksOf_eq_ite here there turn ?_
  intro k w played
  obtain ⟨rfl, rfl⟩ := Prod.mk.inj (Option.some.inj (played.symm.trans struck))
  rw [admits, asks, always, Bool.and_true, memory_of_struck struck, Bool.and_comm]

end Engine

/-- Of three layers that differ in their names and modes only, the one that is asked to sound
on every note attacks if exactly one of the others does, and it is the one for first notes if no
other key is down. An event strikes a note if it is a note-on, or a message that is listened to
and brings one. -/
theorem first_and_legato_split_attacks (b : Bank) (s : Settings) (length : s.sequenceLength = 1)
    (position : s.sequencePosition = 1) (every first legato : Nat) (x y z : Option String)
    (listed_every : b.layers[every]? = some (s.inMode x .attack))
    (listed_first : b.layers[first]? = some (s.inMode y .first))
    (listed_legato : b.layers[legato]? = some (s.inMode z .legato)) (draws : KeyStream)
    (before : List Engine.Event) (event : Engine.Event) (n : Note) (v : Single)
    (key : n.toNat < noteCount) :
    let e := ((Engine.ofBank b draws).run before).1
    let attacks (i : Nat) : Prop := attacksOf i (e.step event).2 ≠ []
    e.struck? event = some (n, v) →
      (attacks every ↔ attacks first ∧ ¬ attacks legato ∨ attacks legato ∧ ¬ attacks first) ∧
      ¬ (attacks first ∧ attacks legato) ∧
      (attacks every →
        (attacks first ↔ ∀ k, k ≠ n → (e.step event).1.memory.isPressed k = false)) := by
  intro e attacks struck
  obtain ⟨a, there, whole⟩ := Engine.exists_layer_run b draws before listed_every
  have share {i : Nat} {name : Option String} {mode : Mode}
      (listed : b.layers[i]? = some (s.inMode name mode)) :
      attacks i ↔ attacks every ∧ mode.asks (e.step event).1.memory.held = true := by
    have start : Engine.Abreast i every (Engine.ofBank b draws) (Engine.ofBank b draws) :=
      Engine.abreast_ofBank rfl draws draws (by rw [listed, listed_every]; rfl)
    obtain ⟨l, here, own⟩ := Engine.exists_layer_run b draws before listed
    have taken : attacksOf i (e.step event).2 = if mode.asks (e.step event).1.memory.held then
        attacksOf every (e.step event).2 else [] :=
      (start.run before).attacksOf_inMode here there length position own whole struck
    change attacksOf i (e.step event).2 ≠ [] ↔ attacksOf every (e.step event).2 ≠ [] ∧ _
    rw [taken]
    cases mode.asks (e.step event).1.memory.held <;> simp
  obtain ⟨pos, alone⟩ := Engine.held_of_struck (Engine.counted_run b draws before) key struck
  rw [share listed_first, share listed_legato, ← alone]
  simp only [Mode.asks, beq_iff_eq, decide_eq_true_eq]
  have either : (e.step event).1.memory.held = 1 ∨ 1 < (e.step event).1.memory.held :=
    (Nat.eq_or_lt_of_le pos).imp_left Eq.symm
  have never : ¬ ((e.step event).1.memory.held = 1 ∧ 1 < (e.step event).1.memory.held) :=
    fun both => absurd both.2 (Nat.not_lt.mpr (Nat.le_of_eq both.1))
  refine ⟨⟨?_, ?_⟩, ?_, ?_⟩
  · intro attacked
    rcases either with one | more
    · exact .inl ⟨⟨attacked, one⟩, fun other => never ⟨one, other.2⟩⟩
    · exact .inr ⟨⟨attacked, more⟩, fun other => never ⟨other.2, more⟩⟩
  · rintro (⟨⟨attacked, -⟩, -⟩ | ⟨⟨attacked, -⟩, -⟩)
    · exact attacked
    · exact attacked
  · rintro ⟨⟨-, one⟩, -, more⟩
    exact never ⟨one, more⟩
  · intro attacked
    exact and_iff_right attacked

/-- Three layers of the upper keys that answer louder notes only. -/
def upper : Settings := { keys := ⟨60, 127⟩, velocities := ⟨0.25, 1⟩ }

def trio : Bank where
  layers := [upper.inMode (some "legato") .legato, upper.inMode none .attack,
    upper.inMode (some "first") .first]

/-- A key is struck and let go, another one comes up, and a third one is struck and stays down. -/
def opening : List Engine.Event :=
  [.noteOn 64 0.5, .noteOff 64 0, .noteOff 65 0, .noteOn 127 0.75]

/-- The only key that is down is struck again, and this counts as a first note. -/
theorem repeated_note_is_a_first_note :
    let e := ((Engine.ofBank trio (.ofSeed 1)).run opening).1
    let again : Engine.Event := .rawMessage [0x90, 127, 127]
    e.memory.isPressed 127 = true ∧ e.struck? again = some (127, 1) ∧
      attacksOf 1 (e.step again).2 = [⟨.attack, 127, 1⟩] ∧ attacksOf 2 (e.step again).2 ≠ [] ∧
      attacksOf 0 (e.step again).2 = [] := by
  intro e again
  have struck : e.struck? again = some (127, 1) := by decide +kernel
  have pressed : e.memory.isPressed 127 = true := by decide +kernel
  have every : attacksOf 1 (e.step again).2 = [⟨.attack, 127, 1⟩] := by decide +kernel
  obtain ⟨-, both, alone⟩ := first_and_legato_split_attacks trio upper rfl rfl 1 2 0 none
    (some "first") (some "legato") rfl rfl rfl (.ofSeed 1) opening again 127 1 (by decide) struck
  have attacked : attacksOf 1 (e.step again).2 ≠ [] := every ▸ List.cons_ne_nil _ _
  obtain ⟨-, held⟩ := Engine.held_of_struck (Engine.counted_run trio (.ofSeed 1) opening)
    (by decide) struck
  have one : (e.step again).1.memory.held = 1 := by decide +kernel
  have first := (alone attacked).mpr (held.mp one)
  exact ⟨pressed, struck, every, first, not_not.mp fun legato => both ⟨first, legato⟩⟩

end Voicing
