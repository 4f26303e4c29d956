import Voicing.Proofs.Conservation
import Voicing.Proofs.Keyboard
import Mathlib.Data.List.Perm.Subperm

/-!
What waits for the sustain pedal.

While its sustain pedal is down, a layer puts aside the releases that it would sound. A note that
is struck and let go again under the pedal is put aside again, and there is room for as many
releases as there are notes; what is put aside beyond that is lost.

* `Layer.Clear.waiting_answer`: what waits are the first of the releases that have been put aside
  since the pedal was last up.
* `length_le_of_distinct`: different notes are never too many.
* `first_put_aside_wait`: so nothing is lost as long as no note is put aside a second time.
* `struck_again_waits_twice`: but it can be.
-/

namespace Voicing

/-- Where the first of some releases are held, one more is held if there is room. -/
theorem HeldReleases.toList_push_of_take {h : HeldReleases} {aside : List Release}
    (holds : h.toList = aside.take capacity) (r : Release) :
    (h.push r).toList = (aside ++ [r]).take capacity := by
  have size : h.size = min capacity aside.length := by
    rw [HeldReleases.size, holds, List.length_take]
  rw [toList_push, holds, size]
  by_cases room : aside.length < capacity
  · rw [if_pos (by omega), List.take_of_length_le (Nat.le_of_lt room), List.take_of_length_le]
    rw [List.length_append, List.length_singleton]
    exact room
  · rw [if_neg (by omega), List.take_append_of_le_length (Nat.le_of_not_lt room)]

namespace Layer

/-- The release that a cue makes a layer put aside, if there is one. -/
def putsAside? (o : Occasion) (l : Layer) : Cue → Option Release
  | .noteOff n v => if l.defers o.memory n v o.draw then some ⟨n, o.memory.velocity n⟩ else none
  | _ => none

/-- The releases that have been put aside since the sustain pedal was last up, after a cue. -/
def asideAfter (o : Occasion) (cue : Cue) (draws : KeyStream) (l : Layer)
    (aside : List Release) : List Release :=
  if (cue.answer o draws l).layer.sustainDown then aside ++ (l.putsAside? o cue).toList else []

variable {l : Layer} {m : Memory}

/-- What a lifted pedal lets go does not wait, and everything else does. -/
theorem sustained_releaseLifted_of_down {moved : Layer} {draws : KeyStream} (wasDown : Bool)
    (down : (moved.releaseLifted m wasDown draws).layer.sustainDown = true) :
    (moved.releaseLifted m wasDown draws).layer.sustained = moved.sustained := by
  rw [sustainDown_releaseLifted] at down
  rw [sustained_releaseLifted, down, Bool.not_true, Bool.and_false]
  rfl

/-- The first of the releases that have been put aside wait, as many as there is room for. -/
theorem Clear.waiting_answer (clear : l.Clear) {aside : List Release}
    (waits : l.sustained.toList = aside.take HeldReleases.capacity) (o : Occasion) (cue : Cue)
    (draws : KeyStream) :
    (cue.answer o draws l).layer.sustained.toList =
      (l.asideAfter o cue draws aside).take HeldReleases.capacity := by
  unfold asideAfter
  cases down : (cue.answer o draws l).layer.sustainDown with
  | false =>
      rw [clear.answer o cue draws down]
      rfl
  | true =>
      rw [if_pos rfl]
      have kept (same : (cue.answer o draws l).layer.sustained = l.sustained)
          (nothing : l.putsAside? o cue = none) :
          (cue.answer o draws l).layer.sustained.toList =
            (aside ++ (l.putsAside? o cue).toList).take HeldReleases.capacity := by
        rw [same, nothing, waits]
        simp
      cases cue with
      | noteOn n v => exact kept (congrArg Hold.sustained (hold_noteOn _ _ _ _ _)) rfl
      | noteOff n v =>
          obtain ⟨-, -, -, sustained⟩ := l.noteOff_fields o.memory n v o.draw
          change (l.noteOff o.memory n v o.draw).1.sustained.toList = _
          rw [sustained, putsAside?]
          split
          · exact HeldReleases.toList_push_of_take waits _
          · rw [waits]
            simp
      | controller c v =>
          exact kept ((sustained_releaseLifted_of_down _ down).trans
            (l.sustained_controller o.memory v c)) rfl
      | rest =>
          exact kept ((sustained_releaseLifted_of_down _ down).trans sustained_rest) rfl
      | startOver => exact absurd down Bool.false_ne_true
      | _ => exact kept rfl rfl

end Layer

/-! ### Notes that can be played -/

/-- A cue that lets go of no note beyond the keyboard. -/
def Cue.IsOnKeys : Cue → Prop
  | .noteOff n _ => n.toNat < noteCount
  | _ => True

theorem Midi.Data.toNat_note (d : Midi.Data) : d.note.toNat < noteCount := by
  have small : d.val < 256 := Nat.lt_trans d.isLt (by decide)
  have value : d.note.toNat = d.val := by simp [Midi.Data.note, Nat.mod_eq_of_lt small]
  rw [value]
  exact d.isLt

namespace Engine

theorem isOnKeys_controllerCues (c : Controller) (v : Single) :
    ∀ cue ∈ controllerCues c v, cue.IsOnKeys := by
  unfold controllerCues
  split <;> simp [Cue.IsOnKeys]

theorem isOnKeys_messageCues (m : Midi.Message) : ∀ cue ∈ messageCues m, cue.IsOnKeys := by
  cases m with
  | noteOff key velocity => simp [messageCues, Cue.IsOnKeys, key.toNat_note]
  | noteOn key velocity =>
      rw [messageCues_noteOn]
      split <;> simp [Cue.IsOnKeys, key.toNat_note]
  | controller number value => exact isOnKeys_controllerCues _ _
  | _ => simp [messageCues, Cue.IsOnKeys]

theorem isOnKeys_rawCues (e : Engine) (bytes : List UInt8) :
    ∀ cue ∈ e.rawCues bytes, cue.IsOnKeys := by
  intro cue mem
  unfold rawCues at mem
  cases read : Midi.ChannelMessage.ofBytes? bytes with
  | none => simp [read] at mem
  | some m =>
      rw [read, Option.map_some, Option.getD_some, channelCues] at mem
      split at mem
      · exact isOnKeys_messageCues m.message cue mem
      · exact absurd mem List.not_mem_nil

end Engine

/-- Releases of different notes are no more than there is room for. -/
theorem length_le_of_distinct {aside : List Release}
    (keys : ∀ r ∈ aside, r.note.toNat < noteCount) (distinct : (aside.map (·.note)).Nodup) :
    aside.length ≤ HeldReleases.capacity := by
  have subset : aside.map (·.note) ⊆ allNotes := by
    intro n mem
    obtain ⟨r, listed, rfl⟩ := List.mem_map.mp mem
    exact (mem_allNotes _).mpr (keys r listed)
  have length := (distinct.subperm subset).length_le
  rw [List.length_map] at length
  simpa [allNotes, HeldReleases.capacity] using length

/-! ### Runs -/

namespace Engine

/-- The releases that the layer at a place has put aside since its sustain pedal was last up,
after cues one after the other. -/
def asideAlong (e : Engine) (i : Nat) (aside : List Release) : List Cue → List Release
  | [] => aside
  | cue :: cues =>
    let later := match e.layers[i]? with
      | some l => l.asideAfter (e.occasion cue) cue (e.streamFor cue i) aside
      | none => aside
    (e.take cue).1.asideAlong i later cues

/-- What waits in the layer at a place are the first of the releases that it has put aside, all
of them of notes that can be played. -/
structure Stores (e : Engine) (i : Nat) (aside : List Release) : Prop where
  clear : ∀ l, e.layers[i]? = some l → l.Clear
  waits : ∀ l, e.layers[i]? = some l → l.sustained.toList = aside.take HeldReleases.capacity
  keys : ∀ r ∈ aside, r.note.toNat < noteCount

variable {e : Engine} {i : Nat} {aside : List Release}

theorem stores_ofBank (b : Bank) (draws : KeyStream) (i : Nat) :
    (ofBank b draws).Stores i [] := by
  have fresh (l : Layer) (listed : (ofBank b draws).layers[i]? = some l) :
      ∃ s, l = .initial s := by
    obtain ⟨s, -, rfl⟩ := List.mem_map.mp (List.mem_of_getElem? listed)
    exact ⟨s, rfl⟩
  refine ⟨?_, ?_, fun r mem => absurd mem List.not_mem_nil⟩
  · intro l listed
    obtain ⟨s, rfl⟩ := fresh l listed
    exact fun _ => rfl
  · intro l listed
    obtain ⟨s, rfl⟩ := fresh l listed
    rfl

/-- What is put aside on a cue is of a note that can be played, if the cue is. -/
theorem keys_asideAfter {o : Occasion} {cue : Cue} (played : cue.IsOnKeys) {draws : KeyStream}
    {l : Layer} (keys : ∀ r ∈ aside, r.note.toNat < noteCount) :
    ∀ r ∈ l.asideAfter o cue draws aside, r.note.toNat < noteCount := by
  intro r mem
  unfold Layer.asideAfter at mem
  split at mem
  · rcases List.mem_append.mp mem with before | now
    · exact keys r before
    · cases cue with
      | noteOff n v =>
          rw [Option.mem_toList, Layer.putsAside?] at now
          obtain ⟨-, same⟩ := Option.ite_none_right_eq_some.mp now
          cases same
          exact played
      | _ => exact absurd now List.not_mem_nil
  · exact absurd mem List.not_mem_nil

theorem Stores.follow (stores : e.Stores i aside) {cues : List Cue}
    (played : ∀ cue ∈ cues, cue.IsOnKeys) :
    (e.follow cues).1.Stores i (e.asideAlong i aside cues) := by
  induction cues generalizing e aside with
  | nil => exact stores
  | cons cue cues ih =>
      refine ih ?_ fun other mem => played other (List.mem_cons_of_mem _ mem)
      have taken := e.layer_take cue i
      cases before : e.layers[i]? with
      | none =>
          rw [before] at taken
          have gone (l : Layer) : (e.take cue).1.layers[i]? ≠ some l := by
            rw [taken]
            exact nofun
          exact ⟨fun l listed => absurd listed (gone l), fun l listed => absurd listed (gone l),
            stores.keys⟩
      | some l =>
          rw [before] at taken
          have clear := stores.clear l before
          have waits := stores.waits l before
          refine ⟨?_, ?_, keys_asideAfter (played cue List.mem_cons_self) stores.keys⟩
          · intro l' listed
            cases taken.symm.trans listed
            exact clear.answer _ _ _
          · intro l' listed
            cases taken.symm.trans listed
            exact clear.waiting_answer waits _ _ _

end Engine

/-- After any raw messages, what waits for the sustain pedal of a layer are the releases that it
has put aside since the pedal was last up: the first of them, as many as there are notes. One
more is lost exactly if so many have been put aside. As long as no note has been put aside twice,
no note waits twice and nothing has been lost. -/
theorem first_put_aside_wait (b : Bank) (draws : KeyStream) (messages : List (List UInt8)) (i : Nat)
    (l : Layer) :
    let start := Engine.ofBank b draws
    let e := (start.run (messages.map .rawMessage)).1
    let aside := start.asideAlong i [] (messages.flatMap start.rawCues)
    e.layers[i]? = some l →
      l.sustained.toList = aside.take HeldReleases.capacity ∧
      (∀ r, l.sustained.push? r = none ↔ HeldReleases.capacity ≤ aside.length) ∧
      ((aside.map (·.note)).Nodup → l.sustained.toList = aside ∧
        aside.length ≤ HeldReleases.capacity ∧ (l.sustained.toList.map (·.note)).Nodup) := by
  intro start e aside listed
  have followed : e = (start.follow (messages.flatMap start.rawCues)).1 := by
    refine (Engine.run_fst_eq_follow start _).trans ?_
    rw [List.flatMap_map]
    rfl
  have stores : e.Stores i aside := by
    rw [followed]
    refine (Engine.stores_ofBank b draws i).follow ?_
    intro cue mem
    obtain ⟨bytes, -, own⟩ := List.mem_flatMap.mp mem
    exact start.isOnKeys_rawCues bytes cue own
  have waits := stores.waits l listed
  refine ⟨waits, ?_, ?_⟩
  · intro r
    rw [HeldReleases.push?_eq_none_iff, HeldReleases.size, waits, List.length_take]
    omega
  · intro distinct
    have fits := length_le_of_distinct stores.keys distinct
    rw [List.take_of_length_le fits] at waits
    exact ⟨waits, fits, waits ▸ distinct⟩

/-- A layer that minds the pedals on its releases. -/
def harp : Bank where
  layers := [{ mode := .release }]

/-- Two notes are let go under the pedal. Both wait, and nothing has been lost. -/
theorem two_notes_wait :
    let start := Engine.ofBank harp (.ofSeed 1)
    let messages : List (List UInt8) := [[0xB0, 64, 127], [0x80, 60, 0], [0x80, 64, 0]]
    let aside := start.asideAlong 0 [] (messages.flatMap start.rawCues)
    aside.map (·.note) = [60, 64] ∧
      ∃ l, (start.run (messages.map .rawMessage)).1.layers[0]? = some l ∧
        l.sustained.toList = aside ∧ (l.sustained.toList.map (·.note)).Nodup := by
  intro start messages aside
  have notes : aside.map (·.note) = [60, 64] := by decide +kernel
  have listed := Engine.settings_run harp (.ofSeed 1) (messages.map .rawMessage) 0
  obtain ⟨l, listed, -⟩ := Option.map_eq_some_iff.mp listed
  obtain ⟨-, -, whole⟩ := first_put_aside_wait harp (.ofSeed 1) messages 0 l listed
  obtain ⟨waits, -, distinct⟩ := whole (by rw [notes]; decide)
  exact ⟨notes, l, listed, waits, distinct⟩

/-- A note that is struck again under the pedal waits a second time. -/
theorem struck_again_waits_twice :
    let messages : List (List UInt8) := [[0xB0, 64, 127], [0x90, 60, 64], [0x80, 60, 0],
      [0x90, 60, 64], [0x80, 60, 0]]
    ∃ l ∈ ((Engine.ofBank harp (.ofSeed 1)).run (messages.map .rawMessage)).1.layers,
      l.sustained.toList.map (·.note) = [60, 60] := by
  intro messages
  have waits : (((Engine.ofBank harp (.ofSeed 1)).run (messages.map .rawMessage)).1.layers.map
      fun l => l.sustained.toList.map (·.note)) = [[60, 60]] := by
    decide +kernel
  obtain ⟨l, layers, notes⟩ := List.map_eq_singleton_iff.mp waits
  exact ⟨l, layers ▸ List.mem_cons_self, notes⟩

end Voicing
