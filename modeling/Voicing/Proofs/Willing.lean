import Voicing.Proofs.Independence

/-!
Layers that release every note.

The settings of a *willing* layer mind the pedals on its releases, accept every level,
bend and draw, and ask for no context. What MIDI messages bring never closes a gate of
such a layer, and so the sustain pedal alone decides when a release of its keys sounds.

* `Memory.Normal.remembered`: messages leave only levels between zero and one in the
  memory.
* `Layer.Willing.noteOff_eq`: a release waits for the sustain pedal or sounds.
* `Layer.Willing.answer`: no cue that a message brings changes the mind of a layer.
-/

namespace Voicing

/-- A number from zero to one. -/
def IsLevel (v : Single) : Prop := 0 ≤ v ∧ v ≤ 1

theorem isLevel_zero : IsLevel 0 := by
  unfold IsLevel
  decide

/-! ### What messages bring -/

/-- A cue that a MIDI message can bring. -/
def Cue.IsPlayed : Cue → Prop
  | .noteOn _ v | .noteOff _ v | .aftertouch v | .polyAftertouch _ v => IsLevel v
  | .bend v => -1 ≤ v ∧ v ≤ 1
  | .controller _ _ | .rest => True
  | .tempo _ | .startOver => False

namespace Engine

theorem isPlayed_messageCues (m : Midi.Message) : ∀ cue ∈ messageCues m, cue.IsPlayed := by
  intro cue mem
  cases m with
  | noteOff key velocity =>
      cases List.mem_singleton.mp mem
      exact velocity.level_mem
  | noteOn key velocity =>
      rw [messageCues_noteOn] at mem
      split at mem
      · cases List.mem_singleton.mp mem
        exact isLevel_zero
      · cases List.mem_singleton.mp mem
        exact velocity.level_mem
  | polyAftertouch key value =>
      cases List.mem_singleton.mp mem
      exact value.level_mem
  | controller number value =>
      rw [messageCues, controllerCues] at mem
      split at mem
      · rcases List.mem_cons.mp mem with rfl | own
        · trivial
        · cases List.mem_singleton.mp own
          trivial
      · cases List.mem_singleton.mp mem
        trivial
  | program number => exact absurd mem (List.not_mem_nil)
  | aftertouch value =>
      cases List.mem_singleton.mp mem
      exact value.level_mem
  | bend position =>
      cases List.mem_singleton.mp mem
      exact Midi.bendLevel_mem position

theorem isPlayed_rawCues (e : Engine) (bytes : List UInt8) :
    ∀ cue ∈ e.rawCues bytes, cue.IsPlayed := by
  intro cue mem
  unfold rawCues at mem
  cases read : Midi.ChannelMessage.ofBytes? bytes with
  | none => simp [read] at mem
  | some m =>
      rw [read, Option.map_some, Option.getD_some, channelCues] at mem
      split at mem
      · exact isPlayed_messageCues m.message cue mem
      · exact absurd mem (List.not_mem_nil)

end Engine

/-! ### The memory of what messages bring -/

namespace Memory

/-- Velocities and aftertouches of notes are levels. -/
structure Normal (m : Memory) : Prop where
  velocities : ∀ v ∈ m.velocities, IsLevel v
  polyAftertouches : ∀ v ∈ m.polyAftertouches, IsLevel v
  lastVelocity : IsLevel m.lastVelocity

variable {m : Memory}

theorem isLevel_replicate (k : Nat) : ∀ v ∈ Vector.replicate k (0 : Single), IsLevel v := by
  intro v mem
  obtain ⟨-, rfl⟩ := Vector.mem_replicate.mp mem
  exact isLevel_zero

theorem normal_initial : initial.Normal :=
  ⟨isLevel_replicate _, isLevel_replicate _, isLevel_zero⟩

/-- What is read out of a table of levels is a level, also beyond its end. -/
theorem isLevel_getD {k : Nat} {table : Vector Single k} (levels : ∀ v ∈ table, IsLevel v)
    (j : Nat) : IsLevel (table[j]?.getD 0) := by
  cases at_j : table[j]? with
  | none => exact isLevel_zero
  | some v => exact levels v (Vector.mem_of_getElem? at_j)

theorem isLevel_setIfInBounds {k : Nat} {table : Vector Single k} (levels : ∀ v ∈ table, IsLevel v)
    (j : Nat) {v : Single} (level : IsLevel v) : ∀ w ∈ table.setIfInBounds j v, IsLevel w := by
  intro w mem
  rw [Vector.mem_iff_getElem?] at mem
  obtain ⟨i, at_i⟩ := mem
  rw [Vector.getElem?_setIfInBounds] at at_i
  split at at_i
  · split at at_i
    · cases at_i
      exact level
    · exact absurd at_i (by simp)
  · exact levels w (Vector.mem_of_getElem? at_i)

theorem Normal.velocity (normal : m.Normal) (n : Note) : IsLevel (m.velocity n) :=
  isLevel_getD normal.velocities n.toNat

theorem Normal.polyAftertouch (normal : m.Normal) (n : Note) : IsLevel (m.polyAftertouch n) :=
  isLevel_getD normal.polyAftertouches n.toNat

/-- The memory stays normal on every cue that a message can bring. -/
theorem Normal.remembered (normal : m.Normal) {cue : Cue} (played : cue.IsPlayed) :
    (m.run cue.remembered).Normal := by
  cases cue with
  | noteOn n v =>
      change (m.noteOn n v).Normal
      unfold noteOn
      split
      · exact ⟨isLevel_setIfInBounds normal.velocities _ played, normal.polyAftertouches, played⟩
      · exact normal
  | noteOff n v =>
      change (m.noteOff n v).Normal
      unfold noteOff
      split
      · generalize (if m.isPressed n then m.held - 1 else m.held) = held
        dsimp only
        split
        · exact ⟨normal.velocities, normal.polyAftertouches, normal.lastVelocity⟩
        · exact ⟨normal.velocities, normal.polyAftertouches, normal.lastVelocity⟩
      · exact normal
  | controller c v => exact ⟨normal.velocities, normal.polyAftertouches, normal.lastVelocity⟩
  | rest =>
      change m.resetControllers.Normal
      unfold resetControllers
      dsimp only
      split
      · exact ⟨normal.velocities, isLevel_replicate _, normal.lastVelocity⟩
      · exact ⟨normal.velocities, isLevel_replicate _, normal.lastVelocity⟩
  | bend v => exact ⟨normal.velocities, normal.polyAftertouches, normal.lastVelocity⟩
  | aftertouch v => exact ⟨normal.velocities, normal.polyAftertouches, normal.lastVelocity⟩
  | polyAftertouch n v =>
      change (m.setPolyAftertouch n v).Normal
      unfold setPolyAftertouch
      split
      · exact ⟨normal.velocities, isLevel_setIfInBounds normal.polyAftertouches _ played,
          normal.lastVelocity⟩
      · exact normal
  | tempo s => exact absurd played id
  | startOver => exact absurd played id

end Memory

/-! ### Turns -/

/-- Whether a turn is the layer's own. -/
def Settings.owns (s : Settings) (turn : UInt64) : Bool :=
  turn.toNat % s.roundLength + 1 == s.sequencePosition.toNat

/-- Where a round has one turn, every turn is the layer's own. -/
theorem Settings.owns_of_single {s : Settings} (length : s.sequenceLength = 1)
    (position : s.sequencePosition = 1) (turn : UInt64) : s.owns turn = true := by
  have round : s.roundLength = 1 := by
    rw [roundLength, length]
    rfl
  rw [owns, round, position, Nat.mod_one]
  rfl

/-! ### Willing layers -/

/-- The settings of a layer that minds the pedals on its releases, leaves the sostenuto
pedal out, asks for no context and accepts everything that MIDI messages bring. -/
structure Settings.Willing (s : Settings) : Prop where
  mode : s.mode = .release
  onNote : s.onNote = true
  sostenuto : s.sostenuto.minded = false
  sequenceLength : s.sequenceLength = 1
  sequencePosition : s.sequencePosition = 1
  keyswitch : s.keyswitch = none
  previousKey : s.previousKey = none
  conditions : s.conditions = []
  velocities : ∀ v, IsLevel v → s.velocities.includes v = true
  polyAftertouches : ∀ v, IsLevel v → s.polyAftertouches.includes v = true
  aftertouches : ∀ v, IsLevel v → s.aftertouches.includes v = true
  bends : ∀ v : Single, -1 ≤ v → v ≤ 1 → s.bends.includes v = true
  draws : s.AcceptsDraws

namespace Layer

variable (l : Layer) (m : Memory) (n : Note) (v r : Single) (c : Controller)

/-! #### Gates on the layer's own turn -/

/-- The gates as they are on the layer's own turn. -/
def gatesOnTurn : Gates := { l.gates with sequence := true }

/-- Only the sequence gate tells whose turn it is. -/
theorem isReady_takeTurn : l.takeTurn.isReady = (l.gatesOnTurn.areOpen && l.isOwnTurn) := by
  simp only [isReady, takeTurn, gatesOnTurn, Gates.areOpen]
  ac_rfl

theorem gatesOnTurn_noteOff : (l.noteOff m n v r).1.gatesOnTurn = l.gatesOnTurn := by
  unfold noteOff
  split
  · cases l.settings.mode with
    | release =>
        unfold releaseUnderPedals
        dsimp only
        split
        · rfl
        · cases l.caught.holds n <;> cases down : l.sustainDown <;> simp [down] <;> rfl
    | _ => rfl
  · rfl

/-- The pedals move neither gates nor settings. -/
theorem movePedals_fields : ((l.moveSustain c v).moveSostenuto m c v).gates = l.gates ∧
    ((l.moveSustain c v).moveSostenuto m c v).settings = l.settings := by
  unfold moveSostenuto moveSustain
  split <;> split <;> exact ⟨rfl, rfl⟩

/-- A controller moves no gate but its own. -/
theorem gatesOnTurn_controller :
    (l.controller m c v).1.gatesOnTurn =
      { l.gatesOnTurn with controllers := l.gates.controllers.set c (l.meetsCondition c v) } := by
  have moved := l.movePedals_fields m v c
  unfold controller
  generalize (l.moveSustain c v).moveSostenuto m c v = k at moved
  obtain ⟨gates, settings⟩ := moved
  have own : (k.moveGate c v).gatesOnTurn =
      { l.gatesOnTurn with controllers := l.gates.controllers.set c (l.meetsCondition c v) } := by
    unfold moveGate gatesOnTurn meetsCondition
    rw [gates, settings]
  dsimp only
  split
  · exact own
  · exact own

/-! #### What a willing layer does -/

/-- Nothing but its sustain pedal keeps a release of the layer's keys from sounding. -/
structure Willing (l : Layer) : Prop where
  settings : l.settings.Willing
  gates : l.gatesOnTurn.areOpen = true
  orderly : l.Orderly
  sostenuto_up : l.sostenutoDown = false
  waiting : ∀ r ∈ l.sustained.toList, l.settings.keys.includes r.note = true ∧ IsLevel r.velocity

variable {l m n v r c}

theorem willing_initial {s : Settings} (willing : s.Willing) : (initial s).Willing := by
  refine ⟨willing, ?_, orderly_initial s, rfl, fun r mem => absurd mem (List.not_mem_nil)⟩
  have controllers : ControllerGates.allOpen.areOpen = true :=
    ControllerGates.areOpen_iff.mpr ControllerGates.isOpen_allOpen
  simp [gatesOnTurn, Gates.areOpen, initial, Settings.usesKeyswitch, Settings.usesPreviousKey,
    willing.keyswitch, willing.previousKey, controllers]

theorem Willing.of_hold {l' : Layer} (willing : l.Willing) (same : l'.hold = l.hold)
    (gates : l'.gatesOnTurn.areOpen = true) : l'.Willing := by
  obtain ⟨settings, -, sostenuto, sustained, -⟩ := Hold.mk.inj same
  refine ⟨?_, gates, willing.orderly.of_hold same, sostenuto.trans willing.sostenuto_up, ?_⟩
  · rw [settings]
    exact willing.settings
  · rw [settings, sustained]
    exact willing.waiting

theorem Willing.sound_eq (willing : l.Willing) : l.sound = (l.takeTurn, true) := by
  have own : l.isOwnTurn = true :=
    Settings.owns_of_single willing.settings.sequenceLength willing.settings.sequencePosition _
  rw [sound, isReady_takeTurn, own, willing.gates]
  rfl

theorem Willing.takeTurn (willing : l.Willing) : l.takeTurn.Willing :=
  willing.of_hold (hold_takeTurn l) willing.gates

theorem Willing.admits (willing : l.Willing) (normal : m.Normal)
    (inside : l.settings.keys.includes n = true) (level : IsLevel v) (low : 0 ≤ r) (high : r < 1) :
    l.admits m n v r = true := by
  have heard : IsLevel (l.heardVelocity m v) := by
    unfold heardVelocity
    cases l.settings.velocitySource with
    | current => exact level
    | previous => exact normal.lastVelocity
  have note : l.acceptsNote n (l.heardVelocity m v) = true := by
    rw [acceptsNote, inside, willing.settings.velocities _ heard]
    rfl
  have drawn : l.acceptsDraw r = true := willing.settings.draws r low high
  have touched := willing.settings.polyAftertouches _ (normal.polyAftertouch n)
  rw [Layer.admits, willing.settings.onNote, note, drawn, touched]
  rfl

/-- A release of a key of the layer waits for the sustain pedal or sounds. -/
theorem Willing.noteOff_eq (willing : l.Willing) (normal : m.Normal)
    (inside : l.settings.keys.includes n = true) (level : IsLevel v) (low : 0 ≤ r) (high : r < 1) :
    l.noteOff m n v r =
      if l.sustainDown then ({ l with sustained := l.sustained.push ⟨n, m.velocity n⟩ }, false)
      else (l.takeTurn, true) := by
  have free : l.caught.holds n = false := by
    rw [willing.orderly.caught_of_up willing.sostenuto_up]
    rfl
  rw [noteOff, if_pos (willing.admits normal inside level low high), willing.settings.mode]
  dsimp only
  rw [willing.orderly.releaseUnderPedals_eq, free, willing.sound_eq]
  rfl

/-- A layer admits none but its own keys. -/
theorem inside_of_admits (admitted : l.admits m n v r = true) :
    l.settings.keys.includes n = true := by
  simp only [admits, acceptsNote, Bool.and_eq_true] at admitted
  exact admitted.1.1.2.1

/-- What waits after a note-off is the layer's own and as loud as the note was struck. -/
theorem Willing.noteOff (willing : l.Willing) (normal : m.Normal) :
    (l.noteOff m n v r).1.Willing := by
  obtain ⟨settings, -, sostenuto, sustained⟩ := noteOff_fields l m n v r
  have sostenuto_up := sostenuto.trans willing.sostenuto_up
  refine ⟨?_, ?_, willing.orderly.noteOff, sostenuto_up, ?_⟩
  · rw [settings]
    exact willing.settings
  · rw [gatesOnTurn_noteOff]
    exact willing.gates
  · rw [settings, sustained]
    intro release mem
    cases waits : l.defers m n v r with
    | false =>
        rw [waits] at mem
        exact willing.waiting release mem
    | true =>
        rw [waits, if_pos rfl, HeldReleases.toList_push] at mem
        split at mem
        · rcases List.mem_append.mp mem with before | new
          · exact willing.waiting release before
          · cases List.mem_singleton.mp new
            refine ⟨?_, normal.velocity n⟩
            simp only [defers, Bool.and_eq_true] at waits
            exact inside_of_admits waits.1.1.1
        · exact willing.waiting release mem

/-- A willing layer has no conditions on controllers, and so no gate closes. -/
theorem Willing.controller (willing : l.Willing) : (l.controller m c v).1.Willing := by
  obtain ⟨settings, -, sostenuto, sustained, -⟩ := Hold.mk.inj (hold_controller l m v c)
  refine ⟨?_, ?_, willing.orderly.controller, ?_, ?_⟩
  · rw [settings_controller]
    exact willing.settings
  · have met : l.meetsCondition c v = true := by
      simp [meetsCondition, Settings.condition?, Settings.rangeOf?, willing.settings.conditions]
    have gates := willing.gates
    rw [gatesOnTurn_controller, met]
    simp only [Gates.areOpen, gatesOnTurn, Bool.and_eq_true, ControllerGates.areOpen_iff] at gates ⊢
    refine ⟨gates.1, ?_⟩
    intro d
    rw [ControllerGates.isOpen_set, gates.2 d]
    split <;> rfl
  · have unmoved : l.settings.sostenuto.isPressedBy v = false := by
      simp [Pedal.isPressedBy, willing.settings.sostenuto]
    change (l.controller m c v).1.sostenutoDown = _ at sostenuto
    rw [sostenuto, unmoved, willing.sostenuto_up]
    split <;> rfl
  · rw [settings_controller, sustained_controller]
    exact willing.waiting

theorem Willing.setBend (willing : l.Willing) (low : -1 ≤ v) (high : v ≤ 1) :
    (l.setBend v).Willing := by
  refine willing.of_hold (hold_setBend l v) ?_
  have gates := willing.gates
  simp only [Gates.areOpen, gatesOnTurn, Bool.and_eq_true] at gates
  simp [Gates.areOpen, gatesOnTurn, Layer.setBend, gates, willing.settings.bends v low high]

theorem Willing.setAftertouch (willing : l.Willing) (level : IsLevel v) :
    (l.setAftertouch v).Willing := by
  refine willing.of_hold (hold_setAftertouch l v) ?_
  have gates := willing.gates
  simp only [Gates.areOpen, gatesOnTurn, Bool.and_eq_true] at gates
  have inside := willing.settings.aftertouches v level
  simp [Gates.areOpen, gatesOnTurn, Layer.setAftertouch, gates, inside]

/-- No key switch stands in the way, and so none moves. -/
theorem Willing.switchKeys_eq (willing : l.Willing) (previous : Option Note) :
    l.switchKeys n previous = l := by
  unfold switchKeys
  rw [willing.settings.keyswitch, willing.settings.previousKey]

theorem Willing.noteOn_eq (willing : l.Willing) : l.noteOn m n v r = (l, false) := by
  have unasked : l.modeAsks m = false := by
    unfold modeAsks
    rw [willing.settings.mode]
  rw [noteOn, unasked, Bool.and_false]
  rfl

theorem Willing.rest (willing : l.Willing) : (l.rest m).Willing := by
  have still := (willing.setBend (v := 0) (by decide) (by decide)).setAftertouch isLevel_zero
  exact rest_keeps m (fun _ _ h => h.controller) still

theorem Willing.dropSustained (willing : l.Willing) : l.dropSustained.Willing :=
  ⟨willing.settings, willing.gates, willing.orderly.step .dropSustained, willing.sostenuto_up,
    fun _ mem => absurd mem (List.not_mem_nil)⟩

theorem Willing.releaseLifted (willing : l.Willing) (normal : m.Normal) (wasDown : Bool)
    (draws : KeyStream) : (l.releaseLifted m wasDown draws).layer.Willing :=
  releaseLifted_keeps m (fun _ _ _ _ h => h.noteOff normal) wasDown draws willing
    willing.dropSustained

/-- No cue that a message brings changes the mind of a layer. -/
theorem Willing.answer (willing : l.Willing) {o : Occasion} (normal : o.memory.Normal) {cue : Cue}
    (played : cue.IsPlayed) (draws : KeyStream) : (cue.answer o draws l).layer.Willing := by
  cases cue with
  | noteOn n v =>
      rw [Cue.answer, willing.switchKeys_eq, willing.noteOn_eq]
      exact willing
  | noteOff n v => exact willing.noteOff normal
  | controller c v => exact willing.controller.releaseLifted normal _ draws
  | rest => exact willing.rest.releaseLifted normal _ draws
  | bend v => exact willing.setBend played.1 played.2
  | aftertouch v => exact willing.setAftertouch played
  | polyAftertouch n v => exact willing
  | tempo s => exact absurd played id
  | startOver => exact absurd played id

end Layer

end Voicing
