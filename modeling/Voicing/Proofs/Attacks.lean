import Voicing.Proofs.Followers

/-!
When a note-on makes a layer sound.

A layer attacks on a note-on if its settings admit the note and the draw, its mode asks for
the note, the turn is its own and no gate is closed. The gates hang on what has happened and on
the few settings that they follow, and on nothing that the layer has done: layers that share
these settings share their gates, however far their turns drift apart.

* `Engine.attacksOf_step`: only an event that strikes a note makes layers attack.
* `Cue.bare_answer`: what a cue makes of the gates, it makes of the bare layer.
* `Engine.Abreast.run`: so layers that are abreast, in one engine or in two, stay abreast.
-/

namespace Voicing

/-- The settings that the gates follow, with all others left out. -/
def Settings.bare (s : Settings) : Settings where
  conditions := s.conditions
  bends := s.bends
  aftertouches := s.aftertouches
  tempi := s.tempi
  keyswitches := s.keyswitches
  keyswitch := s.keyswitch
  previousKey := s.previousKey

/-! ### Bare layers -/

namespace Layer

variable (l : Layer) (m : Memory) (n : Note) (v r : Single)

/-- The layer with nothing left but its gates, as they are on its own turn, and the settings
that they follow. -/
def bare : Layer := { initial l.settings.bare with gates := l.gatesOnTurn }

variable {l} in
theorem bare_eq_bare {k : Layer} (settings : k.settings = l.settings)
    (gates : k.gatesOnTurn = l.gatesOnTurn) : k.bare = l.bare := by
  unfold bare
  rw [settings, gates]

theorem bare_noteOn : (l.noteOn m n v r).1.bare = l.bare :=
  bare_eq_bare (congrArg Hold.settings (l.hold_noteOn m n v r)) (l.gatesOnTurn_noteOn m n v r)

theorem bare_noteOff : (l.noteOff m n v r).1.bare = l.bare :=
  bare_eq_bare (l.noteOff_fields m n v r).1 (l.gatesOnTurn_noteOff m n v r)

/-- What an event makes of the gates, it makes of the bare layer. -/
theorem bare_step (event : Event) : (l.step event).1.bare = (l.bare.step event).1.bare := by
  unfold bare
  rw [settings_step, settings_step, gatesOnTurn_step, gatesOnTurn_step]
  cases event <;> rfl

theorem bare_run (events : List Event) : (l.run events).bare = (l.bare.run events).bare := by
  induction events generalizing l with
  | nil => rfl
  | cons event events ih =>
      rw [run_cons, run_cons, ih, bare_step, ← ih]

theorem bare_rest : (l.rest m).bare = (l.bare.rest m).bare := by
  rw [rest_eq_run, rest_eq_run, bare_run]

theorem bare_releaseLifted (wasDown : Bool) (draws : KeyStream) :
    (l.releaseLifted m wasDown draws).layer.bare = l.bare :=
  releaseLifted_keeps (P := fun k => k.bare = l.bare) m
    (fun k n v r same => (k.bare_noteOff m n v r).trans same) wasDown draws rfl rfl

/-! ### Attacks -/

/-- Whether a note-on makes the layer sound. -/
def attacks (o : Occasion) (n : Note) (v : Single) (l : Layer) : Bool :=
  ((l.switchKeys n o.previous).noteOn o.memory n v o.draw).2

/-- A layer attacks if it admits the note, its mode asks for it, the turn is its own and no
gate is closed. -/
theorem attacks_eq (o : Occasion) :
    l.attacks o n v =
      (l.admits o.memory n v o.draw && l.modeAsks o.memory &&
        ((l.bare.switchKeys n o.previous).gates.areOpen && l.isOwnTurn)) := by
  have admits : (l.switchKeys n o.previous).admits o.memory n v o.draw =
      l.admits o.memory n v o.draw := rfl
  have asks : (l.switchKeys n o.previous).modeAsks o.memory = l.modeAsks o.memory := rfl
  have ready := (l.switchKeys n o.previous).isReady_takeTurn
  unfold attacks noteOn
  rw [admits, asks]
  cases l.admits o.memory n v o.draw && l.modeAsks o.memory with
  | true => exact ready
  | false => rfl

variable {l m}

/-- A layer in a round of one turn always has its own. -/
theorem isOwnTurn_of_single (length : l.settings.sequenceLength = 1)
    (position : l.settings.sequencePosition = 1) : l.isOwnTurn = true :=
  Settings.owns_of_single length position l.turns

theorem kind_of_mem_reportIf {kind : TriggerKind} {number : UInt16} {value : Single} {sounds : Bool}
    {report : Report} (mem : report ∈ reportIf kind number value sounds) : report.kind = kind := by
  rw [eq_of_mem_reportIf mem]

/-- What is decided again can only be released. -/
theorem kind_of_mem_redecide {rs : List Release} {draws : KeyStream} {report : Report}
    (mem : report ∈ (l.redecide m rs draws).reports) : report.kind = .release := by
  induction rs generalizing draws l with
  | nil => exact absurd mem List.not_mem_nil
  | cons r rs ih =>
      rcases List.mem_append.mp mem with now | later
      · exact kind_of_mem_reportIf now
      · exact ih later

theorem kind_of_mem_releaseLifted {wasDown : Bool} {draws : KeyStream} {report : Report}
    (mem : report ∈ (l.releaseLifted m wasDown draws).reports) : report.kind = .release := by
  unfold releaseLifted at mem
  split at mem
  · exact kind_of_mem_redecide mem
  · exact absurd mem List.not_mem_nil

end Layer

/-- A report of an attack. -/
def Report.isAttack (r : Report) : Bool := r.kind == .attack

theorem filter_isAttack_of_kind {kind : TriggerKind} (other : kind ≠ .attack)
    {reports : List Report} (all : ∀ r ∈ reports, r.kind = kind) :
    reports.filter Report.isAttack = [] := by
  rw [List.filter_eq_nil_iff]
  intro r mem attack
  exact other ((all r mem).symm.trans (eq_of_beq attack))

namespace Cue

variable (o : Occasion) (cue : Cue) (draws : KeyStream) (l : Layer)

/-- Only a note-on makes a layer attack. -/
theorem attacks_answer :
    (cue.answer o draws l).reports.filter Report.isAttack =
      match cue with
      | .noteOn n v => Layer.reportIf .attack n.toUInt16 v (l.attacks o n v)
      | _ => [] := by
  have release : TriggerKind.release ≠ .attack := by decide
  cases cue with
  | noteOn n v =>
      refine List.filter_eq_self.mpr ?_
      intro report mem
      exact beq_iff_eq.mpr (Layer.kind_of_mem_reportIf mem)
  | noteOff n v => exact filter_isAttack_of_kind release fun _ => Layer.kind_of_mem_reportIf
  | controller c v =>
      have own (sounds : Bool) :
          (Layer.reportIf .controller c v sounds).filter Report.isAttack = [] :=
        filter_isAttack_of_kind (by decide) fun _ => Layer.kind_of_mem_reportIf
      have lifted (k : Layer) :
          (k.releaseLifted o.memory l.sustainDown draws).reports.filter Report.isAttack = [] :=
        filter_isAttack_of_kind release fun _ => Layer.kind_of_mem_releaseLifted
      simp only [answer, Layer.answerController, List.filter_append, own, lifted, List.append_nil]
  | rest => exact filter_isAttack_of_kind release fun _ => Layer.kind_of_mem_releaseLifted
  | _ => rfl

/-- What a cue makes of the gates, it makes of the bare layer, whatever is drawn. -/
theorem bare_answer (draw : Single) (others : KeyStream) :
    (cue.answer o draws l).layer.bare =
      (cue.answer { o with draw := draw } others l.bare).layer.bare := by
  cases cue with
  | noteOn n v =>
      refine (Layer.bare_noteOn _ _ _ _ _).trans ?_
      exact (l.bare_step (.switchKeys n o.previous)).trans (Layer.bare_noteOn _ _ _ _ _).symm
  | noteOff n v =>
      exact (l.bare_noteOff o.memory n v o.draw).trans (l.bare.bare_noteOff o.memory n v draw).symm
  | controller c v =>
      refine (Layer.bare_releaseLifted _ _ _ _).trans ?_
      refine (l.bare_step (.controller o.memory c v)).trans ?_
      exact (Layer.bare_releaseLifted _ _ _ _).symm
  | rest =>
      have here := (l.rest o.memory).bare_releaseLifted o.memory l.sustainDown draws
      have there := (l.bare.rest o.memory).bare_releaseLifted o.memory l.bare.sustainDown others
      exact here.trans ((l.bare_rest o.memory).trans there.symm)
  | _ => rfl

end Cue

/-! ### In an engine -/

/-- The attacks among the reports of the layer at a place. -/
def attacksOf (i : Nat) (triggers : List Trigger) : List Report :=
  (reportsOf i triggers).filter Report.isAttack

namespace Engine

/-- The note that an event strikes, and its velocity: that of the note-on to which the event
comes down, if it does. -/
def struck? (e : Engine) (event : Event) : Option (Note × Single) :=
  match e.cues event with
  | [.noteOn n v] => some (n, v)
  | _ => none

/-- A layer stays at its place, with its settings. -/
theorem exists_layer_run (b : Bank) (draws : KeyStream) (events : List Event) {i : Nat}
    {s : Settings} (listed : b.layers[i]? = some s) :
    ∃ l, ((ofBank b draws).run events).1.layers[i]? = some l ∧ l.settings = s := by
  have settings := settings_run b draws events i
  rw [listed] at settings
  exact Option.map_eq_some_iff.mp settings

/-- What a layer reports if it attacks. -/
def attackOf (e : Engine) (n : Note) (v : Single) (l : Layer) : List Report :=
  Layer.reportIf .attack n.toUInt16 v (l.attacks (e.occasion (.noteOn n v)) n v)

theorem attacksOf_take (e : Engine) (cue : Cue) (i : Nat) :
    attacksOf i (e.take cue).2 =
      match cue with
      | .noteOn n v => (e.layers[i]?.map (e.attackOf n v)).getD []
      | _ => [] := by
  unfold attacksOf
  rw [reportsOf_take]
  cases at_place : e.layers[i]? with
  | none => cases cue <;> rfl
  | some l =>
      refine (Cue.attacks_answer _ cue _ l).trans ?_
      cases cue <;> rfl

/-- Only an event that strikes a note makes layers attack, each of them once at most. -/
theorem attacksOf_step (e : Engine) (event : Event) (i : Nat) :
    attacksOf i (e.step event).2 =
      ((e.struck? event).bind fun played =>
        e.layers[i]?.map (e.attackOf played.1 played.2)).getD [] := by
  rw [step_eq_follow]
  unfold struck?
  by_cases silent : event = .resetControllers
  · subst silent
    rfl
  · rw [if_neg silent]
    have few := fewCues_cues e event
    generalize e.cues event = cues at few
    cases few with
    | nothing => rfl
    | single cue =>
        rw [follow_singleton, attacksOf_take]
        cases cue <;> rfl
    | resetAll v =>
        rw [follow_cons, follow_singleton]
        unfold attacksOf
        rw [reportsOf_append, List.filter_append]
        have resting := attacksOf_take e .rest i
        have own := attacksOf_take (e.take .rest).1 (.controller .resetAll v) i
        unfold attacksOf at resting own
        rw [resting, own]
        rfl

theorem length_attacksOf_step_le (e : Engine) (event : Event) (i : Nat) :
    (attacksOf i (e.step event).2).length ≤ 1 := by
  rw [attacksOf_step]
  cases e.struck? event with
  | none => exact Nat.zero_le 1
  | some played =>
      cases e.layers[i]? with
      | none => exact Nat.zero_le 1
      | some l =>
          change (Layer.reportIf _ _ _ _).length ≤ 1
          unfold Layer.reportIf
          split <;> simp

/-- Two layers, each at a place of an engine, that share their gates and the settings that the
gates follow, while the engines have the same memory. -/
structure Abreast (i j : Nat) (e f : Engine) : Prop where
  memory : e.memory = f.memory
  channel : e.channel = f.channel
  bare : e.layers[i]?.map Layer.bare = f.layers[j]?.map Layer.bare

variable {i j : Nat} {e f : Engine}

/-- What a cue makes of the gates at a place hangs on the gates and the memory. -/
theorem bare_take (e : Engine) (cue : Cue) (i : Nat) (draw : Single) (others : KeyStream) :
    (e.take cue).1.layers[i]?.map Layer.bare =
      (e.layers[i]?.map Layer.bare).map fun k =>
        (cue.answer { e.occasion cue with draw := draw } others k).layer.bare := by
  rw [layer_take, Option.map_map, Option.map_map]
  congr 1
  funext l
  exact Cue.bare_answer _ cue _ l draw others

theorem Abreast.take (abreast : Abreast i j e f) (cue : Cue) :
    Abreast i j (e.take cue).1 (f.take cue).1 where
  memory := by rw [memory_take, memory_take, abreast.memory]
  channel := abreast.channel
  bare := by
    have occasion : { e.occasion cue with draw := f.draws.draw } = f.occasion cue := by
      unfold Engine.occasion
      rw [abreast.memory]
    rw [bare_take e cue i f.draws.draw f.draws, bare_take f cue j f.draws.draw f.draws, occasion,
      abreast.bare]
    rfl

theorem Abreast.follow (abreast : Abreast i j e f) (cues : List Cue) :
    Abreast i j (e.follow cues).1 (f.follow cues).1 := by
  induction cues generalizing e f with
  | nil => exact abreast
  | cons cue cues ih => exact ih (abreast.take cue)

theorem Abreast.cues (abreast : Abreast i j e f) : e.cues = f.cues :=
  cues_eq_of_channel abreast.channel

theorem Abreast.struck? (abreast : Abreast i j e f) : e.struck? = f.struck? := by
  funext event
  unfold Engine.struck?
  rw [abreast.cues]

/-- Layers that are abreast stay abreast. -/
theorem Abreast.run (abreast : Abreast i j e f) (events : List Event) :
    Abreast i j (e.run events).1 (f.run events).1 := by
  rw [run_fst_eq_follow, run_fst_eq_follow, abreast.cues]
  exact abreast.follow _

theorem Abreast.bare_eq (abreast : Abreast i j e f) {l w : Layer} (here : e.layers[i]? = some l)
    (there : f.layers[j]? = some w) : l.bare = w.bare := by
  have bare := abreast.bare
  rw [here, there] at bare
  exact Option.some.inj bare

/-- Of two layers that are abreast, and that have their turn together, the first attacks as the
second on the notes that it takes from it. -/
theorem Abreast.attacksOf_eq_ite (abreast : Abreast i j e f) {l w : Layer}
    (here : e.layers[i]? = some l) (there : f.layers[j]? = some w)
    (turn : l.isOwnTurn = w.isOwnTurn) {event : Event} {takes : Bool}
    (share : ∀ n v, f.struck? event = some (n, v) →
      (l.admits (f.memory.apply (.noteOn n v)) n v e.draws.draw &&
          l.modeAsks (f.memory.apply (.noteOn n v))) =
        (takes && (w.admits (f.memory.apply (.noteOn n v)) n v f.draws.draw &&
          w.modeAsks (f.memory.apply (.noteOn n v))))) :
    attacksOf i (e.step event).2 = if takes then attacksOf j (f.step event).2 else [] := by
  rw [attacksOf_step, attacksOf_step, abreast.struck?, here, there]
  cases played : f.struck? event with
  | none => simp only [Option.bind_none, Option.getD_none, ite_self]
  | some note =>
      have occasion : e.occasion (.noteOn note.1 note.2) =
          ⟨f.memory.apply (.noteOn note.1 note.2), f.memory.lastNote, e.draws.draw⟩ := by
        unfold Engine.occasion
        rw [abreast.memory]
        rfl
      simp only [Option.bind_some, Option.map_some, Option.getD_some]
      unfold attackOf
      rw [occasion, Layer.attacks_eq, Layer.attacks_eq, abreast.bare_eq here there, turn,
        share _ _ played]
      cases takes with
      | true => rw [Bool.true_and]; rfl
      | false => rfl

theorem abreast_ofBank {b c : Bank} (channel : b.channel = c.channel) (draws others : KeyStream)
    (same : b.layers[i]?.map Settings.bare = c.layers[j]?.map Settings.bare) :
    Abreast i j (ofBank b draws) (ofBank c others) where
  memory := rfl
  channel := by simp only [ofBank, channel]
  bare := by
    have start (s : Settings) : (Layer.initial s).bare = (Layer.initial s.bare).bare := rfl
    have settings := congrArg (Option.map fun s => (Layer.initial s).bare) same
    simpa [ofBank, Function.comp_def, ← start] using settings

end Engine

end Voicing
