import Voicing.Proofs.Followers
import Voicing.Proofs.Moments

/-!
Layers that take turns.

The layers of a rotation have the same settings but for their names and turns. Each counts
the turns for itself, has its own pedals and hears the releases that its own pedals held
back; all the same they are one layer between them, and every report of that layer falls to
the one of them whose turn it is.

* `Layer.shared_step`: what a layer of a rotation decides, it decides as it would alone, and
  sounds if the turn is its own.
* `Cue.onTurn_moments`: so its reports on a cue are those of its own turns.
* `Engine.Joins.step`: this is kept by every event, in any engine.
* `rotation_sounds_as_one`: event by event the layers of a rotation together report what a
  single layer reports that takes every turn, and they stay in step with it.
-/

namespace Voicing

namespace Settings

/-- The settings of a layer that takes every turn. -/
def single (s : Settings) : Settings := { s with sequenceLength := 1, sequencePosition := 1 }

/-- What the settings of a layer say, whatever its name and its turn. -/
def solo (s : Settings) : Settings := { s.single with name := none }

/-- The settings with a name of their own and one of the turns, counted from zero. -/
def inTurn (s : Settings) (name : Option String) (k : Nat) : Settings :=
  { s with name := name, sequencePosition := .ofNat (k + 1) }

variable {s : Settings}

/-- In a round of several turns, every layer has the one at its position. -/
theorem owns_iff {length k : Nat} (pos : 0 < length) (round : s.sequenceLength.toNat = length)
    (position : s.sequencePosition.toNat = k + 1) {turn : UInt64} :
    s.owns turn = true ↔ turn.toNat % length = k := by
  have same : s.roundLength = length := by
    rw [roundLength, round, Nat.max_eq_left pos]
  rw [owns, same, position, beq_iff_eq, Nat.add_right_cancel_iff]

end Settings

/-- A report, and the turn that is taken for it. -/
def Moment.onTurn (s : Moment) : UInt64 × Report := (s.layer.turns - 1, s.report)

/-! ### Decisions -/

namespace Layer

/-- The layer as if every turn were its own. -/
def solo (l : Layer) : Layer := { l with settings := l.settings.solo, gates := l.gatesOnTurn }

/-- A decision of a layer with these settings, beside what it would decide alone: it comes to
the same, and sounds only on its own turns. -/
structure Shared (s : Settings) (decided solo : Layer × Bool) : Prop where
  layer : decided.1.solo = solo.1
  sounds : decided.2 = (solo.2 && s.owns (solo.1.turns - 1))

variable (l : Layer) (m : Memory) (n : Note) (v r : Single) (c : Controller)

@[simp] theorem turns_solo : l.solo.turns = l.turns := rfl

@[simp] theorem sustainDown_solo : l.solo.sustainDown = l.sustainDown := rfl

theorem isOwnTurn_solo : l.solo.isOwnTurn = true :=
  Settings.owns_of_single (s := l.settings.solo) rfl rfl l.turns

theorem solo_takeTurn : l.takeTurn.solo = l.solo.takeTurn := by
  unfold takeTurn
  rw [isOwnTurn_solo]
  rfl

theorem shared_sound : Shared l.settings l.sound l.solo.sound := by
  refine ⟨l.solo_takeTurn, ?_⟩
  have turn : l.solo.takeTurn.turns - 1 = l.turns := UInt64.add_sub_cancel _ _
  change l.takeTurn.isReady =
    (l.solo.takeTurn.isReady && l.settings.owns (l.solo.takeTurn.turns - 1))
  rw [turn, isReady_takeTurn, isReady_takeTurn, isOwnTurn_solo, Bool.and_true]
  rfl

theorem shared_noteOn : Shared l.settings (l.noteOn m n v r) (l.solo.noteOn m n v r) := by
  have asked : (l.solo.admits m n v r && l.solo.modeAsks m) =
      (l.admits m n v r && l.modeAsks m) := rfl
  unfold noteOn
  rw [asked]
  split
  · exact l.shared_sound
  · exact ⟨rfl, rfl⟩

theorem shared_releaseUnderPedals :
    Shared l.settings (l.releaseUnderPedals m n) (l.solo.releaseUnderPedals m n) := by
  -- Whether a caught note is let go before makes no difference.
  have waits (k : Layer) (same : k.settings = l.settings) (release : Release) :
      Shared l.settings
        (if k.sustainDown then ({ k with sustained := k.sustained.push release }, false)
          else k.sound)
        (if k.solo.sustainDown then ({ k.solo with sustained := k.sustained.push release }, false)
          else k.solo.sound) := by
    rw [sustainDown_solo, ← same]
    split
    · exact ⟨rfl, rfl⟩
    · exact k.shared_sound
  have caught : l.solo.isCaught n = l.isCaught n := rfl
  have holds : l.solo.caught.holds n = l.caught.holds n := rfl
  unfold releaseUnderPedals
  rw [caught, holds]
  split
  · exact ⟨rfl, rfl⟩
  · cases l.caught.holds n with
    | true => exact waits { l with caught := l.caught.remove n } rfl ⟨n, m.velocity n⟩
    | false => exact waits l rfl ⟨n, m.velocity n⟩

theorem shared_noteOff : Shared l.settings (l.noteOff m n v r) (l.solo.noteOff m n v r) := by
  have admits : l.solo.admits m n v r = l.admits m n v r := rfl
  have mode : l.solo.settings.mode = l.settings.mode := rfl
  unfold noteOff
  rw [admits, mode]
  split
  · cases l.settings.mode with
    | releaseKey => exact l.shared_sound
    | release => exact l.shared_releaseUnderPedals m n
    | _ => exact ⟨rfl, rfl⟩
  · exact ⟨rfl, rfl⟩

theorem solo_moveSustain : (l.moveSustain c v).solo = l.solo.moveSustain c v := by
  unfold moveSustain
  change _ = if c = l.settings.sustain.controller then _ else _
  split <;> rfl

theorem solo_moveSostenuto : (l.moveSostenuto m c v).solo = l.solo.moveSostenuto m c v := by
  unfold moveSostenuto
  change _ = if c = l.settings.sostenuto.controller then _ else _
  split <;> rfl

theorem shared_controller :
    Shared l.settings (l.controller m c v) (l.solo.controller m c v) := by
  have moved : (((l.moveSustain c v).moveSostenuto m c v).moveGate c v).solo =
      ((l.solo.moveSustain c v).moveSostenuto m c v).moveGate c v := by
    rw [← solo_moveSustain, ← solo_moveSostenuto]
    rfl
  have settings : (((l.moveSustain c v).moveSostenuto m c v).moveGate c v).settings =
      l.settings := (l.movePedals_fields m v c).2
  unfold controller
  rw [← moved, ← settings]
  generalize ((l.moveSustain c v).moveSostenuto m c v).moveGate c v = k
  have triggers : k.solo.isTrigger c v = k.isTrigger c v := rfl
  dsimp only
  rw [triggers]
  split
  · exact k.shared_sound
  · exact ⟨rfl, rfl⟩

/-- Whatever a layer of a rotation is told, it decides as it would alone, and it sounds if
the turn is its own. -/
theorem shared_step (event : Event) : Shared l.settings (l.step event) (l.solo.step event) := by
  cases event with
  | noteOn m n v r => exact l.shared_noteOn m n v r
  | noteOff m n v r => exact l.shared_noteOff m n v r
  | controller m c v => exact l.shared_controller m v c
  | _ => exact ⟨rfl, rfl⟩

theorem solo_run (events : List Event) : (l.run events).solo = l.solo.run events := by
  induction events generalizing l with
  | nil => rfl
  | cons event events ih =>
      have step := (l.shared_step event).layer
      exact (ih (l.step event).1).trans (congrArg (Layer.run · events) step)

theorem solo_rest : (l.rest m).solo = l.solo.rest m := by
  rw [rest_eq_run, rest_eq_run, solo_run]

theorem solo_initial (s : Settings) : (initial s).solo = initial s.solo := rfl

/-! ### Answers -/

variable {l m} {s : Settings}

theorem Shared.onTurn_momentIf {decided solo : Layer × Bool} (shared : Shared s decided solo)
    (kind : TriggerKind) (number : UInt16) (value : Single) :
    (momentIf m kind number value decided).map Moment.onTurn =
      ((momentIf m kind number value solo).map Moment.onTurn).filter (s.owns ·.1) := by
  have turns : decided.1.turns = solo.1.turns := by rw [← shared.layer, turns_solo]
  unfold momentIf reportIf
  rw [shared.sounds]
  cases solo.2 with
  | false => rfl
  | true => cases own : s.owns (solo.1.turns - 1) <;> simp [Moment.onTurn, own, turns]

theorem solo_redecide (rs : List Release) (draws : KeyStream) :
    (l.redecide m rs draws).layer.solo = (l.solo.redecide m rs draws).layer := by
  induction rs generalizing l draws with
  | nil => rfl
  | cons r rs ih =>
      have first := (l.shared_noteOff m r.note r.velocity draws.draw).layer
      exact (ih draws.next).trans (congrArg (fun k => (redecide m rs draws.next k).layer) first)

theorem onTurn_redecideMoments (rs : List Release) (draws : KeyStream) :
    (redecideMoments m rs draws l).map Moment.onTurn =
      ((redecideMoments m rs draws l.solo).map Moment.onTurn).filter (l.settings.owns ·.1) := by
  induction rs generalizing l draws with
  | nil => rfl
  | cons r rs ih =>
      have first := l.shared_noteOff m r.note r.velocity draws.draw
      have settings := (l.noteOff_fields m r.note r.velocity draws.draw).1
      simp only [redecideMoments, List.map_append, List.filter_append]
      rw [first.onTurn_momentIf, ih, first.layer, settings]

theorem solo_releaseLifted (wasDown : Bool) (draws : KeyStream) :
    (l.releaseLifted m wasDown draws).layer.solo =
      (l.solo.releaseLifted m wasDown draws).layer := by
  unfold releaseLifted
  rw [sustainDown_solo]
  split
  · exact solo_redecide (l := l.dropSustained) _ _
  · rfl

theorem onTurn_releaseLiftedMoments (wasDown : Bool) (draws : KeyStream) :
    (l.releaseLiftedMoments m draws wasDown).map Moment.onTurn =
      ((l.solo.releaseLiftedMoments m draws wasDown).map Moment.onTurn).filter
        (l.settings.owns ·.1) := by
  unfold releaseLiftedMoments
  rw [sustainDown_solo]
  split
  · exact onTurn_redecideMoments (l := l.dropSustained) _ _
  · rfl

end Layer

namespace Cue

variable (o : Occasion) (cue : Cue) (draws : KeyStream) (l : Layer)

/-- A layer of a rotation changes as it would alone. -/
theorem solo_answer : (cue.answer o draws l).layer.solo = (cue.answer o draws l.solo).layer := by
  cases cue with
  | noteOn n v => exact ((l.switchKeys n o.previous).shared_noteOn o.memory n v o.draw).layer
  | noteOff n v => exact (l.shared_noteOff o.memory n v o.draw).layer
  | controller c v =>
      have lifted := Layer.solo_releaseLifted (l := (l.controller o.memory c v).1) (m := o.memory)
        l.sustainDown draws
      rw [(l.shared_controller o.memory v c).layer] at lifted
      exact lifted
  | rest =>
      have lifted := Layer.solo_releaseLifted (l := l.rest o.memory) (m := o.memory) l.sustainDown
        draws
      rw [Layer.solo_rest] at lifted
      exact lifted
  | startOver => exact Layer.solo_initial _
  | _ => rfl

/-- The reports of a layer of a rotation are those that it would make alone on its own
turns. -/
theorem onTurn_moments :
    (cue.moments o draws l).map Moment.onTurn =
      ((cue.moments o draws l.solo).map Moment.onTurn).filter (l.settings.owns ·.1) := by
  cases cue with
  | noteOn n v =>
      have shared := (l.switchKeys n o.previous).shared_noteOn o.memory n v o.draw
      exact shared.onTurn_momentIf _ _ _
  | noteOff n v => exact (l.shared_noteOff o.memory n v o.draw).onTurn_momentIf _ _ _
  | controller c v =>
      have shared := l.shared_controller o.memory v c
      have settings := l.settings_controller o.memory v c
      have lifted := Layer.onTurn_releaseLiftedMoments (l := (l.controller o.memory c v).1)
        (m := o.memory) l.sustainDown draws
      rw [shared.layer, settings] at lifted
      simp only [moments, List.map_append, List.filter_append, shared.onTurn_momentIf, lifted]
      rfl
  | rest =>
      have lifted := Layer.onTurn_releaseLiftedMoments (l := l.rest o.memory) (m := o.memory)
        l.sustainDown draws
      rw [Layer.solo_rest, Layer.settings_rest] at lifted
      exact lifted
  | _ => rfl

end Cue

/-! ### Whatever is drawn -/

section Draws

variable {l : Layer} (accepts : l.settings.AcceptsDraws) (m : Memory) (draws others : KeyStream)
include accepts

theorem Layer.redecideMoments_draw (rs : List Release) :
    redecideMoments m rs draws l = redecideMoments m rs others l := by
  induction rs generalizing l draws others with
  | nil => rfl
  | cons r rs ih =>
      have decided := noteOff_draw accepts m r.note r.velocity draws others
      have kept : (l.noteOff m r.note r.velocity others.draw).1.settings.AcceptsDraws := by
        rw [(noteOff_fields l m r.note r.velocity others.draw).1]
        exact accepts
      simp only [redecideMoments, decided, ih kept draws.next others.next]

theorem Layer.releaseLiftedMoments_draw (wasDown : Bool) :
    l.releaseLiftedMoments m draws wasDown = l.releaseLiftedMoments m others wasDown := by
  unfold releaseLiftedMoments
  split
  · exact redecideMoments_draw (l := l.dropSustained) accepts m draws others _
  · rfl

/-- The moments at which a layer sounds that accepts every draw do not depend on the draws. -/
theorem Cue.moments_draw (o : Occasion) (cue : Cue) (shared other : KeyStream) :
    cue.moments { o with draw := shared.draw } draws l =
      cue.moments { o with draw := other.draw } others l := by
  cases cue with
  | noteOn n v =>
      have decided := Layer.noteOn_draw (l := l.switchKeys n o.previous) accepts o.memory n v shared
        other
      simp only [moments, decided]
  | noteOff n v =>
      have decided := Layer.noteOff_draw accepts o.memory n v shared other
      simp only [moments, decided]
  | controller c v =>
      have kept : (l.controller o.memory c v).1.settings.AcceptsDraws := by
        rwa [Layer.settings_controller]
      simp only [moments, Layer.releaseLiftedMoments_draw kept o.memory draws others]
  | rest =>
      have kept : (l.rest o.memory).settings.AcceptsDraws := by
        rwa [Layer.settings_rest]
      simp only [moments, Layer.releaseLiftedMoments_draw kept o.memory draws others]
  | _ => simp only [moments]

end Draws

/-! ### In an engine -/

namespace Engine

/-- A layer with these settings stands at a place of one engine; all there is in another is a
layer that takes every turn, and they differ in nothing else. -/
structure Joins (i : Nat) (s : Settings) (among alone : Engine) (l a : Layer) : Prop where
  memory : among.memory = alone.memory
  channel : among.channel = alone.channel
  among_layer : among.layers[i]? = some l
  alone_layers : alone.layers = [a]
  settings : l.settings = s
  same : l.solo = a.solo
  single : ∀ turn, a.settings.owns turn = true
  accepts : a.settings.AcceptsDraws

variable {i : Nat} {s : Settings} {among alone : Engine} {l a : Layer}

/-- What the layer of a rotation reports on a cue is what the single layer reports on the
turns that are its own. -/
theorem Joins.take (joins : Joins i s among alone l a) (cue : Cue) :
    (∃ l' a', Joins i s (among.take cue).1 (alone.take cue).1 l' a') ∧
      (among.momentsAt i cue).map Moment.onTurn =
        ((alone.momentsAt 0 cue).map Moment.onTurn).filter (s.owns ·.1) := by
  have occasion : among.occasion cue = { alone.occasion cue with draw := among.draws.draw } := by
    unfold Engine.occasion
    rw [joins.memory]
  have accepts : a.solo.settings.AcceptsDraws := joins.accepts
  refine ⟨⟨(among.answerOf cue i l).layer, (alone.answerOf cue 0 a).layer, ?_⟩, ?_⟩
  · have same : (among.answerOf cue i l).layer.solo = (alone.answerOf cue 0 a).layer.solo := by
      unfold answerOf
      rw [Cue.solo_answer, Cue.solo_answer, joins.same, occasion]
      exact congrArg Prod.fst (Layer.reply_answer accepts _ _ _ _ _ _)
    refine ⟨?_, joins.channel, ?_, (take_single joins.alone_layers cue).1, ?_, same, ?_, ?_⟩
    · rw [memory_take, memory_take, joins.memory]
    · rw [layer_take, joins.among_layer]
      rfl
    · rw [answerOf, Layer.settings_answer, joins.settings]
    · rw [answerOf, Layer.settings_answer]
      exact joins.single
    · rw [answerOf, Layer.settings_answer]
      exact joins.accepts
  · have own := Cue.onTurn_moments (among.occasion cue) cue (among.streamFor cue i) l
    have every := Cue.onTurn_moments (alone.occasion cue) cue (alone.streamFor cue 0) a
    rw [List.filter_eq_self.mpr fun r _ => joins.single r.1] at every
    have at_place : alone.layers[0]? = some a := by
      rw [joins.alone_layers]
      rfl
    have drawn := Cue.moments_draw accepts (among.streamFor cue i) (alone.streamFor cue 0)
      (alone.occasion cue) cue among.draws alone.draws
    rw [joins.same, joins.settings, occasion, drawn] at own
    unfold momentsAt
    rw [joins.among_layer, at_place, Option.map_some, Option.map_some, Option.getD_some,
      Option.getD_some, every, occasion]
    exact own

theorem Joins.follow (joins : Joins i s among alone l a) (cues : List Cue) :
    (∃ l' a', Joins i s (among.follow cues).1 (alone.follow cues).1 l' a') ∧
      (among.momentsAlong i cues).map Moment.onTurn =
        ((alone.momentsAlong 0 cues).map Moment.onTurn).filter (s.owns ·.1) := by
  induction cues generalizing among alone l a with
  | nil => exact ⟨⟨l, a, joins⟩, rfl⟩
  | cons cue cues ih =>
      obtain ⟨⟨l', a', taken⟩, now⟩ := joins.take cue
      obtain ⟨followed, later⟩ := ih taken
      refine ⟨followed, ?_⟩
      simp only [momentsAlong, List.map_append, List.filter_append, now, later]

theorem Joins.step (joins : Joins i s among alone l a) (event : Event) :
    (∃ l' a', Joins i s (among.step event).1 (alone.step event).1 l' a') ∧
      (among.moments i event).map Moment.onTurn =
        ((alone.moments 0 event).map Moment.onTurn).filter (s.owns ·.1) := by
  obtain ⟨followed, moments⟩ := joins.follow (among.cues event)
  unfold Engine.moments
  rw [step_fst, step_fst, ← cues_eq_of_channel joins.channel]
  refine ⟨followed, ?_⟩
  split
  · rfl
  · exact moments

theorem Joins.run (joins : Joins i s among alone l a) (events : List Event) :
    ∃ l' a', Joins i s (among.run events).1 (alone.run events).1 l' a' := by
  induction events generalizing among alone l a with
  | nil => exact ⟨l, a, joins⟩
  | cons event events ih =>
      obtain ⟨⟨l', a', stepped⟩, -⟩ := joins.step event
      exact ih stepped

/-- The two layers differ in their settings and in the sequence gate at most. -/
theorem Joins.in_step (joins : Joins i s among alone l a) :
    l.turns = a.turns ∧ l.sustainDown = a.sustainDown ∧ l.sostenutoDown = a.sostenutoDown ∧
      l.sustained = a.sustained ∧ l.caught = a.caught ∧ l.gatesOnTurn = a.gatesOnTurn := by
  obtain ⟨-, gates, turns, sustain, sostenuto, sustained, caught⟩ := Layer.mk.inj joins.same
  exact ⟨turns, sustain, sostenuto, sustained, caught, gates⟩

/-- In an engine of one layer all reports are that layer's. -/
theorem Joins.reports_alone (joins : Joins i s among alone l a) (event : Event) :
    (((alone.moments 0 event).map Moment.onTurn).map (·.2)) =
      (alone.step event).2.map (·.report) := by
  have mirrors : Mirrors 0 alone alone a := by
    refine ⟨rfl, rfl, ?_, joins.alone_layers, joins.accepts⟩
    rw [joins.alone_layers]
    rfl
  rw [← (mirrors.step event).2, ← reports_moments, List.map_map]
  rfl

theorem Joins.reports_among (joins : Joins i s among alone l a) (event : Event) :
    reportsOf i (among.step event).2 =
      (((alone.moments 0 event).map Moment.onTurn).filter (s.owns ·.1)).map (·.2) := by
  rw [← (joins.step event).2, ← reports_moments, List.map_map]
  rfl

end Engine

/-! ### All turns together -/

/-- Items that are grouped are the same items in another order, if none is in two groups. -/
theorem perm_flatMap_filter {α β : Type} (belongs : β → α → Bool)
    (exclusive : ∀ {x j k}, belongs j x = true → belongs k x = true → j = k) {keys : List β}
    (distinct : keys.Nodup) (items : List α) :
    (keys.flatMap fun k => items.filter (belongs k)).Perm
      (items.filter fun x => keys.any (belongs · x)) := by
  induction keys with
  | nil => simp
  | cons k ks ih =>
      obtain ⟨new, distinct⟩ := List.nodup_cons.mp distinct
      have own (x : α) :
          (belongs k x && (k :: ks).any (belongs · x)) = belongs k x := by
        cases here : belongs k x <;> simp [here]
      have other (x : α) :
          (!belongs k x && (k :: ks).any (belongs · x)) = ks.any (belongs · x) := by
        cases here : belongs k x with
        | false => simp [here]
        | true =>
            have elsewhere : ks.any (belongs · x) = false := by
              rw [List.any_eq_false]
              intro j mem there
              exact new (exclusive here there ▸ mem)
            simp [elsewhere]
      have split := List.filter_append_perm (belongs k)
        (items.filter fun x => (k :: ks).any (belongs · x))
      simp only [List.filter_filter, own, other] at split
      exact ((ih distinct).append_left _).trans split

/-- The place of the layer whose turn it is. -/
def turnOf (places : List Nat) (turn : UInt64) : Option Nat :=
  places[turn.toNat % places.length]?

/-- Layers of a bank that take turns. They have these settings, but each has its own name and
the turn of its place in the list; there are as many turns in a round as there are places. -/
structure Bank.Rotates (b : Bank) (s : Settings) (places : List Nat) : Prop where
  nonempty : places ≠ []
  length : s.sequenceLength.toNat = places.length
  member : ∀ k place, places[k]? = some place → ∃ name,
    b.layers[place]? = some (s.inTurn name k)

namespace Bank.Rotates

variable {b : Bank} {s : Settings} {places : List Nat} (rotates : b.Rotates s places)
include rotates

theorem pos : 0 < places.length := List.length_pos_iff.mpr rotates.nonempty

theorem position_inTurn {k place : Nat} (at_k : places[k]? = some place) (name : Option String) :
    (s.inTurn name k).sequencePosition.toNat = k + 1 := by
  have below : k < places.length := (List.getElem?_eq_some_iff.mp at_k).1
  have bound := s.sequenceLength.toNat_lt
  rw [rotates.length] at bound
  exact UInt32.toNat_ofNat_of_lt (Nat.lt_of_le_of_lt below bound)

/-- Every place has one turn. -/
theorem index_inj {j k place : Nat} (at_j : places[j]? = some place)
    (at_k : places[k]? = some place) : j = k := by
  obtain ⟨name_j, listed_j⟩ := rotates.member j place at_j
  obtain ⟨name_k, listed_k⟩ := rotates.member k place at_k
  have same : s.inTurn name_j j = s.inTurn name_k k :=
    Option.some.inj (listed_j.symm.trans listed_k)
  have position_j := rotates.position_inTurn at_j name_j
  rw [same, rotates.position_inTurn at_k] at position_j
  omega

theorem nodup : places.Nodup := by
  refine List.pairwise_iff_getElem.mpr ?_
  intro j k below_j below_k lt same
  have at_k : places[k]? = some places[j] := same ▸ List.getElem?_eq_getElem below_k
  exact Nat.ne_of_lt lt (rotates.index_inj (List.getElem?_eq_getElem below_j) at_k)

/-- A turn is a layer's own if it is the turn of its place. -/
theorem owns_inTurn {k place : Nat} (at_k : places[k]? = some place) (name : Option String)
    (turn : UInt64) : (s.inTurn name k).owns turn = (turnOf places turn == some place) := by
  rw [Bool.eq_iff_iff, beq_iff_eq,
    Settings.owns_iff (s := s.inTurn name k) rotates.pos rotates.length
      (rotates.position_inTurn at_k name)]
  constructor
  · intro own
    rw [turnOf, own, at_k]
  · intro own
    exact rotates.index_inj own at_k

theorem turnOf_mem (turn : UInt64) : ∃ place ∈ places, turnOf places turn = some place := by
  have below := Nat.mod_lt turn.toNat rotates.pos
  exact ⟨_, List.getElem_mem below, List.getElem?_eq_getElem below⟩

/-- Where every place makes the reports of its turns, all reports are made. -/
theorem perm_reports {sounded : List (UInt64 × Report)} {triggers : List Trigger}
    (shares : ∀ place ∈ places, reportsOf place triggers =
      (sounded.filter (turnOf places ·.1 == some place)).map (·.2)) :
    ((triggers.filter (places.contains ·.layer)).map (·.report)).Perm (sounded.map (·.2)) := by
  have byPlace := perm_flatMap_filter (fun place (t : Trigger) => t.layer == place)
    (fun here there => (eq_of_beq here).symm.trans (eq_of_beq there)) rotates.nodup triggers
  have byTurn := perm_flatMap_filter
    (fun place (r : UInt64 × Report) => turnOf places r.1 == some place)
    (fun here there => Option.some.inj ((eq_of_beq here).symm.trans (eq_of_beq there)))
    rotates.nodup sounded
  have all : sounded.filter (fun r => places.any (turnOf places r.1 == some ·)) = sounded := by
    refine List.filter_eq_self.mpr ?_
    intro r _
    obtain ⟨place, mem, turn⟩ := rotates.turnOf_mem r.1
    exact List.any_eq_true.mpr ⟨place, mem, beq_iff_eq.mpr turn⟩
  have reports : places.flatMap (reportsOf · triggers) =
      places.flatMap fun place =>
        (sounded.filter (turnOf places ·.1 == some place)).map (·.2) := by
    rw [List.flatMap_def, List.flatMap_def, List.map_congr_left shares]
  have among := byPlace.map (·.report)
  have alone := byTurn.map (·.2)
  rw [List.map_flatMap] at among alone
  rw [all, ← reports] at alone
  simp only [← List.contains_eq_any_beq] at among
  exact among.symm.trans alone

end Bank.Rotates

/-- The layers of a rotation are one layer. Together they report on every event what a single
layer reports alone that has the same settings and takes every turn, each report coming from
the one layer whose turn it is; and after every run they have counted the same turns, have
the same pedals, the same releases waiting, and the same gates but for the one that opens on
their own turns. -/
theorem rotation_sounds_as_one (b : Bank) (s : Settings) (places : List Nat)
    (rotates : b.Rotates s places) (accepts : s.AcceptsDraws) (seed : Option UInt64)
    (draws others : KeyStream) (before : List Engine.Event) (event : Engine.Event) :
    let among := ((Engine.ofBank b draws).run before).1
    let alone := ((Engine.ofBank ⟨b.channel, seed, [s.single]⟩ others).run before).1
    let sounded := (alone.moments 0 event).map Moment.onTurn
    (((among.step event).2.filter (places.contains ·.layer)).map (·.report)).Perm
        ((alone.step event).2.map (·.report)) ∧
      sounded.map (·.2) = (alone.step event).2.map (·.report) ∧
      (∀ place ∈ places, reportsOf place (among.step event).2 =
        (sounded.filter (turnOf places ·.1 == some place)).map (·.2)) ∧
      among.memory = alone.memory ∧
      ∃ a, alone.layers = [a] ∧ ∀ place ∈ places, ∃ l, among.layers[place]? = some l ∧
        l.turns = a.turns ∧ l.sustainDown = a.sustainDown ∧ l.sostenutoDown = a.sostenutoDown ∧
        l.sustained = a.sustained ∧ l.caught = a.caught ∧ l.gatesOnTurn = a.gatesOnTurn := by
  intro among alone sounded
  have joins (k place : Nat) (at_k : places[k]? = some place) :
      ∃ name l a, Engine.Joins place (s.inTurn name k) among alone l a := by
    obtain ⟨name, listed⟩ := rotates.member k place at_k
    have start : Engine.Joins place (s.inTurn name k) (Engine.ofBank b draws)
        (Engine.ofBank ⟨b.channel, seed, [s.single]⟩ others) (.initial (s.inTurn name k))
        (.initial s.single) := by
      refine ⟨rfl, rfl, ?_, rfl, rfl, rfl, Settings.owns_of_single rfl rfl, accepts⟩
      simp [Engine.ofBank, listed]
    exact ⟨name, start.run before⟩
  have shares : ∀ place ∈ places, reportsOf place (among.step event).2 =
      (sounded.filter (turnOf places ·.1 == some place)).map (·.2) := by
    intro place mem
    obtain ⟨k, at_k⟩ := List.mem_iff_getElem?.mp mem
    obtain ⟨name, l, a, joined⟩ := joins k place at_k
    rw [joined.reports_among event]
    simp only [rotates.owns_inTurn at_k name]
    rfl
  have pos := rotates.pos
  obtain ⟨name, l, a, joined⟩ := joins 0 places[0] (List.getElem?_eq_getElem pos)
  have reports := joined.reports_alone event
  refine ⟨?_, reports, shares, joined.memory, a, joined.alone_layers, ?_⟩
  · rw [← reports]
    exact rotates.perm_reports shares
  · intro place mem
    obtain ⟨k, at_k⟩ := List.mem_iff_getElem?.mp mem
    obtain ⟨name, l, a', other⟩ := joins k place at_k
    have same : a' = a :=
      List.head_eq_of_cons_eq (other.alone_layers.symm.trans joined.alone_layers)
    rw [same] at other
    exact ⟨l, other.among_layer, other.in_step⟩

/-- A layer that minds the pedals on its releases, in a round of two turns. -/
def antiphon : Settings where
  mode := .release
  sequenceLength := 2

/-- Two layers answer each other, the second of them listed first, and a third one sounds on
every attack. -/
def choir : Bank where
  layers := [antiphon.inTurn (some "second") 1, {}, antiphon.inTurn (some "first") 0]

theorem rotates_choir : choir.Rotates antiphon [2, 0] := by
  refine ⟨List.cons_ne_nil _ _, rfl, ?_⟩
  intro k place at_k
  match k with
  | 0 =>
      cases at_k
      exact ⟨some "first", rfl⟩
  | 1 =>
      cases at_k
      exact ⟨some "second", rfl⟩
  | k + 2 => exact absurd at_k (by simp)

/-- Two notes end under the sustain pedal. -/
def cadence : List Engine.Event := [.controller .sustain 1, .noteOff 60 0, .noteOff 64 0]

/-- When the pedal is lifted, the two layers share the releases, and not in the order in
which the notes ended. -/
theorem lifted_choir_sounds_as_one :
    let among := ((Engine.ofBank choir (.ofSeed 1)).run cadence).1
    let alone := ((Engine.ofBank ⟨none, some 7, [antiphon.single]⟩ (.ofSeed 2)).run cadence).1
    let triggers := (among.step (.controller .sustain 0)).2
    let releases : List Report := [⟨.release, 60, 0⟩, ⟨.release, 64, 0⟩]
    choir.Rotates antiphon [2, 0] ∧ antiphon.AcceptsDraws ∧
      (alone.step (.controller .sustain 0)).2.map (·.report) = releases ∧
      reportsOf 2 triggers = [⟨.release, 60, 0⟩] ∧ reportsOf 0 triggers = [⟨.release, 64, 0⟩] ∧
      ((triggers.filter ([2, 0].contains ·.layer)).map (·.report)).Perm releases := by
  have accepts : antiphon.AcceptsDraws := Settings.acceptsDraws_of_whole rfl
  obtain ⟨perm, reports, shares, -, -⟩ := rotation_sounds_as_one choir antiphon [2, 0]
    rotates_choir accepts (some 7) (.ofSeed 1) (.ofSeed 2) cadence (.controller .sustain 0)
  have sounded : (((Engine.ofBank ⟨choir.channel, some 7, [antiphon.single]⟩ (.ofSeed 2)).run
      cadence).1.moments 0 (.controller .sustain 0)).map Moment.onTurn =
      [(0, ⟨.release, 60, 0⟩), (1, ⟨.release, 64, 0⟩)] := by
    decide +kernel
  rw [sounded] at reports shares
  rw [← reports] at perm
  exact ⟨rotates_choir, accepts, reports.symm, shares 2 (by decide), shares 0 (by decide), perm⟩

end Voicing
