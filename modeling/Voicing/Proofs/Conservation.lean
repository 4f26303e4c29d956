import Voicing.Proofs.Willing

/-!
No release is lost, and none sounds twice.

A release that a willing layer hears sounds at once or waits until the sustain pedal is
lifted, by its controller or by the one that resets all others. For every note, the
releases reported and those that still wait are together the releases heard.

* `Layer.Willing.answer_conserves`: the account of one cue.
* `Engine.Accepting.rawMessage`: the account of one raw message, which may be two cues.
* `releases_conserved`: the account of a run.
-/

namespace Voicing

/-- A report of the release of a note. -/
def Report.isReleaseOf (n : Note) (r : Report) : Bool :=
  r.kind == .release && r.number == n.toUInt16

/-- A cue that lets go of a note. -/
def Cue.letsGo (n : Note) : Cue → Bool
  | .noteOff k _ => k == n
  | _ => false

/-- The note that a message lets go. A note-on without velocity is a note-off. -/
def Midi.Message.released? : Midi.Message → Option Note
  | .noteOff key _ => some key.note
  | .noteOn key velocity => if velocity = 0 then some key.note else none
  | _ => none

/-- The note that a raw message lets go, if its channel is listened to. -/
def Engine.released? (e : Engine) (bytes : List UInt8) : Option Note :=
  (Midi.ChannelMessage.ofBytes? bytes).bind fun m =>
    if e.hears m.channel then m.message.released? else none

namespace Layer

/-- How many releases of a note wait for the sustain pedal. -/
def pending (l : Layer) (n : Note) : Nat := l.sustained.toList.countP (·.note == n)

/-- There is room for the release that a cue makes the layer put aside, if there is one. -/
def HasRoom (o : Occasion) (cue : Cue) (l : Layer) : Prop :=
  ∀ n v, cue = .noteOff n v → l.defers o.memory n v o.draw = true →
    l.sustained.size < HeldReleases.capacity

/-! ### Reports of releases -/

variable {l : Layer} {m : Memory} {n k : Note} {v r : Single}

theorem countP_reportIf_release (sounds : Bool) :
    (reportIf .release k.toUInt16 v sounds).countP (Report.isReleaseOf n) =
      if sounds && k == n then 1 else 0 := by
  have number : (k.toUInt16 == n.toUInt16) = (k == n) := by
    rw [Bool.eq_iff_iff, beq_iff_eq, beq_iff_eq]
    exact UInt8.toUInt16_inj
  cases sounds with
  | true =>
      simp only [reportIf, if_true, List.countP_singleton, Report.isReleaseOf, number,
        Bool.true_and]
      rfl
  | false => rfl

theorem countP_reportIf_of_ne (kind : TriggerKind) (other : kind ≠ .release) (number : UInt16)
    (sounds : Bool) : (reportIf kind number v sounds).countP (Report.isReleaseOf n) = 0 := by
  cases sounds with
  | true => simp [reportIf, Report.isReleaseOf, other]
  | false => rfl

/-! ### The account of one cue -/

/-- A willing layer reports or puts aside what it is told to release. -/
theorem Willing.noteOff_conserves (willing : l.Willing) (normal : m.Normal) (level : IsLevel v)
    (low : 0 ≤ r) (high : r < 1) (inside : l.settings.keys.includes n = true)
    (room : l.defers m k v r = true → l.sustained.size < HeldReleases.capacity) :
    (reportIf .release k.toUInt16 v (l.noteOff m k v r).2).countP (Report.isReleaseOf n) +
        (l.noteOff m k v r).1.pending n =
      l.pending n + if k == n then 1 else 0 := by
  rw [countP_reportIf_release]
  cases own : l.settings.keys.includes k with
  | true =>
      have admitted := willing.admits normal own level low high
      rw [willing.noteOff_eq normal own level low high]
      cases down : l.sustainDown with
      | true =>
          have free : l.isCaught k = false := by
            rw [isCaught, willing.sostenuto_up, Bool.and_false]
          have waits : l.defers m k v r = true := by
            rw [defers, admitted, willing.settings.mode, free, down]
            rfl
          have appended : (l.sustained.push ⟨k, m.velocity k⟩).toList =
              l.sustained.toList ++ [⟨k, m.velocity k⟩] := by
            rw [HeldReleases.toList_push, if_pos (room waits)]
          simp [pending, appended, List.countP_singleton]
      | false =>
          simp only [Bool.false_eq_true, if_false, Bool.true_and]
          exact Nat.add_comm _ _
  | false =>
      -- The note is none of the layer's keys, and so it is not the one that is counted.
      have refused : l.admits m k v r = false := by
        cases admitted : l.admits m k v r with
        | true => rw [inside_of_admits admitted] at own; exact own
        | false => rfl
      have other : (k == n) = false := by
        rw [beq_eq_false_iff_ne]
        rintro rfl
        rw [inside] at own
        exact absurd own (by decide)
      rw [Layer.noteOff, refused, other]
      simp

/-- Decided again under a lifted pedal, every release sounds, once. -/
theorem Willing.redecide_reports (willing : l.Willing) (normal : m.Normal)
    (up : l.sustainDown = false) {rs : List Release}
    (own : ∀ r ∈ rs, l.settings.keys.includes r.note = true ∧ IsLevel r.velocity)
    (draws : KeyStream) :
    (l.redecide m rs draws).reports.countP (Report.isReleaseOf n) = rs.countP (·.note == n) := by
  induction rs generalizing draws l with
  | nil => rfl
  | cons r rs ih =>
      obtain ⟨inside, level⟩ := own r List.mem_cons_self
      obtain ⟨low, high⟩ := draws.draw_mem
      have sounds := willing.noteOff_eq normal inside level low high
      rw [up] at sounds
      have others : ∀ s ∈ rs, l.settings.keys.includes s.note = true ∧ IsLevel s.velocity :=
        fun s mem => own s (List.mem_cons_of_mem r mem)
      have later := ih willing.takeTurn up others draws.next
      rw [redecide, sounds]
      simp only [Bool.false_eq_true, if_false, List.countP_append, countP_reportIf_release, later,
        Bool.true_and, List.countP_cons]
      exact Nat.add_comm _ _

/-- Where pedals have moved and nothing else, all that waited is reported or still waits. -/
theorem Willing.releaseLifted_conserves {moved : Layer} (willing : moved.Willing)
    (same : moved.sustained = l.sustained) (normal : m.Normal) (wasDown : Bool)
    (draws : KeyStream) :
    (moved.releaseLifted m wasDown draws).reports.countP (Report.isReleaseOf n) +
        (moved.releaseLifted m wasDown draws).layer.pending n =
      l.pending n := by
  have waits := sustained_releaseLifted moved m draws wasDown
  unfold pending
  rw [waits, ← same]
  cases lifted : wasDown && !moved.sustainDown with
  | true =>
      have up : moved.sustainDown = false := by
        simp only [Bool.and_eq_true, Bool.not_eq_true'] at lifted
        exact lifted.2
      rw [Layer.releaseLifted, lifted, if_pos rfl, if_pos rfl]
      exact willing.dropSustained.redecide_reports normal up willing.waiting draws
  | false =>
      rw [Layer.releaseLifted, lifted]
      simp [silently]

/-- What a cue lets go of is reported or waits, and what waited still does or is reported. -/
theorem Willing.answer_conserves (willing : l.Willing) {o : Occasion} (normal : o.memory.Normal)
    (low : 0 ≤ o.draw) (high : o.draw < 1) {cue : Cue} (played : cue.IsPlayed)
    (room : l.HasRoom o cue) (inside : l.settings.keys.includes n = true) (draws : KeyStream) :
    (cue.answer o draws l).reports.countP (Report.isReleaseOf n) +
        (cue.answer o draws l).layer.pending n =
      l.pending n + if cue.letsGo n then 1 else 0 := by
  cases cue with
  | noteOn k v =>
      rw [Cue.answer, willing.switchKeys_eq, willing.noteOn_eq]
      exact Nat.zero_add _
  | noteOff k v => exact willing.noteOff_conserves normal played low high inside (room k v rfl)
  | controller c v =>
      have moved : (l.controller o.memory c v).1.Willing := willing.controller
      have own := countP_reportIf_of_ne (n := n) (v := v) .controller (by decide) c
        (l.controller o.memory c v).2
      simp only [Cue.answer, answerController, List.countP_append, own, Nat.zero_add]
      exact moved.releaseLifted_conserves (sustained_controller l o.memory v c) normal _ draws
  | rest => exact willing.rest.releaseLifted_conserves sustained_rest normal _ draws
  | bend v => exact Nat.zero_add _
  | aftertouch v => exact Nat.zero_add _
  | polyAftertouch k v => exact Nat.zero_add _
  | tempo s => exact absurd played id
  | startOver => exact absurd played id

end Layer

namespace Engine

/-! ### The account of a run -/

/-- What the account of the layer at a place rests on: a normal memory and the layer's
willingness. -/
structure Accepting (i : Nat) (e : Engine) (l : Layer) : Prop where
  normal : e.memory.Normal
  at_place : e.layers[i]? = some l
  willing : l.Willing

/-- There is room for the release that a cue makes the layer at a place put aside. -/
def HasRoom (e : Engine) (i : Nat) (cue : Cue) : Prop :=
  ∀ l, e.layers[i]? = some l → l.HasRoom (e.occasion cue) cue

/-- Whenever a run of raw messages makes the layer at a place put a release aside, there is
room for it. -/
def NeverFull (e : Engine) (i : Nat) (messages : List (List UInt8)) : Prop :=
  ∀ before bytes after, messages = before ++ bytes :: after →
    ∀ cue ∈ e.rawCues bytes, (e.run (before.map .rawMessage)).1.HasRoom i cue

variable {i : Nat} {e : Engine} {l l' : Layer} {n : Note}

/-- The account of the layer at a place: of each of its keys so many releases are heard,
and all of them are among the triggers or wait afterwards, as is what waited before. -/
structure Balanced (i : Nat) (l : Layer) (heard : Note → Nat) (outcome : Engine × List Trigger)
    (l' : Layer) : Prop where
  accepting : outcome.1.Accepting i l'
  settings : l'.settings = l.settings
  balance : ∀ n, l.settings.keys.includes n = true →
    (reportsOf i outcome.2).countP (Report.isReleaseOf n) + l'.pending n = l.pending n + heard n

theorem Accepting.balanced_nothing (accepting : e.Accepting i l) :
    Balanced i l (fun _ => 0) (e, []) l :=
  ⟨accepting, rfl, fun _ _ => Nat.zero_add _⟩

/-- Accounts add up. -/
theorem Balanced.trans {first second : Note → Nat} {outcome after : Engine × List Trigger}
    {l'' : Layer} (before : Balanced i l first outcome l')
    (later : Balanced i l' second after l'') :
    Balanced i l (fun n => first n + second n) (after.1, outcome.2 ++ after.2) l'' := by
  refine ⟨later.accepting, later.settings.trans before.settings, ?_⟩
  intro n inside
  have start := before.balance n inside
  have rest := later.balance n (before.settings ▸ inside)
  rw [reportsOf_append, List.countP_append]
  omega

theorem Balanced.of_eq {heard others : Note → Nat} {outcome : Engine × List Trigger}
    (balanced : Balanced i l heard outcome l') (same : ∀ n, heard n = others n) :
    Balanced i l others outcome l' := by
  refine ⟨balanced.accepting, balanced.settings, ?_⟩
  intro n inside
  rw [← same]
  exact balanced.balance n inside

/-- The account of a cue. -/
theorem Accepting.take (accepting : e.Accepting i l) {cue : Cue} (played : cue.IsPlayed)
    (room : e.HasRoom i cue) :
    ∃ l', Balanced i l (fun n => if cue.letsGo n then 1 else 0) (e.take cue) l' := by
  have normal : (e.occasion cue).memory.Normal := accepting.normal.remembered played
  have at_place := layer_take e cue i
  have reports := reportsOf_take e cue i
  rw [accepting.at_place] at at_place reports
  refine ⟨(e.answerOf cue i l).layer, ⟨normal, at_place, ?_⟩, l.settings_answer _ _ _, ?_⟩
  · exact accepting.willing.answer normal played _
  · intro n inside
    obtain ⟨low, high⟩ := e.draws.draw_mem
    rw [reports]
    exact accepting.willing.answer_conserves normal low high played (room l accepting.at_place)
      inside _

theorem countP_letsGo_messageCues (m : Midi.Message) :
    (messageCues m).countP (Cue.letsGo n) = if m.released? = some n then 1 else 0 := by
  cases m with
  | noteOff key velocity => simp [messageCues, Cue.letsGo, Midi.Message.released?]
  | noteOn key velocity =>
      rw [messageCues_noteOn]
      by_cases silent : velocity = 0
      · simp [silent, Cue.letsGo, Midi.Message.released?]
      · simp [silent, Cue.letsGo, Midi.Message.released?]
  | controller number value =>
      rw [messageCues, controllerCues]
      split <;> rfl
  | _ => rfl

theorem countP_letsGo_rawCues (bytes : List UInt8) :
    (e.rawCues bytes).countP (Cue.letsGo n) = if e.released? bytes = some n then 1 else 0 := by
  unfold rawCues released?
  cases Midi.ChannelMessage.ofBytes? bytes with
  | none => rfl
  | some m =>
      simp only [Option.map_some, Option.getD_some, Option.bind_some, channelCues]
      split
      · exact countP_letsGo_messageCues m.message
      · rfl

theorem released?_eq_of_channel {f : Engine} (same : e.channel = f.channel) :
    e.released? = f.released? := by
  funext bytes
  rw [released?, released?, hears_eq_of_channel same]

/-- The account of a raw message. -/
theorem Accepting.rawMessage (accepting : e.Accepting i l) {bytes : List UInt8}
    (room : ∀ cue ∈ e.rawCues bytes, e.HasRoom i cue) :
    ∃ l', Balanced i l (fun n => if e.released? bytes = some n then 1 else 0)
      (e.step (.rawMessage bytes)) l' := by
  have few : FewCues (e.rawCues bytes) := fewCues_cues e (.rawMessage bytes)
  have played := isPlayed_rawCues e bytes
  have account (n : Note) := countP_letsGo_rawCues (e := e) (n := n) bytes
  have step : e.step (.rawMessage bytes) = e.follow (e.rawCues bytes) :=
    rawMessage_eq_follow e bytes
  rw [step]
  simp only [← account]
  generalize e.rawCues bytes = cues at few played room
  cases few with
  | nothing => exact ⟨l, accepting.balanced_nothing⟩
  | single cue =>
      rw [follow_singleton]
      obtain ⟨l', taken⟩ :=
        accepting.take (played cue List.mem_cons_self) (room cue List.mem_cons_self)
      exact ⟨l', taken.of_eq fun _ => List.countP_singleton.symm⟩
  | resetAll v =>
      obtain ⟨rested, resting⟩ :=
        accepting.take (played .rest List.mem_cons_self) (room .rest List.mem_cons_self)
      have roomy : (e.take .rest).1.HasRoom i (.controller .resetAll v) :=
        fun _ _ _ _ same => nomatch same
      have own := played _ (List.mem_cons_of_mem _ List.mem_cons_self)
      obtain ⟨l', moved⟩ := resting.accepting.take own roomy
      rw [follow_cons, follow_singleton]
      exact ⟨l', (resting.trans moved).of_eq fun _ => rfl⟩

/-- The account of a run of raw messages. -/
theorem Accepting.run (accepting : e.Accepting i l) {messages : List (List UInt8)}
    (room : e.NeverFull i messages) :
    ∃ l', Balanced i l (fun n => messages.countP fun bytes => e.released? bytes == some n)
      ((e.run (messages.map .rawMessage)).1, (e.run (messages.map .rawMessage)).2.flatten) l' := by
  induction messages generalizing e l with
  | nil => exact ⟨l, accepting.balanced_nothing⟩
  | cons bytes messages ih =>
      obtain ⟨l₁, stepped⟩ := accepting.rawMessage (room [] bytes messages rfl)
      have same := channel_step e (.rawMessage bytes)
      have later : (e.step (.rawMessage bytes)).1.NeverFull i messages := by
        intro before bytes' after split cue mem
        have cues : (e.step (.rawMessage bytes)).1.rawCues bytes' = e.rawCues bytes' :=
          congrFun (cues_eq_of_channel same) (.rawMessage bytes')
        rw [cues] at mem
        exact room (bytes :: before) bytes' after (by rw [split]; rfl) cue mem
      obtain ⟨l', ran⟩ := ih stepped.accepting later
      -- Both halves count by what the engine hears, and the channel is still the same.
      rw [released?_eq_of_channel same] at ran
      refine ⟨l', (stepped.trans ran).of_eq ?_⟩
      intro n
      rw [List.countP_cons, Nat.add_comm]
      simp only [beq_iff_eq]

end Engine

/-- No release of a willing layer is lost, and none sounds twice. Of a run of raw messages
that never fills what waits for the layer's sustain pedal, count the messages that let go
of a key of the layer: so many releases of that note has the layer been reported to sound
for, or they still wait. -/
theorem releases_conserved (b : Bank) (i : Nat) (s : Settings) (listed : b.layers[i]? = some s)
    (willing : s.Willing) (draws : KeyStream) (messages : List (List UInt8))
    (room : (Engine.ofBank b draws).NeverFull i messages) (n : Note)
    (inside : s.keys.includes n = true) :
    let start := Engine.ofBank b draws
    let after := start.run (messages.map .rawMessage)
    ∃ l, after.1.layers[i]? = some l ∧
      messages.countP (fun bytes => start.released? bytes == some n) =
        (reportsOf i after.2.flatten).countP (Report.isReleaseOf n) + l.pending n := by
  intro start after
  have accepting : start.Accepting i (.initial s) := by
    refine ⟨Memory.normal_initial, ?_, Layer.willing_initial willing⟩
    simp [start, Engine.ofBank, listed]
  obtain ⟨l, ran⟩ := accepting.run room
  refine ⟨l, ran.accepting.at_place, ?_⟩
  have account := ran.balance n inside
  have nothing : (Layer.initial s).pending n = 0 := rfl
  rw [nothing, Nat.zero_add] at account
  exact account.symm

/-! ### Short runs -/

/-- At most one more release waits after a cue. -/
theorem Layer.size_answer_le (o : Occasion) (cue : Cue) (draws : KeyStream) (l : Layer) :
    (cue.answer o draws l).layer.sustained.size ≤ l.sustained.size + 1 := by
  have lifted {k : Layer} (wasDown : Bool) (same : k.sustained = l.sustained) :
      (k.releaseLifted o.memory wasDown draws).layer.sustained.size ≤ l.sustained.size + 1 := by
    rw [sustained_releaseLifted, same]
    split
    · exact Nat.zero_le _
    · exact Nat.le_succ _
  cases cue with
  | noteOn n v =>
      have same : (Cue.answer o (.noteOn n v) draws l).layer.sustained = l.sustained :=
        congrArg Hold.sustained (hold_noteOn _ _ _ _ _)
      rw [same]
      exact Nat.le_succ _
  | noteOff n v =>
      obtain ⟨-, -, -, sustained⟩ := noteOff_fields l o.memory n v o.draw
      change (l.noteOff o.memory n v o.draw).1.sustained.size ≤ _
      rw [sustained]
      split
      · unfold HeldReleases.size
        rw [HeldReleases.toList_push]
        split <;> simp
      · exact Nat.le_succ _
  | controller c v => exact lifted _ (sustained_controller l o.memory v c)
  | rest => exact lifted _ sustained_rest
  | startOver => exact Nat.zero_le _
  | _ => exact Nat.le_succ _

namespace Engine

theorem size_follow_le {k : Nat} {e : Engine} (small : ∀ l ∈ e.layers, l.sustained.size ≤ k)
    (cues : List Cue) : ∀ l ∈ (e.follow cues).1.layers, l.sustained.size ≤ k + cues.length := by
  induction cues generalizing k e with
  | nil => exact small
  | cons cue cues ih =>
      have taken : ∀ l ∈ (e.take cue).1.layers, l.sustained.size ≤ k + 1 := by
        intro l mem
        obtain ⟨i, before, mem_before, rfl⟩ := mem_layers_take mem
        exact Nat.le_trans (Layer.size_answer_le _ _ _ _) (Nat.succ_le_succ (small _ mem_before))
      intro l mem
      have bound := ih taken l mem
      rw [List.length_cons]
      omega

theorem length_cues_le (e : Engine) (events : List Event) :
    (events.flatMap e.cues).length ≤ 2 * events.length := by
  induction events with
  | nil => exact Nat.le_refl _
  | cons event events ih =>
      have few : (e.cues event).length ≤ 2 := by
        have few := fewCues_cues e event
        generalize e.cues event = cues at few
        cases few with
        | nothing => exact Nat.zero_le _
        | single cue => exact Nat.le_succ _
        | resetAll v => exact Nat.le_refl _
      rw [List.flatMap_cons, List.length_append, List.length_cons]
      omega

/-- A run of few messages never fills what waits for a sustain pedal. -/
theorem neverFull_of_short (b : Bank) (draws : KeyStream) (i : Nat) {messages : List (List UInt8)}
    (short : 2 * messages.length ≤ HeldReleases.capacity) :
    (ofBank b draws).NeverFull i messages := by
  intro before bytes after split cue mem l at_place n v same waits
  have empty : ∀ l ∈ (ofBank b draws).layers, l.sustained.size ≤ 0 := by
    intro l mem
    obtain ⟨s, -, rfl⟩ := List.mem_map.mp mem
    exact Nat.le_refl _
  rw [run_fst_eq_follow] at at_place
  have bound := size_follow_le empty _ l (List.mem_of_getElem? at_place)
  have cues := length_cues_le (ofBank b draws) (before.map .rawMessage)
  rw [List.length_map] at cues
  rw [split, List.length_append, List.length_cons] at short
  omega

end Engine

/-- A layer that answers every release of its keys, as its sustain pedal allows. -/
def echo : Settings := { mode := .release, sostenuto := ⟨.sostenuto, 0.5, false⟩ }

theorem willing_echo : echo.Willing where
  mode := rfl
  onNote := rfl
  sostenuto := rfl
  sequenceLength := rfl
  sequencePosition := rfl
  keyswitch := rfl
  previousKey := rfl
  conditions := rfl
  velocities _ level := Interval.includes_iff.mpr level
  polyAftertouches _ level := Interval.includes_iff.mpr level
  aftertouches _ level := Interval.includes_iff.mpr level
  bends _ low high := Interval.includes_iff.mpr ⟨low, high⟩
  draws := Settings.acceptsDraws_of_whole rfl

/-- A note is let go twice under the pedal, and besides on a channel that is not listened to; the
pedal comes up and goes down, and the note is let go once more. -/
def strokes : List (List UInt8) :=
  [[0xB0, 64, 127], [0x90, 60, 100], [0x80, 60, 0], [0x81, 60, 0], [0x90, 60, 0], [0xB0, 64, 0],
    [0xB0, 64, 127], [0x80, 60, 64]]

/-- Of the three releases that are heard two sound with the pedal, and the last one waits. They are
still three when all controllers have been reset. -/
theorem echo_releases_conserved :
    let b : Bank := ⟨some 1, none, [echo]⟩
    let start := Engine.ofBank b (.ofSeed 1)
    let after := start.run (strokes.map .rawMessage)
    let rested := start.run ((strokes ++ [[0xB0, 121, 0]]).map .rawMessage)
    b.layers[0]? = some echo ∧ echo.Willing ∧ start.NeverFull 0 strokes ∧
      echo.keys.includes 60 = true ∧
      strokes.countP (fun bytes => start.released? bytes == some 60) = 3 ∧
      (reportsOf 0 after.2.flatten).countP (Report.isReleaseOf 60) = 2 ∧
      (∃ l, after.1.layers[0]? = some l ∧ l.pending 60 = 1) ∧
      ∃ l, rested.1.layers[0]? = some l ∧
        3 = (reportsOf 0 rested.2.flatten).countP (Report.isReleaseOf 60) + l.pending 60 := by
  intro b start after rested
  have room : start.NeverFull 0 strokes := Engine.neverFull_of_short _ _ _ (by decide)
  have heard : strokes.countP (fun bytes => start.released? bytes == some 60) = 3 := by
    decide +kernel
  have waiting : after.1.layers.map (·.pending 60) = [1] := by decide +kernel
  obtain ⟨l, listed, account⟩ :=
    releases_conserved b 0 echo rfl willing_echo (.ofSeed 1) strokes room 60 (by decide)
  have pending : l.pending 60 = 1 := by
    have own := List.mem_map_of_mem (f := (·.pending 60)) (List.mem_of_getElem? listed)
    exact List.mem_singleton.mp (waiting ▸ own)
  have reported : (reportsOf 0 after.2.flatten).countP (Report.isReleaseOf 60) = 2 := by
    rw [heard, pending] at account
    exact (Nat.succ.inj account).symm
  obtain ⟨k, still, later⟩ :=
    releases_conserved b 0 echo rfl willing_echo (.ofSeed 1) (strokes ++ [[0xB0, 121, 0]])
      (Engine.neverFull_of_short _ _ _ (by decide)) 60 (by decide)
  have again :
      (strokes ++ [[0xB0, 121, 0]]).countP (fun bytes => start.released? bytes == some 60) = 3 := by
    decide +kernel
  exact ⟨rfl, willing_echo, room, by decide, heard, reported, ⟨l, listed, pending⟩, k, still,
    again.symm.trans later⟩

end Voicing
