import Voicing.Engine

/-!
Events as cues.

Whatever happens to an engine comes down to *cues*: a cue is remembered, may pass a
draw, and is offered to each layer in turn. Most events are one cue; the controller that
resets all others is two, and a message that nobody listens to is none.

* `Engine.step_eq_follow`: an event is its cues one after the other, and only the plain
  reset of the controllers keeps what they trigger to itself.
* `Engine.layer_take`, `Engine.reportsOf_take`: what a cue does to the layer at a place is
  the answer of that layer alone, with the stream as it reaches that place.
* `Engine.run_keeps`, `Engine.run_keeps_layers`: what every cue keeps, every run keeps.
-/

namespace Voicing

/-- What the memory and all layers are told at once. -/
inductive Cue where
  | noteOn (note : Note) (velocity : Single)
  | noteOff (note : Note) (velocity : Single)
  | controller (number : Controller) (value : Single)
  /-- The bend, the aftertouches and all controllers go to zero. -/
  | rest
  | bend (value : Single)
  | aftertouch (value : Single)
  | polyAftertouch (note : Note) (value : Single)
  | tempo (seconds : Single)
  /-- Everything but the stream of draws starts over. -/
  | startOver
deriving DecidableEq

/-- What the layers share when a cue reaches them: the memory with the cue in it, the
note played before the cue, and the draw that the cue passes. -/
structure Occasion where
  memory : Memory
  previous : Option Note
  draw : Single

namespace Cue

/-- What the memory records of a cue. -/
def remembered : Cue → List Memory.Event
  | .noteOn n v => [.noteOn n v]
  | .noteOff n v => [.noteOff n v]
  | .controller c v => [.controller c v]
  | .rest => [.resetControllers]
  | .bend v => [.bend v]
  | .aftertouch v => [.aftertouch v]
  | .polyAftertouch n v => [.polyAftertouch n v]
  | .tempo _ => []
  | .startOver => [.reset]

/-- Whether a cue passes a draw for the layers to share. -/
def passesDraw : Cue → Bool
  | .noteOn _ _ | .noteOff _ _ | .controller _ _ => true
  | _ => false

/-- What a layer makes of a cue. -/
def answer (o : Occasion) (cue : Cue) (draws : KeyStream) (l : Layer) : Answer :=
  match cue with
  | .noteOn n v =>
    let decided := (l.switchKeys n o.previous).noteOn o.memory n v o.draw
    ⟨decided.1, draws, Layer.reportIf .attack n.toUInt16 v decided.2⟩
  | .noteOff n v =>
    let decided := l.noteOff o.memory n v o.draw
    ⟨decided.1, draws, Layer.reportIf .release n.toUInt16 v decided.2⟩
  | .controller c v => l.answerController o.memory c v draws
  | .rest => l.answerReset o.memory draws
  | .bend v => (l.setBend v).silently draws
  | .aftertouch v => (l.setAftertouch v).silently draws
  | .polyAftertouch _ _ => l.silently draws
  | .tempo s => (l.setTempo s).silently draws
  | .startOver => (Layer.initial l.settings).silently draws

end Cue

/-! ### Runs of one layer -/

namespace Layer

@[simp] theorem run_nil (l : Layer) : l.run [] = l := rfl

@[simp] theorem run_cons (l : Layer) (event : Event) (events : List Event) :
    l.run (event :: events) = (l.step event).1.run events := rfl

theorem run_append (l : Layer) (events others : List Event) :
    l.run (events ++ others) = (l.run events).run others :=
  List.foldl_append

/-- The report of a layer that sounds is the one it was to make. -/
theorem eq_of_mem_reportIf {kind : TriggerKind} {number : UInt16} {value : Single} {sounds : Bool}
    {report : Report} (mem : report ∈ reportIf kind number value sounds) :
    report = ⟨kind, number, value⟩ := by
  unfold reportIf at mem
  split at mem
  · exact List.mem_singleton.mp mem
  · exact absurd mem List.not_mem_nil

end Layer

/-! ### What a layer keeps -/

section Keeps

variable {P : Layer → Prop}

/-- What every step of a layer keeps, its runs keep. -/
theorem Layer.run_keeps (step : ∀ l event, P l → P (l.step event).1) (events : List Layer.Event)
    {l : Layer} (holds : P l) : P (l.run events) := by
  induction events generalizing l with
  | nil => exact holds
  | cons event events ih => exact ih (step l event holds)

/-- What note-offs keep, deciding releases again keeps. -/
theorem Layer.redecide_keeps (m : Memory) (noteOff : ∀ l n v r, P l → P (l.noteOff m n v r).1)
    (rs : List Release) (draws : KeyStream) {l : Layer} (holds : P l) :
    P (l.redecide m rs draws).layer := by
  induction rs generalizing draws l with
  | nil => exact holds
  | cons r rs ih => exact ih draws.next (noteOff l r.note r.velocity draws.draw holds)

theorem Layer.releaseLifted_keeps (m : Memory) (noteOff : ∀ l n v r, P l → P (l.noteOff m n v r).1)
    (wasDown : Bool) (draws : KeyStream) {l : Layer} (holds : P l) (dropped : P l.dropSustained) :
    P (l.releaseLifted m wasDown draws).layer := by
  unfold releaseLifted
  split
  · exact redecide_keeps m noteOff _ draws dropped
  · exact holds

/-- What single controllers keep, the rest of all of them keeps. -/
theorem Layer.rest_keeps (m : Memory) (controller : ∀ l c, P l → P (l.controller m c 0).1)
    {l : Layer} (holds : P ((l.setBend 0).setAftertouch 0)) : P (l.rest m) := by
  unfold rest
  generalize allControllers = cs
  generalize (l.setBend 0).setAftertouch 0 = l at holds
  induction cs generalizing l with
  | nil => exact holds
  | cons c cs ih => exact ih _ (controller l c holds)

/-- What every step of a layer keeps, and what holds of it at the start, every answer
keeps. -/
theorem Cue.answer_keeps (step : ∀ l event, P l → P (l.step event).1) (o : Occasion) (cue : Cue)
    (draws : KeyStream) {l : Layer} (start : P (.initial l.settings)) (holds : P l) :
    P (cue.answer o draws l).layer := by
  have lifted (wasDown : Bool) {k : Layer} (holds : P k) :
      P (k.releaseLifted o.memory wasDown draws).layer :=
    Layer.releaseLifted_keeps o.memory (fun k n v r => step k (.noteOff o.memory n v r)) wasDown
      draws holds (step k .dropSustained holds)
  cases cue with
  | noteOn n v => exact step _ (.noteOn _ _ _ _) (step _ (.switchKeys _ _) holds)
  | noteOff n v => exact step _ (.noteOff _ _ _ _) holds
  | controller c v => exact lifted _ (step l (.controller o.memory c v) holds)
  | rest =>
      have silenced : P ((l.setBend 0).setAftertouch 0) :=
        step _ (.aftertouch 0) (step l (.bend 0) holds)
      exact lifted _ (Layer.rest_keeps _ (fun k c => step k (.controller o.memory c 0)) silenced)
  | bend v => exact step _ (.bend v) holds
  | aftertouch v => exact step _ (.aftertouch v) holds
  | polyAftertouch n v => exact holds
  | tempo s => exact step _ (.tempo s) holds
  | startOver => exact start

end Keeps

/-! ### One layer among many -/

/-- The reports of the layer at a place. -/
def reportsOf (i : Nat) (triggers : List Trigger) : List Report :=
  (triggers.filter (·.layer == i)).map (·.report)

@[simp] theorem reportsOf_nil (i : Nat) : reportsOf i [] = [] := rfl

@[simp] theorem reportsOf_append (i : Nat) (ts us : List Trigger) :
    reportsOf i (ts ++ us) = reportsOf i ts ++ reportsOf i us := by
  simp [reportsOf]

theorem reportsOf_map_mk_self (i : Nat) (rs : List Report) :
    reportsOf i (rs.map (Trigger.mk i)) = rs := by
  induction rs with
  | nil => rfl
  | cons r rs ih =>
      simp only [reportsOf, List.map_cons, List.filter_cons, beq_self_eq_true, if_true] at ih ⊢
      rw [ih]

theorem reportsOf_map_mk_ne {i j : Nat} (ne : j ≠ i) (rs : List Report) :
    reportsOf i (rs.map (Trigger.mk j)) = [] := by
  simp [reportsOf, ne]

/-- The stream of draws as it reaches the layer at a place. -/
def streamAt (answer : KeyStream → Layer → Answer) : KeyStream → List Layer → Nat → KeyStream
  | draws, [], _ => draws
  | draws, _ :: _, 0 => draws
  | draws, l :: ls, j + 1 => streamAt answer (answer draws l).draws ls j

section Offer

variable (answer : KeyStream → Layer → Answer)

/-- The layer at a place afterwards is that layer's own answer. -/
theorem offer_layers_getElem? (i : Nat) (draws : KeyStream) (ls : List Layer) (j : Nat) :
    (offer answer i draws ls).layers[j]? =
      ls[j]?.map fun l => (answer (streamAt answer draws ls j) l).layer := by
  induction ls generalizing i draws j with
  | nil => simp [offer]
  | cons l ls ih =>
      cases j with
      | zero => rfl
      | succ j =>
          simp only [offer, streamAt, List.getElem?_cons_succ]
          exact ih (i + 1) (answer draws l).draws j

/-- Layers are numbered upwards. -/
theorem reportsOf_offer_of_lt {i j : Nat} (below : j < i) (draws : KeyStream) (ls : List Layer) :
    reportsOf j (offer answer i draws ls).triggers = [] := by
  induction ls generalizing i draws with
  | nil => rfl
  | cons l ls ih =>
      simp only [offer, reportsOf_append]
      rw [reportsOf_map_mk_ne (Nat.ne_of_gt below), ih (Nat.lt_succ_of_lt below)]
      rfl

/-- The reports of the layer at a place are those of its own answer. -/
theorem reportsOf_offer (i : Nat) (draws : KeyStream) (ls : List Layer) (j : Nat) :
    reportsOf (i + j) (offer answer i draws ls).triggers =
      (ls[j]?.map fun l => (answer (streamAt answer draws ls j) l).reports).getD [] := by
  induction ls generalizing i draws j with
  | nil => simp [offer]
  | cons l ls ih =>
      simp only [offer, reportsOf_append]
      cases j with
      | zero =>
          rw [Nat.add_zero, reportsOf_map_mk_self, reportsOf_offer_of_lt _ (Nat.lt_succ_self i)]
          simp [streamAt]
      | succ j =>
          rw [reportsOf_map_mk_ne (by omega), List.nil_append, List.getElem?_cons_succ]
          have place : i + (j + 1) = i + 1 + j := by omega
          rw [place]
          exact ih (i + 1) (answer draws l).draws j

/-- Where every layer only changes in silence, the stream stays and nobody sounds. -/
theorem offer_silently (change : Layer → Layer) (i : Nat) (draws : KeyStream) (ls : List Layer) :
    offer (fun draws l => (change l).silently draws) i draws ls = ⟨ls.map change, draws, []⟩ := by
  induction ls generalizing i with
  | nil => rfl
  | cons l ls ih =>
      simp only [offer, List.map_cons]
      rw [show ((change l).silently draws).draws = draws from rfl, ih (i + 1)]
      rfl

end Offer

namespace Engine

/-! ### Taking a cue -/

/-- What the layers share when a cue reaches them. -/
def occasion (e : Engine) (cue : Cue) : Occasion :=
  ⟨e.memory.run cue.remembered, e.memory.lastNote, e.draws.draw⟩

/-- The engine when a cue is about to be offered. -/
def prepare (e : Engine) (cue : Cue) : Engine :=
  { e with
    memory := e.memory.run cue.remembered
    draws := if cue.passesDraw then e.draws.next else e.draws }

/-- The engine after a cue, and the triggers. -/
def take (e : Engine) (cue : Cue) : Engine × List Trigger :=
  (e.prepare cue).offerAll (cue.answer (e.occasion cue))

/-- The stream of draws as a cue finds it at the layer at a place. -/
def streamFor (e : Engine) (cue : Cue) (i : Nat) : KeyStream :=
  streamAt (cue.answer (e.occasion cue)) (e.prepare cue).draws e.layers i

/-- What the layer at a place makes of a cue. -/
def answerOf (e : Engine) (cue : Cue) (i : Nat) (l : Layer) : Answer :=
  cue.answer (e.occasion cue) (e.streamFor cue i) l

@[simp] theorem memory_take (e : Engine) (cue : Cue) :
    (e.take cue).1.memory = e.memory.run cue.remembered := rfl

@[simp] theorem channel_take (e : Engine) (cue : Cue) : (e.take cue).1.channel = e.channel := rfl

theorem layer_take (e : Engine) (cue : Cue) (i : Nat) :
    (e.take cue).1.layers[i]? = e.layers[i]?.map fun l => (e.answerOf cue i l).layer :=
  offer_layers_getElem? _ 0 _ _ i

/-- A layer after a cue is the answer of a layer before it. -/
theorem mem_layers_take {e : Engine} {cue : Cue} {l' : Layer} (mem : l' ∈ (e.take cue).1.layers) :
    ∃ i, ∃ l ∈ e.layers, l' = (e.answerOf cue i l).layer := by
  obtain ⟨i, at_i⟩ := List.mem_iff_getElem?.mp mem
  rw [layer_take, Option.map_eq_some_iff] at at_i
  obtain ⟨l, at_l, rfl⟩ := at_i
  exact ⟨i, l, List.mem_of_getElem? at_l, rfl⟩

theorem reportsOf_take (e : Engine) (cue : Cue) (i : Nat) :
    reportsOf i (e.take cue).2 =
      (e.layers[i]?.map fun l => (e.answerOf cue i l).reports).getD [] := by
  have at_place := reportsOf_offer (cue.answer (e.occasion cue)) 0 (e.prepare cue).draws e.layers i
  rwa [Nat.zero_add] at at_place

/-- The engine after cues one after the other, and the triggers. -/
def follow (e : Engine) : List Cue → Engine × List Trigger
  | [] => (e, [])
  | cue :: cues =>
    let rest := (e.take cue).1.follow cues
    (rest.1, (e.take cue).2 ++ rest.2)

@[simp] theorem follow_nil (e : Engine) : e.follow [] = (e, []) := rfl

@[simp] theorem follow_cons (e : Engine) (cue : Cue) (cues : List Cue) :
    e.follow (cue :: cues) =
      (((e.take cue).1.follow cues).1, (e.take cue).2 ++ ((e.take cue).1.follow cues).2) := rfl

theorem follow_append (e : Engine) (cues others : List Cue) :
    e.follow (cues ++ others) =
      (((e.follow cues).1.follow others).1,
        (e.follow cues).2 ++ ((e.follow cues).1.follow others).2) := by
  induction cues generalizing e with
  | nil => simp
  | cons cue cues ih => simp [ih]

@[simp] theorem channel_follow (e : Engine) (cues : List Cue) :
    (e.follow cues).1.channel = e.channel := by
  induction cues generalizing e with
  | nil => rfl
  | cons cue cues ih => simp [ih]

/-! ### Events -/

/-- The cues of a controller. -/
def controllerCues (c : Controller) (v : Single) : List Cue :=
  if c = .resetAll then [.rest, .controller c v] else [.controller c v]

/-- The cues of a message. -/
def messageCues : Midi.Message → List Cue
  | .noteOff key velocity => [.noteOff key.note velocity.level]
  | .noteOn key velocity =>
    if velocity = 0 then [.noteOff key.note 0] else [.noteOn key.note velocity.level]
  | .polyAftertouch key value => [.polyAftertouch key.note value.level]
  | .controller number value => controllerCues (UInt16.ofNat number.val) value.level
  | .program _ => []
  | .aftertouch value => [.aftertouch value.level]
  | .bend position => [.bend (Midi.bendLevel position)]

/-- A note-on without velocity is a note-off. -/
theorem messageCues_noteOn (key velocity : Midi.Data) :
    messageCues (.noteOn key velocity) =
      if velocity = 0 then [.noteOff key.note 0] else [.noteOn key.note velocity.level] := rfl

/-- The cues of a message on a channel. -/
def channelCues (e : Engine) (m : Midi.ChannelMessage) : List Cue :=
  if e.hears m.channel then messageCues m.message else []

/-- The cues of a raw message. -/
def rawCues (e : Engine) (bytes : List UInt8) : List Cue :=
  ((Midi.ChannelMessage.ofBytes? bytes).map e.channelCues).getD []

/-- The cues that an event comes down to. -/
def cues (e : Engine) : Event → List Cue
  | .noteOn n v => [.noteOn n v]
  | .noteOff n v => [.noteOff n v]
  | .controller c v => controllerCues c v
  | .bend v => [.bend v]
  | .aftertouch v => [.aftertouch v]
  | .polyAftertouch n v => [.polyAftertouch n v]
  | .tempo s => [.tempo s]
  | .resetControllers => [.rest]
  | .reset => [.startOver]
  | .message m => e.channelCues m
  | .rawMessage bytes => e.rawCues bytes

theorem hears_eq_of_channel {e f : Engine} (same : e.channel = f.channel) : e.hears = f.hears := by
  funext channel
  rw [hears, hears, same]

/-- Which cues an event comes down to is a matter of the channel alone. -/
theorem cues_eq_of_channel {e f : Engine} (same : e.channel = f.channel) : e.cues = f.cues := by
  have onChannel : e.channelCues = f.channelCues := by
    funext m
    rw [channelCues, channelCues, hears_eq_of_channel same]
  funext event
  cases event with
  | message m => exact congrFun onChannel m
  | rawMessage bytes => simp only [cues, rawCues, onChannel]
  | _ => rfl

/-- No cue, a single one, or the two of the controller that resets all others. -/
inductive FewCues : List Cue → Prop where
  | nothing : FewCues []
  | single (cue : Cue) : FewCues [cue]
  | resetAll (v : Single) : FewCues [.rest, .controller .resetAll v]

theorem fewCues_controllerCues (c : Controller) (v : Single) : FewCues (controllerCues c v) := by
  unfold controllerCues
  split
  · next same =>
    rw [same]
    exact .resetAll v
  · exact .single _

theorem fewCues_messageCues (m : Midi.Message) : FewCues (messageCues m) := by
  cases m with
  | noteOn key velocity =>
      rw [messageCues_noteOn]
      split
      · exact .single _
      · exact .single _
  | controller number value => exact fewCues_controllerCues _ _
  | program number => exact .nothing
  | _ => exact .single _

theorem fewCues_channelCues (e : Engine) (m : Midi.ChannelMessage) : FewCues (e.channelCues m) := by
  unfold channelCues
  split
  · exact fewCues_messageCues _
  · exact .nothing

/-- An event is one cue at most, but for the controller that resets all others. -/
theorem fewCues_cues (e : Engine) (event : Event) : FewCues (e.cues event) := by
  cases event with
  | controller c v => exact fewCues_controllerCues c v
  | message m => exact fewCues_channelCues e m
  | rawMessage bytes =>
      rw [cues, rawCues]
      cases Midi.ChannelMessage.ofBytes? bytes with
      | none => exact .nothing
      | some m => exact fewCues_channelCues e m
  | _ => exact .single _

@[simp] theorem follow_singleton (e : Engine) (cue : Cue) : e.follow [cue] = e.take cue := by
  simp

theorem offerAll_silently (e : Engine) (change : Layer → Layer) :
    e.offerAll (fun draws l => (change l).silently draws) =
      ({ e with layers := e.layers.map change }, []) := by
  unfold offerAll
  rw [offer_silently]

theorem take_polyAftertouch (e : Engine) (n : Note) (v : Single) :
    e.take (.polyAftertouch n v) = e.polyAftertouch n v := by
  have unchanged := offerAll_silently (e.prepare (.polyAftertouch n v)) id
  rw [List.map_id] at unchanged
  exact unchanged

theorem take_startOver (e : Engine) : e.take .startOver = e.reset :=
  offerAll_silently (e.prepare .startOver) fun l => .initial l.settings

theorem controller_eq_follow (e : Engine) (c : Controller) (v : Single) :
    e.controller c v = e.follow (controllerCues c v) := by
  unfold controller controllerCues
  split
  · rw [follow_cons, follow_singleton]
    rfl
  · rw [follow_singleton]
    rfl

theorem message_eq_follow (e : Engine) (m : Midi.ChannelMessage) :
    e.message m = e.follow (e.channelCues m) := by
  unfold message channelCues
  split
  · cases m.message with
    | noteOn key velocity =>
        rw [messageCues_noteOn]
        dsimp only
        split
        · rw [follow_singleton]
          rfl
        · rw [follow_singleton]
          rfl
    | controller number value => exact controller_eq_follow e _ _
    | polyAftertouch key value =>
        rw [messageCues, follow_singleton, take_polyAftertouch]
    | program number => rfl
    | noteOff key velocity => rw [messageCues, follow_singleton]; rfl
    | aftertouch value => rw [messageCues, follow_singleton]; rfl
    | bend position => rw [messageCues, follow_singleton]; rfl
  · rfl

theorem rawMessage_eq_follow (e : Engine) (bytes : List UInt8) :
    e.rawMessage bytes = e.follow (e.rawCues bytes) := by
  unfold rawMessage rawCues
  cases Midi.ChannelMessage.ofBytes? bytes with
  | none => rfl
  | some m => exact message_eq_follow e m

/-- An event does what its cues do, one after the other. Only the plain reset of the
controllers keeps what they trigger to itself. -/
theorem step_eq_follow (e : Engine) (event : Event) :
    e.step event =
      ((e.follow (e.cues event)).1,
        if event = .resetControllers then [] else (e.follow (e.cues event)).2) := by
  cases event with
  | controller c v => exact controller_eq_follow e c v
  | message m => exact message_eq_follow e m
  | rawMessage bytes => exact rawMessage_eq_follow e bytes
  | polyAftertouch n v => rw [cues, follow_singleton, take_polyAftertouch]; rfl
  | reset => rw [cues, follow_singleton, take_startOver]; rfl
  | resetControllers => rw [cues, follow_singleton]; rfl
  | noteOn n v => rw [cues, follow_singleton]; rfl
  | noteOff n v => rw [cues, follow_singleton]; rfl
  | bend v => rw [cues, follow_singleton]; rfl
  | aftertouch v => rw [cues, follow_singleton]; rfl
  | tempo s => rw [cues, follow_singleton]; rfl

theorem step_fst (e : Engine) (event : Event) :
    (e.step event).1 = (e.follow (e.cues event)).1 := by
  rw [step_eq_follow]

@[simp] theorem channel_step (e : Engine) (event : Event) :
    (e.step event).1.channel = e.channel := by
  rw [step_fst, channel_follow]

/-! ### Runs -/

@[simp] theorem run_nil (e : Engine) : e.run [] = (e, []) := rfl

@[simp] theorem run_cons (e : Engine) (event : Event) (events : List Event) :
    e.run (event :: events) =
      (((e.step event).1.run events).1, (e.step event).2 :: ((e.step event).1.run events).2) := rfl

theorem run_append (e : Engine) (events others : List Event) :
    e.run (events ++ others) =
      (((e.run events).1.run others).1, (e.run events).2 ++ ((e.run events).1.run others).2) := by
  induction events generalizing e with
  | nil => simp
  | cons event events ih => simp [ih]

@[simp] theorem channel_run (e : Engine) (events : List Event) :
    (e.run events).1.channel = e.channel := by
  induction events generalizing e with
  | nil => rfl
  | cons event events ih => simp [ih]

/-- A run ends where its cues lead. -/
theorem run_fst_eq_follow (e : Engine) (events : List Event) :
    (e.run events).1 = (e.follow (events.flatMap e.cues)).1 := by
  induction events generalizing e with
  | nil => rfl
  | cons event events ih =>
      have later := cues_eq_of_channel (channel_follow e (e.cues event))
      simp only [run_cons, List.flatMap_cons, follow_append, step_fst, ih, later]

section Keeps

variable {P : Engine → Prop}

/-- What every cue keeps, any cues keep. -/
theorem follow_keeps (keeps : ∀ e cue, P e → P (e.take cue).1) {e : Engine} (holds : P e)
    (cues : List Cue) : P (e.follow cues).1 := by
  induction cues generalizing e with
  | nil => exact holds
  | cons cue cues ih => exact ih (keeps e cue holds)

/-- What every cue keeps, every run keeps. -/
theorem run_keeps (keeps : ∀ e cue, P e → P (e.take cue).1) {e : Engine} (holds : P e)
    (events : List Event) : P (e.run events).1 := by
  rw [run_fst_eq_follow]
  exact follow_keeps keeps holds _

end Keeps

/-- What holds of every layer before any event and is kept by every answer, holds of all
layers after every run of a bank's engine. -/
theorem run_keeps_layers {P : Layer → Prop} (start : ∀ s, P (.initial s))
    (keeps : ∀ o cue draws l, P l → P (Cue.answer o cue draws l).layer) (b : Bank)
    (draws : KeyStream) (events : List Event) {l : Layer}
    (mem : l ∈ ((ofBank b draws).run events).1.layers) : P l := by
  refine run_keeps (P := fun e => ∀ l ∈ e.layers, P l) ?_ ?_ events l mem
  · intro e cue holds l mem
    obtain ⟨i, before, mem_before, rfl⟩ := mem_layers_take mem
    exact keeps _ _ _ _ (holds before mem_before)
  · intro l mem
    obtain ⟨s, _, rfl⟩ := List.mem_map.mp mem
    exact start s

end Engine

end Voicing
