import Voicing.Proofs.Timeline

/-!
Messages that leave no trace.

What is no channel message, what is on another channel than the one a bank listens to, and what
changes the program comes down to no cue at all: it takes no draw, it is not remembered, and no
layer hears of it. A note-on without velocity comes down to the same cue as the note-off of its
key. So a run of messages does what the cues of all its messages do, and messages without cues
can be left out. In a file the events are first put in the order of their ticks; as events at
one tick stay as they are among themselves, the cues can be put in order in their place.

* `Redacted.flatMap_eq`: what a redaction may take out or exchange makes no difference.
* `flatMap_sortOn`: events can be sorted before or after they are brought down to cues.
* `Engine.run_raw`, `Engine.replay_eq_followTimed`: messages and files as their cues.
* `ignored_messages_leave_no_trace`: what is redacted from messages and files is not missed.
-/

namespace Voicing

/-! ### Redactions -/

/-- The second list is the first one with some elements that may be dropped left out, and some
elements in exchange for others. -/
inductive Redacted {α : Type} (drops : α → Prop) (swaps : α → α → Prop) :
    List α → List α → Prop where
  | nil : Redacted drops swaps [] []
  | keep (x : α) {xs ys : List α} :
      Redacted drops swaps xs ys → Redacted drops swaps (x :: xs) (x :: ys)
  | drop {x : α} {xs ys : List α} :
      drops x → Redacted drops swaps xs ys → Redacted drops swaps (x :: xs) ys
  | swap {x y : α} {xs ys : List α} :
      swaps x y → Redacted drops swaps xs ys → Redacted drops swaps (x :: xs) (y :: ys)

theorem Redacted.flatMap_eq {α β : Type} {drops : α → Prop} {swaps : α → α → Prop}
    {xs ys : List α} (redacted : Redacted drops swaps xs ys) {f : α → List β}
    (dropped : ∀ x, drops x → f x = []) (swapped : ∀ x y, swaps x y → f x = f y) :
    xs.flatMap f = ys.flatMap f := by
  induction redacted with
  | nil => rfl
  | keep x _ ih => rw [List.flatMap_cons, List.flatMap_cons, ih]
  | drop may _ ih => rw [List.flatMap_cons, dropped _ may, List.nil_append, ih]
  | swap may _ ih => rw [List.flatMap_cons, List.flatMap_cons, swapped _ _ may, ih]

/-! ### Sorting what elements are made of -/

section Sorting

variable {α β : Type} {key : α → Nat} {part : β → Nat}

theorem mem_of_filter_eq {xs ys : List α}
    (same : ∀ k, (xs.filter fun a => key a = k) = ys.filter fun a => key a = k) {a : α}
    (mem : a ∈ xs) : a ∈ ys := by
  have inside : a ∈ xs.filter fun b => key b = key a :=
    List.mem_filter.mpr ⟨mem, decide_eq_true rfl⟩
  rw [same] at inside
  exact (List.mem_filter.mp inside).1

/-- Sorted lists are equal if they have the same elements of every key, in the same order. -/
theorem eq_of_filter_eq {xs ys : List α} (sorted : xs.Pairwise fun a b => key a ≤ key b)
    (also : ys.Pairwise fun a b => key a ≤ key b)
    (same : ∀ k, (xs.filter fun a => key a = k) = ys.filter fun a => key a = k) : xs = ys := by
  have first {z : α} {zs : List α} (sorted : (z :: zs).Pairwise fun a b => key a ≤ key b) {a : α}
      (mem : a ∈ z :: zs) : key z ≤ key a := by
    rcases List.mem_cons.mp mem with rfl | later
    · exact Nat.le_refl _
    · exact List.rel_of_pairwise_cons sorted later
  induction xs generalizing ys with
  | nil =>
      symm
      rw [List.eq_nil_iff_forall_not_mem]
      intro y mem
      exact List.not_mem_nil (mem_of_filter_eq (fun k => (same k).symm) mem)
  | cons x xs ih =>
      cases ys with
      | nil => exact absurd (mem_of_filter_eq same List.mem_cons_self) List.not_mem_nil
      | cons y ys =>
          -- Each head is somewhere in the other list, so neither has the lower key.
          have tied : key y = key x := by
            have le := first also (mem_of_filter_eq same List.mem_cons_self)
            have ge := first sorted
              (mem_of_filter_eq (fun k => (same k).symm) (List.mem_cons_self (a := y)))
            exact Nat.le_antisymm le ge
          have heads := same (key x)
          rw [List.filter_cons_of_pos (by simp), List.filter_cons_of_pos (by simp [tied])] at heads
          obtain ⟨rfl, -⟩ := List.cons.inj heads
          refine congrArg (List.cons x) (ih sorted.of_cons also.of_cons ?_)
          intro k
          have tails := same k
          rw [List.filter_cons, List.filter_cons] at tails
          split at tails
          · exact (List.cons.inj tails).2
          · exact tails

theorem filter_flatMap_of_key {g : α → List β} (tied : ∀ x, ∀ y ∈ g x, part y = key x) (k : Nat)
    (xs : List α) :
    (xs.flatMap g).filter (fun b => part b = k) = (xs.filter fun a => key a = k).flatMap g := by
  induction xs with
  | nil => rfl
  | cons x xs ih =>
      rw [List.flatMap_cons, List.filter_append, ih, List.filter_cons]
      by_cases own : key x = k
      · have all : (g x).filter (fun b => part b = k) = g x := by
          rw [List.filter_eq_self]
          intro y mem
          exact decide_eq_true ((tied x y mem).trans own)
        simp [own, all]
      · have none : (g x).filter (fun b => part b = k) = [] := by
          rw [List.filter_eq_nil_iff]
          intro y mem hit
          exact own ((tied x y mem).symm.trans (of_decide_eq_true hit))
        simp [own, none]

/-- Where each element is made of parts of its own key, the elements can be sorted or the
parts. -/
theorem flatMap_sortOn {g : α → List β} (tied : ∀ x, ∀ y ∈ g x, part y = key x) (xs : List α) :
    (sortOn key xs).flatMap g = sortOn part (xs.flatMap g) := by
  refine eq_of_filter_eq ?_ (pairwise_sortOn part _) ?_
  · rw [List.pairwise_flatMap]
    constructor
    · intro x _
      refine List.pairwise_of_forall_mem_list ?_
      intro y inY z inZ
      exact Nat.le_of_eq ((tied x y inY).trans (tied x z inZ).symm)
    · refine (pairwise_sortOn key xs).imp ?_
      intro a b le y inY z inZ
      rw [tied a y inY, tied b z inZ]
      exact le
  · intro k
    rw [filter_sortOn, filter_flatMap_of_key tied, filter_flatMap_of_key tied, filter_sortOn]

end Sorting

/-! ### Ignored messages -/

/-- The messages that mean nothing to a bank: changes of the program, and what is on another
channel than its own, the first being one. -/
def Bank.Ignores (b : Bank) (m : Midi.ChannelMessage) : Prop :=
  (∃ number, m.message = .program number) ∨
    ∃ c ∈ b.channel, c ≠ 0 ∧ m.channel.val + 1 ≠ c.toNat

/-- Bytes that are no channel message, or one that the bank ignores. -/
def Bank.IgnoresRaw (b : Bank) (bytes : List UInt8) : Prop :=
  ∀ m ∈ Midi.ChannelMessage.ofBytes? bytes, b.Ignores m

/-- Events of a file that are no tempo and no channel message, or a message that the bank
ignores. -/
def Bank.IgnoresScheduled (b : Bank) (s : Midi.Scheduled) : Prop :=
  s.event = .other ∨ ∃ m, s.event = .message m ∧ b.Ignores m

instance (b : Bank) : DecidablePred b.Ignores := fun m =>
  inferInstanceAs (Decidable ((∃ number, m.message = .program number) ∨
    ∃ c ∈ b.channel, c ≠ 0 ∧ m.channel.val + 1 ≠ c.toNat))

instance (b : Bank) : DecidablePred b.IgnoresRaw := fun bytes =>
  inferInstanceAs (Decidable (∀ m ∈ Midi.ChannelMessage.ofBytes? bytes, b.Ignores m))

namespace Midi

/-- A key is let go without velocity, by a note-off or by a note-on. -/
def Message.LetsGo (key : Data) (m : Message) : Prop := m = .noteOff key 0 ∨ m = .noteOn key 0

/-- Two messages on one channel let the same key go without velocity. -/
def ChannelMessage.Alike (m other : ChannelMessage) : Prop :=
  m.channel = other.channel ∧ ∃ key, m.message.LetsGo key ∧ other.message.LetsGo key

def AlikeRaw (bytes others : List UInt8) : Prop :=
  ∃ m ∈ ChannelMessage.ofBytes? bytes, ∃ other ∈ ChannelMessage.ofBytes? others, m.Alike other

/-- Two events at one tick, each with one of two such messages. -/
def Scheduled.Alike (s other : Scheduled) : Prop :=
  s.tick = other.tick ∧ ∃ m n, s.event = .message m ∧ other.event = .message n ∧ m.Alike n

/-- The events of a file at their ticks, track by track. -/
def File.scheduled (f : File) : List Scheduled :=
  match f.arrangement with
  | .sequential => scheduleAll 0 f.tracks
  | .single | .parallel => f.tracks.flatMap (schedule 0)

theorem File.timeline_eq_sortOn (f : File) : f.timeline = sortOn Scheduled.tick f.scheduled := rfl

theorem Message.LetsGo.cues {key : Data} {m : Message} (letsGo : m.LetsGo key) :
    Engine.messageCues m = [.noteOff key.note 0] := by
  have silent : (0 : Data).level = 0 := by decide +kernel
  rcases letsGo with rfl | rfl
  · exact congrArg (fun v => [Cue.noteOff key.note v]) silent
  · rw [Engine.messageCues_noteOn, if_pos rfl]

end Midi

namespace Engine

variable {e : Engine} {b : Bank} {draws : KeyStream} {m other : Midi.ChannelMessage}

/-- The engine of a bank that names a channel hears no other. -/
theorem hears_elsewhere (channel : e.channel = (ofBank b draws).channel) {c : UInt8}
    (named : c ∈ b.channel) (positive : c ≠ 0) {heard : Fin 16}
    (elsewhere : heard.val + 1 ≠ c.toNat) : e.hears heard = false := by
  have above : 0 < c.toNat :=
    Nat.pos_of_ne_zero fun zero => positive (UInt8.toNat_inj.mp zero)
  have below : (c - 1).toNat = c.toNat - 1 :=
    UInt8.toNat_sub_of_le c 1 (UInt8.le_iff_toNat_le.mpr above)
  have apart : c.toNat - 1 ≠ heard.val := by omega
  simp only [hears, channel, ofBank, Option.mem_def.mp named, Option.map_some, if_neg positive,
    Option.all_some, below, beq_eq_false_iff_ne]
  exact apart

theorem channelCues_of_ignores (channel : e.channel = (ofBank b draws).channel)
    (ignored : b.Ignores m) : e.channelCues m = [] := by
  unfold channelCues
  rcases ignored with ⟨number, program⟩ | ⟨c, named, positive, elsewhere⟩
  · rw [program]
    exact ite_self _
  · rw [hears_elsewhere channel named positive elsewhere]
    rfl

theorem channelCues_of_alike (alike : m.Alike other) : e.channelCues m = e.channelCues other := by
  obtain ⟨channel, key, here, there⟩ := alike
  unfold channelCues
  rw [channel, here.cues, there.cues]

theorem rawCues_of_ignores (channel : e.channel = (ofBank b draws).channel) {bytes : List UInt8}
    (ignored : b.IgnoresRaw bytes) : e.rawCues bytes = [] := by
  unfold rawCues
  cases parsed : Midi.ChannelMessage.ofBytes? bytes with
  | none => rfl
  | some m => exact channelCues_of_ignores channel (ignored m parsed)

theorem rawCues_of_alike {bytes others : List UInt8} (alike : Midi.AlikeRaw bytes others) :
    e.rawCues bytes = e.rawCues others := by
  obtain ⟨m, here, other, there, alike⟩ := alike
  unfold rawCues
  rw [Option.mem_def.mp here, Option.mem_def.mp there]
  exact channelCues_of_alike alike

theorem step_rawMessage (e : Engine) (bytes : List UInt8) :
    e.step (.rawMessage bytes) = e.follow (e.rawCues bytes) :=
  rawMessage_eq_follow e bytes

theorem step_of_ignores (channel : e.channel = (ofBank b draws).channel) {bytes : List UInt8}
    (ignored : b.IgnoresRaw bytes) : e.step (.rawMessage bytes) = (e, []) := by
  rw [step_rawMessage, rawCues_of_ignores channel ignored, follow_nil]

theorem step_of_alike {bytes others : List UInt8} (alike : Midi.AlikeRaw bytes others) :
    e.step (.rawMessage bytes) = e.step (.rawMessage others) := by
  rw [step_rawMessage, step_rawMessage, rawCues_of_alike alike]

/-- The messages that are left after a redaction do what all of them do, and the answers that are
missing had no triggers. -/
theorem run_redacted (channel : e.channel = (ofBank b draws).channel)
    {messages others : List (List UInt8)}
    (redacted : Redacted b.IgnoresRaw Midi.AlikeRaw messages others) :
    (e.run (others.map .rawMessage)).1 = (e.run (messages.map .rawMessage)).1 ∧
      Redacted (· = []) (fun _ _ => False) (e.run (messages.map .rawMessage)).2
        (e.run (others.map .rawMessage)).2 := by
  induction redacted generalizing e with
  | nil => exact ⟨rfl, .nil⟩
  | @keep bytes messages others _ ih =>
      obtain ⟨engine, triggers⟩ := ih ((channel_step e (.rawMessage bytes)).trans channel)
      exact ⟨engine, .keep _ triggers⟩
  | @drop bytes messages others may _ ih =>
      obtain ⟨engine, triggers⟩ := ih channel
      rw [List.map_cons, run_cons, step_of_ignores channel may]
      exact ⟨engine, .drop rfl triggers⟩
  | @swap bytes other messages others may _ ih =>
      obtain ⟨engine, triggers⟩ := ih ((channel_step e (.rawMessage bytes)).trans channel)
      rw [List.map_cons, List.map_cons, run_cons, run_cons, ← step_of_alike may]
      exact ⟨engine, .keep _ triggers⟩

/-! ### Replays -/

/-- The cues of an event of a track. -/
def trackCues (e : Engine) : Midi.TrackEvent → List Cue
  | .message m => e.channelCues m
  | .tempo micros => [.tempo (Binary.ofNat micros / 1000000)]
  | .other => []

/-- The cues of an event at its tick. -/
def timedCues (e : Engine) (s : Midi.Scheduled) : List (Nat × Cue) :=
  (e.trackCues s.event).map (Prod.mk s.tick)

/-- The engine after cues at their ticks, and the triggers at these ticks. -/
def followTimed (e : Engine) : List (Nat × Cue) → Engine × List TimedTrigger
  | [] => (e, [])
  | (tick, cue) :: cues =>
    let rest := (e.take cue).1.followTimed cues
    (rest.1, (e.take cue).2.map (TimedTrigger.mk tick) ++ rest.2)

/-- Cues at one tick, and others later. -/
theorem followTimed_append (e : Engine) (tick : Nat) (cues : List Cue) (others : List (Nat × Cue)) :
    e.followTimed (cues.map (Prod.mk tick) ++ others) =
      (((e.follow cues).1.followTimed others).1,
        (e.follow cues).2.map (TimedTrigger.mk tick) ++
          ((e.follow cues).1.followTimed others).2) := by
  induction cues generalizing e with
  | nil => rfl
  | cons cue cues ih =>
      simp only [List.map_cons, List.cons_append, followTimed, ih, follow_cons, List.map_append,
        List.append_assoc]

theorem trackEvent_eq_follow (e : Engine) (event : Midi.TrackEvent) :
    e.trackEvent event = e.follow (e.trackCues event) := by
  cases event with
  | message m => exact message_eq_follow e m
  | tempo micros => exact (follow_singleton e (.tempo (Binary.ofNat micros / 1000000))).symm
  | other => rfl

theorem trackCues_eq_of_channel {f : Engine} (same : e.channel = f.channel) :
    e.trackCues = f.trackCues := by
  funext event
  cases event with
  | message m => exact congrFun (cues_eq_of_channel same) (.message m)
  | _ => rfl

theorem timedCues_eq_of_channel {f : Engine} (same : e.channel = f.channel) :
    e.timedCues = f.timedCues := by
  funext s
  rw [timedCues, timedCues, trackCues_eq_of_channel same]

/-- A timeline does what its cues do at their ticks. -/
theorem replayTimeline_eq_followTimed (e : Engine) (timeline : List Midi.Scheduled) :
    e.replayTimeline timeline = e.followTimed (timeline.flatMap e.timedCues) := by
  induction timeline generalizing e with
  | nil => rfl
  | cons s timeline ih =>
      have later := timedCues_eq_of_channel (channel_follow e (e.trackCues s.event))
      rw [List.flatMap_cons, timedCues, followTimed_append, ← later, ← ih, ← trackEvent_eq_follow]
      rfl

/-- A file does what the cues of its events do, in the order of their ticks. -/
theorem replay_eq_followTimed (e : Engine) (f : Midi.File) :
    e.replay f = e.followTimed (sortOn Prod.fst (f.scheduled.flatMap e.timedCues)) := by
  have tied (s : Midi.Scheduled) (c : Nat × Cue) (mem : c ∈ e.timedCues s) : c.1 = s.tick := by
    obtain ⟨cue, -, rfl⟩ := List.mem_map.mp mem
    rfl
  rw [replay, replayTimeline_eq_followTimed, f.timeline_eq_sortOn, flatMap_sortOn tied]

theorem timedCues_of_ignores (channel : e.channel = (ofBank b draws).channel) {s : Midi.Scheduled}
    (ignored : b.IgnoresScheduled s) : e.timedCues s = [] := by
  unfold timedCues
  rcases ignored with other | ⟨m, message, ignored⟩
  · rw [other]
    rfl
  · rw [message, trackCues, channelCues_of_ignores channel ignored]
    rfl

theorem timedCues_of_alike {s other : Midi.Scheduled} (alike : s.Alike other) :
    e.timedCues s = e.timedCues other := by
  obtain ⟨tick, m, n, here, there, alike⟩ := alike
  unfold timedCues
  rw [tick, here, there, trackCues, channelCues_of_alike alike]
  rfl

end Engine

/-- Messages that are none or that a bank ignores can be left out of any messages, and those
that let a key go without velocity can be exchanged for each other: the engine is the same
afterwards, and so are the triggers. So can they in files in which all other events keep their
ticks, and the triggers are the same at the same ticks. -/
theorem ignored_messages_leave_no_trace (b : Bank) (draws : KeyStream)
    (before : List Engine.Event) :
    let e := ((Engine.ofBank b draws).run before).1
    (∀ messages others, Redacted b.IgnoresRaw Midi.AlikeRaw messages others →
      let all := e.run (messages.map .rawMessage)
      let left := e.run (others.map .rawMessage)
      left.1 = all.1 ∧ left.2.flatten = all.2.flatten ∧
        Redacted (· = []) (fun _ _ => False) all.2 left.2) ∧
    ∀ f g : Midi.File, Redacted b.IgnoresScheduled Midi.Scheduled.Alike f.scheduled g.scheduled →
      e.replay g = e.replay f ∧
        ∀ bytes others, Midi.File.read bytes = .ok f → Midi.File.read others = .ok g →
          e.replayBytes others = e.replayBytes bytes := by
  intro e
  have channel : e.channel = (Engine.ofBank b draws).channel := Engine.channel_run _ _
  constructor
  · intro messages others redacted all left
    obtain ⟨engine, triggers⟩ := Engine.run_redacted channel redacted
    have heard : all.2.flatMap id = left.2.flatMap id :=
      triggers.flatMap_eq (fun _ none => none) fun _ _ never => never.elim
    rw [List.flatMap_id, List.flatMap_id] at heard
    exact ⟨engine, heard.symm, triggers⟩
  · intro f g redacted
    have cues : f.scheduled.flatMap e.timedCues = g.scheduled.flatMap e.timedCues :=
      redacted.flatMap_eq (fun _ => Engine.timedCues_of_ignores channel)
        fun _ _ => Engine.timedCues_of_alike
    have same : e.replay g = e.replay f := by
      rw [Engine.replay_eq_followTimed, Engine.replay_eq_followTimed, cues]
    refine ⟨same, ?_⟩
    intro bytes others parsed also
    rw [Engine.replayBytes, Engine.replayBytes, parsed, also]
    dsimp only
    rw [same]

/-- A bank for the last channel whose first two layers share the draws. -/
def solo : Bank where
  channel := some 16
  layers := [{ draws := ⟨0, 0.5⟩ }, { draws := ⟨0.5, 1⟩ }, { mode := .release }]

def onLast (m : Midi.Message) : Midi.ChannelMessage := ⟨Fin.last 15, m⟩

/-- A key is struck and let go and another one is struck, among a clock, a change of the program,
a note on the first channel and a message that is cut short. -/
def crowded : List (List UInt8) :=
  [[0x9F, 60, 100], [0xF8], [0xCF, 5], [0x90, 62, 90], [0x9F, 60, 0], [0x9F, 64], [0x9F, 67, 80]]

def bareMessages : List (List UInt8) := [[0x9F, 60, 100], [0x8F, 60, 0], [0x9F, 67, 80]]

theorem redacted_crowded : Redacted solo.IgnoresRaw Midi.AlikeRaw crowded bareMessages := by
  have alike : Midi.AlikeRaw [0x9F, 60, 0] [0x8F, 60, 0] :=
    ⟨onLast (.noteOn 60 0), rfl, onLast (.noteOff 60 0), rfl, rfl, 60, .inr rfl, .inl rfl⟩
  refine .keep _ (.drop ?_ (.drop ?_ (.drop ?_ (.swap alike (.drop ?_ (.keep _ .nil)))))) <;>
    decide +kernel

/-- A key that is struck and let go thirty ticks later, with a change of the program in between
and a second track for the first channel. -/
def crowdedFile : Midi.File :=
  ⟨.parallel,
    [[⟨0, .message (onLast (.noteOn 60 100))⟩, ⟨10, .message (onLast (.program 5))⟩,
        ⟨20, .message (onLast (.noteOn 60 0))⟩],
      [⟨5, .message ⟨⟨0, by decide⟩, .noteOn 62 90⟩⟩]]⟩

def bareFile : Midi.File :=
  ⟨.single,
    [[⟨0, .message (onLast (.noteOn 60 100))⟩, ⟨30, .message (onLast (.noteOff 60 0))⟩]]⟩

def crowdedBytes : Midi.Bytes :=
  Midi.ascii "MThd" ++ [0, 0, 0, 6, 0, 1, 0, 2, 0x01, 0xE0] ++
    Midi.ascii "MTrk" ++ [0, 0, 0, 11, 0, 0x9F, 60, 100, 10, 0xCF, 5, 20, 0x9F, 60, 0] ++
    Midi.ascii "MTrk" ++ [0, 0, 0, 4, 5, 0x90, 62, 90]

def bareBytes : Midi.Bytes :=
  Midi.ascii "MThd" ++ [0, 0, 0, 6, 0, 0, 0, 1, 0x01, 0xE0] ++
    Midi.ascii "MTrk" ++ [0, 0, 0, 8, 0, 0x9F, 60, 100, 30, 0x8F, 60, 0]

theorem redacted_crowdedFile :
    Redacted solo.IgnoresScheduled Midi.Scheduled.Alike crowdedFile.scheduled
      bareFile.scheduled := by
  have program : solo.IgnoresScheduled ⟨10, .message (onLast (.program 5))⟩ :=
    .inr ⟨_, rfl, by decide +kernel⟩
  have elsewhere : solo.IgnoresScheduled ⟨5, .message ⟨⟨0, by decide⟩, .noteOn 62 90⟩⟩ :=
    .inr ⟨_, rfl, by decide +kernel⟩
  have alike : Midi.Scheduled.Alike ⟨30, .message (onLast (.noteOn 60 0))⟩
      ⟨30, .message (onLast (.noteOff 60 0))⟩ :=
    ⟨rfl, onLast (.noteOn 60 0), onLast (.noteOff 60 0), rfl, rfl, rfl, 60, .inr rfl, .inl rfl⟩
  exact .keep _ (.drop program (.swap alike (.drop elsewhere .nil)))

/-- Neither the messages nor the file miss what is left out. -/
theorem crowded_messages_are_not_missed :
    let e := ((Engine.ofBank solo (.ofSeed 1)).run [.noteOn 48 0.5]).1
    let all := e.run (crowded.map .rawMessage)
    let left := e.run (bareMessages.map .rawMessage)
    Redacted solo.IgnoresRaw Midi.AlikeRaw crowded bareMessages ∧
      Redacted solo.IgnoresScheduled Midi.Scheduled.Alike crowdedFile.scheduled
        bareFile.scheduled ∧
      left.1 = all.1 ∧ left.2.flatten = all.2.flatten ∧
      left.2.flatten.map (·.report.number) = [60, 60, 67] ∧
      Midi.File.read crowdedBytes = .ok crowdedFile ∧ Midi.File.read bareBytes = .ok bareFile ∧
      e.replayBytes bareBytes = e.replayBytes crowdedBytes ∧
      (e.replay bareFile).2.map (fun t => (t.tick, t.trigger.report.kind)) =
        [(0, .attack), (30, .release)] := by
  intro e all left
  obtain ⟨messages, files⟩ := ignored_messages_leave_no_trace solo (.ofSeed 1) [.noteOn 48 0.5]
  obtain ⟨engine, triggers, -⟩ := messages crowded bareMessages redacted_crowded
  obtain ⟨-, replayed⟩ := files crowdedFile bareFile redacted_crowdedFile
  have parsed : Midi.File.read crowdedBytes = .ok crowdedFile := by decide +kernel
  have also : Midi.File.read bareBytes = .ok bareFile := by decide +kernel
  have numbers : left.2.flatten.map (·.report.number) = [60, 60, 67] := by decide +kernel
  have inOrder : Midi.InOrder bareFile.tracks
      [⟨0, 0, 0, .message (onLast (.noteOn 60 100))⟩,
        ⟨30, 0, 1, .message (onLast (.noteOff 60 0))⟩] :=
    ⟨by decide, by decide⟩
  have ticks : (e.replay bareFile).2.map (fun t => (t.tick, t.trigger.report.kind)) =
      [(0, .attack), (30, .release)] := by
    rw [Engine.replay, Midi.timeline_eq (by decide) inOrder]
    decide +kernel
  exact ⟨redacted_crowded, redacted_crowdedFile, engine, triggers, numbers, parsed, also,
    replayed _ _ parsed also, ticks⟩

end Voicing
