import Voicing.Proofs.Attacks
import Mathlib.Data.List.Chain

/-!
Layers that share the draws between them.

The layers of a bank can be the same but for the slice of the draws that each has for its own.
If the slices follow each other from zero to one, every draw is in exactly one of them, and a
draw of one or more, which there never is, would be in the last. So on every note one of the
layers attacks, if a layer attacks that has all the draws to itself. The layers do not count the
same turns meanwhile, but with a round of one turn that makes no difference.

* `Rises.exists_owner`: of slices between rising bounds, exactly one owns a draw.
* `Engine.Abreast.attacksOf_slice`: a slice of a layer attacks as the whole layer, if it owns the
  draw.
* `slices_share_attacks`: so the slices are the whole layer, shared out draw by draw.
-/

namespace Voicing

/-! ### The order of numbers -/

namespace Binary

variable {f : Format} {x y z : Binary f}

theorem le_of_lt (lt : x < y) : x ≤ y := by
  obtain ⟨a, b, keyX, keyY, below⟩ := lt_iff.mp lt
  exact le_iff.mpr ⟨a, b, keyX, keyY, Int.le_of_lt below⟩

theorem le_self (le : x ≤ y) : x ≤ x := by
  obtain ⟨a, -, keyX, -⟩ := le_iff.mp le
  exact le_iff.mpr ⟨a, a, keyX, keyX, Int.le_refl a⟩

theorem le_trans (first : x ≤ y) (second : y ≤ z) : x ≤ z := by
  obtain ⟨a, b, keyX, keyY, ab⟩ := le_iff.mp first
  obtain ⟨b', c, keyY', keyZ, bc⟩ := le_iff.mp second
  obtain rfl : b = b' := Option.some.inj (keyY.symm.trans keyY')
  exact le_iff.mpr ⟨a, c, keyX, keyZ, Int.le_trans ab bc⟩

theorem lt_of_lt_of_le (first : x < y) (second : y ≤ z) : x < z := by
  obtain ⟨a, b, keyX, keyY, ab⟩ := lt_iff.mp first
  obtain ⟨b', c, keyY', keyZ, bc⟩ := le_iff.mp second
  obtain rfl : b = b' := Option.some.inj (keyY.symm.trans keyY')
  exact lt_iff.mpr ⟨a, c, keyX, keyZ, Int.lt_of_lt_of_le ab bc⟩

theorem not_lt_of_le (le : x ≤ y) : ¬ y < x := by
  intro lt
  obtain ⟨a, b, keyX, keyY, ab⟩ := le_iff.mp le
  obtain ⟨b', a', keyY', keyX', ba⟩ := lt_iff.mp lt
  obtain rfl : a = a' := Option.some.inj (keyX.symm.trans keyX')
  obtain rfl : b = b' := Option.some.inj (keyY.symm.trans keyY')
  exact absurd ab (Int.not_le.mpr ba)

/-- Of two bounds that are compared with something at all, one is below the other. -/
theorem lt_or_le (left : z ≤ x) (right : z ≤ y) : x < y ∨ y ≤ x := by
  obtain ⟨-, a, -, keyX, -⟩ := le_iff.mp left
  obtain ⟨-, b, -, keyY, -⟩ := le_iff.mp right
  rcases Int.lt_or_le a b with below | above
  · exact .inl (lt_iff.mpr ⟨a, b, keyX, keyY, below⟩)
  · exact .inr (le_iff.mpr ⟨b, a, keyY, keyX, above⟩)

instance : Trans (α := Binary f) (· < ·) (· < ·) (· < ·) where
  trans first second := lt_of_lt_of_le first (le_of_lt second)

end Binary

/-! ### Slices -/

/-- Whether a draw is in a slice. Draws are below one, so a slice that ends at one or later
also owns everything from one on. -/
def Interval.owns (slice : Interval Single) (r : Single) : Bool :=
  slice.contains r || (decide (1 ≤ r) && slice.isOrdered && decide (1 ≤ slice.high))

theorem Layer.acceptsDraw_eq (l : Layer) (r : Single) :
    l.acceptsDraw r = l.settings.draws.owns r := rfl

/-- A slice that ends at one owns all that is not below it, and any other slice what is between
its bounds. -/
theorem Interval.owns_iff {slice : Interval Single} {r : Single} (rises : slice.low < slice.high)
    (inside : slice.high ≤ 1) (drawn : 0 ≤ r) :
    slice.owns r = true ↔ slice.low ≤ r ∧ (r < slice.high ∨ 1 ≤ slice.high) := by
  have whole : (0 : Single) ≤ 1 := by decide
  simp only [owns, Bool.or_eq_true, Bool.and_eq_true, decide_eq_true_eq, contains_iff,
    isOrdered_iff]
  constructor
  · rintro (⟨low, high⟩ | ⟨⟨above, -⟩, ends⟩)
    · exact ⟨low, .inl high⟩
    · exact ⟨Binary.le_of_lt (Binary.lt_of_lt_of_le rises (Binary.le_trans inside above)),
        .inr ends⟩
  · rintro ⟨low, high | ends⟩
    · exact .inl ⟨low, high⟩
    · have bound : 0 ≤ slice.high := Binary.le_trans whole ends
      rcases Binary.lt_or_le drawn bound with below | above
      · exact .inl ⟨low, below⟩
      · exact .inr ⟨⟨Binary.le_trans ends above, Binary.le_of_lt rises⟩, ends⟩

/-- Bounds that rise from zero to one. -/
structure Rises (bounds : List Single) : Prop where
  chain : bounds.IsChain (· < ·)
  from_zero : ∃ low, bounds.head? = some low ∧ low.sameValue 0 = true
  to_one : ∃ high, bounds.getLast? = some high ∧ high.sameValue 1 = true

/-- A slice between two neighbouring bounds. -/
def IsSlice (bounds : List Single) (k : Nat) (slice : Interval Single) : Prop :=
  bounds[k]? = some slice.low ∧ bounds[k + 1]? = some slice.high

theorem Binary.sameValue_iff {f : Format} {x y : Binary f} :
    x.sameValue y = true ↔ x ≤ y ∧ y ≤ x := by
  simp [sameValue]

/-- Some slice begins at or below a draw and ends above it, or at the last of the bounds. -/
theorem exists_slice {rest : List Single} {low r : Single}
    (chain : (low :: rest).IsChain (· < ·)) (more : rest ≠ []) (above : low ≤ r) :
    ∃ k slice, IsSlice (low :: rest) k slice ∧ slice.low ≤ r ∧
      (r < slice.high ∨ (low :: rest).getLast? = some slice.high) := by
  induction rest generalizing low with
  | nil => exact absurd rfl more
  | cons high rest ih =>
      obtain ⟨rises, chain⟩ := List.isChain_cons_cons.mp chain
      rcases Binary.lt_or_le above (Binary.le_of_lt rises) with below | beyond
      · exact ⟨0, ⟨low, high⟩, ⟨rfl, rfl⟩, above, .inl below⟩
      · cases rest with
        | nil => exact ⟨0, ⟨low, high⟩, ⟨rfl, rfl⟩, above, .inr rfl⟩
        | cons next rest =>
            obtain ⟨k, slice, between, inside⟩ := ih chain (List.cons_ne_nil _ _) beyond
            rw [← List.getLast?_cons_cons (a := low)] at inside
            exact ⟨k + 1, slice, between, inside⟩

namespace Rises

variable {bounds : List Single} (rises : Rises bounds)
include rises

/-- Bounds further on are higher. -/
theorem lt_of_lt {i j : Nat} {x y : Single} (at_i : bounds[i]? = some x)
    (at_j : bounds[j]? = some y) (lt : i < j) : x < y := by
  obtain ⟨_, rfl⟩ := List.getElem?_eq_some_iff.mp at_i
  obtain ⟨_, rfl⟩ := List.getElem?_eq_some_iff.mp at_j
  exact List.pairwise_iff_getElem.mp rises.chain.pairwise _ _ _ _ lt

theorem le_one {i : Nat} {x : Single} (at_i : bounds[i]? = some x) : x ≤ 1 := by
  obtain ⟨high, last, one⟩ := rises.to_one
  have le_one := (Binary.sameValue_iff.mp one).1
  obtain ⟨below, -⟩ := List.getElem?_eq_some_iff.mp at_i
  rw [List.getLast?_eq_getElem?] at last
  rcases Nat.lt_or_ge i (bounds.length - 1) with before | at_end
  · exact Binary.le_trans (Binary.le_of_lt (rises.lt_of_lt at_i last before)) le_one
  · obtain rfl : i = bounds.length - 1 := by omega
    rw [last] at at_i
    exact Option.some.inj at_i ▸ le_one

theorem le_of_le {i j : Nat} {x y : Single} (at_i : bounds[i]? = some x)
    (at_j : bounds[j]? = some y) (le : i ≤ j) : x ≤ y := by
  rcases Nat.lt_or_eq_of_le le with lt | rfl
  · exact Binary.le_of_lt (rises.lt_of_lt at_i at_j lt)
  · obtain rfl : x = y := Option.some.inj (at_i.symm.trans at_j)
    exact Binary.le_self (rises.le_one at_i)

/-- A slice that owns a draw begins at or below it, and only the last slice ends there. -/
theorem owns_iff {k : Nat} {slice : Interval Single} (between : IsSlice bounds k slice) {r : Single}
    (drawn : 0 ≤ r) :
    slice.owns r = true ↔ slice.low ≤ r ∧ (r < slice.high ∨ 1 ≤ slice.high) :=
  Interval.owns_iff (rises.lt_of_lt between.1 between.2 (Nat.lt_succ_self k))
    (rises.le_one between.2) drawn

/-- Two slices do not own the same draw. -/
theorem not_owns_of_lt {j k : Nat} (lt : j < k) {slice other : Interval Single}
    (between : IsSlice bounds j slice) (beyond : IsSlice bounds k other) {r : Single}
    (drawn : 0 ≤ r) (owns : slice.owns r = true) : other.owns r = false := by
  rw [Bool.eq_false_iff]
  intro also
  obtain ⟨-, ends⟩ := (rises.owns_iff between drawn).mp owns
  obtain ⟨low, -⟩ := (rises.owns_iff beyond drawn).mp also
  have apart : slice.high < other.high :=
    rises.lt_of_lt between.2 beyond.2 (Nat.succ_lt_succ lt)
  rcases ends with below | one
  · have starts : slice.high ≤ other.low := rises.le_of_le between.2 beyond.1 lt
    exact Binary.not_lt_of_le (Binary.le_trans starts low) below
  · exact Binary.not_lt_of_le (Binary.le_trans (rises.le_one beyond.2) one) apart

/-- Of slices between rising bounds exactly one owns a draw, also a draw of one or more. -/
theorem exists_owner {r : Single} (drawn : 0 ≤ r) :
    ∃ k slice, IsSlice bounds k slice ∧ slice.owns r = true ∧
      ∀ j other, IsSlice bounds j other → j ≠ k → other.owns r = false := by
  obtain ⟨low, first, zero⟩ := rises.from_zero
  obtain ⟨high, last, one⟩ := rises.to_one
  obtain ⟨rest, rfl⟩ := List.head?_eq_some_iff.mp first
  have more : rest ≠ [] := by
    rintro rfl
    obtain rfl : low = high := Option.some.inj last
    have zero_lt_one : (0 : Single) < 1 := by decide
    have one_le_zero := Binary.le_trans (Binary.sameValue_iff.mp one).2
      (Binary.sameValue_iff.mp zero).1
    exact Binary.not_lt_of_le one_le_zero zero_lt_one
  have above : low ≤ r := Binary.le_trans (Binary.sameValue_iff.mp zero).1 drawn
  obtain ⟨k, slice, between, starts, ends⟩ := exists_slice rises.chain more above
  have owns : slice.owns r = true := by
    refine (rises.owns_iff between drawn).mpr ⟨starts, ends.imp_right ?_⟩
    intro at_end
    rw [last] at at_end
    exact Option.some.inj at_end ▸ (Binary.sameValue_iff.mp one).2
  refine ⟨k, slice, between, owns, ?_⟩
  intro j other elsewhere different
  rcases Nat.lt_or_gt_of_ne different with before | after
  · rw [Bool.eq_false_iff]
    intro also
    rw [rises.not_owns_of_lt before elsewhere between drawn also] at owns
    exact Bool.false_ne_true owns
  · exact rises.not_owns_of_lt after between elsewhere drawn owns

end Rises

/-! ### Slices of a layer -/

/-- The settings with a name and a slice of the draws of their own. -/
def Settings.sliced (s : Settings) (name : Option String) (slice : Interval Single) : Settings :=
  { s with name := name, draws := slice }

/-- Layers of a bank that share the draws between them. They have these settings, but each has
its own name and the slice at its place in the list, between two neighbours of bounds that rise
from zero to one. -/
structure Bank.Slices (b : Bank) (s : Settings) (bounds : List Single) (places : List Nat) :
    Prop where
  rises : Rises bounds
  length : bounds.length = places.length + 1
  member : ∀ k place, places[k]? = some place → ∃ name slice,
    IsSlice bounds k slice ∧ b.layers[place]? = some (s.sliced name slice)

/-- Every draw belongs to one of the layers that share them. -/
theorem Bank.Slices.exists_owner {b : Bank} {s : Settings} {bounds : List Single}
    {places : List Nat} (slices : b.Slices s bounds places) {r : Single} (drawn : 0 ≤ r) :
    ∃ place ∈ places,
      (∃ name slice, b.layers[place]? = some (s.sliced name slice) ∧ slice.owns r = true) ∧
      ∀ other ∈ places, other ≠ place →
        ∃ name slice, b.layers[other]? = some (s.sliced name slice) ∧ slice.owns r = false := by
  obtain ⟨k, slice, between, owns, others⟩ := slices.rises.exists_owner drawn
  obtain ⟨inside, -⟩ := List.getElem?_eq_some_iff.mp between.2
  rw [slices.length] at inside
  have at_k := List.getElem?_eq_getElem (Nat.lt_of_succ_lt_succ inside)
  obtain ⟨name, own, between', listed⟩ := slices.member k _ at_k
  have same : own = slice := by
    cases own
    cases slice
    rw [Interval.mk.injEq]
    exact ⟨Option.some.inj (between'.1.symm.trans between.1),
      Option.some.inj (between'.2.symm.trans between.2)⟩
  refine ⟨_, List.mem_of_getElem? at_k, ⟨name, own, listed, same ▸ owns⟩, ?_⟩
  intro other mem different
  obtain ⟨j, at_j⟩ := List.mem_iff_getElem?.mp mem
  obtain ⟨name, slice', elsewhere, listed⟩ := slices.member j other at_j
  refine ⟨name, slice', listed, others j slice' elsewhere ?_⟩
  rintro rfl
  exact different (Option.some.inj (at_j.symm.trans at_k))

namespace Engine

variable {e f : Engine} {s : Settings} {l w : Layer}

/-- A layer with a slice of the draws attacks as the layer with all of them, if the draw is in
its slice. -/
theorem Abreast.attacksOf_slice {i j : Nat} (abreast : Abreast i j e f)
    (here : e.layers[i]? = some l) (there : f.layers[j]? = some w)
    (length : s.sequenceLength = 1) (position : s.sequencePosition = 1)
    {name other : Option String} {slice : Interval Single}
    (sliced : l.settings = s.sliced name slice) (whole : w.settings = s.sliced other ⟨0, 1⟩)
    (event : Event) :
    attacksOf i (e.step event).2 =
      if slice.owns e.draws.draw then attacksOf j (f.step event).2 else [] := by
  have turn : l.isOwnTurn = w.isOwnTurn := by
    rw [Layer.isOwnTurn_of_single (sliced ▸ length) (sliced ▸ position),
      Layer.isOwnTurn_of_single (whole ▸ length) (whole ▸ position)]
  have accepts : w.settings.AcceptsDraws := Settings.acceptsDraws_of_whole (whole ▸ rfl)
  have drawn : w.acceptsDraw f.draws.draw = true := Layer.acceptsDraw_draw accepts f.draws
  have asks (m : Memory) : l.modeAsks m = w.modeAsks m := by
    unfold Layer.modeAsks
    rw [sliced, whole]
    rfl
  have admits (m : Memory) (n : Note) (v : Single) : l.admits m n v e.draws.draw =
      (slice.owns e.draws.draw && w.admits m n v f.draws.draw) := by
    unfold Layer.admits Layer.acceptsNote Layer.heardVelocity
    rw [drawn, Layer.acceptsDraw_eq, sliced, whole]
    simp only [Settings.sliced]
    ac_rfl
  refine abreast.attacksOf_eq_ite here there turn ?_
  intro n v _
  rw [admits, asks, Bool.and_assoc]

end Engine

/-- Layers that share the draws between them are one layer when it comes to attacks. Every
draw, and also what is above all draws, is accepted by exactly one of them; and on every event
of every run one of them attacks as a layer does that has the same settings and all the draws,
alone or in any bank that listens to the same channel, while the others do not attack. -/
theorem slices_share_attacks (b c : Bank) (s : Settings) (bounds : List Single)
    (places : List Nat) (slices : b.Slices s bounds places) (length : s.sequenceLength = 1)
    (position : s.sequencePosition = 1) (channel : b.channel = c.channel) (whole : Nat)
    (name : Option String) (listed : c.layers[whole]? = some (s.sliced name ⟨0, 1⟩))
    (draws others : KeyStream) (before : List Engine.Event) :
    let among := ((Engine.ofBank b draws).run before).1
    let beside := ((Engine.ofBank c others).run before).1
    (∀ r : Single, 0 ≤ r →
      ∃! place, place ∈ places ∧ ∃ l, among.layers[place]? = some l ∧ l.acceptsDraw r = true) ∧
    ∀ event,
      (attacksOf whole (beside.step event).2).length ≤ 1 ∧
      ∃ place ∈ places,
        attacksOf place (among.step event).2 = attacksOf whole (beside.step event).2 ∧
        ∀ other ∈ places, other ≠ place → attacksOf other (among.step event).2 = [] := by
  intro among beside
  have standing {place : Nat} {t : Settings} (at_place : b.layers[place]? = some t) :
      ∃ l, among.layers[place]? = some l ∧ l.settings = t :=
    Engine.exists_layer_run b draws before at_place
  constructor
  · intro r drawn
    obtain ⟨place, mem, ⟨name, slice, at_place, owns⟩, rest⟩ := slices.exists_owner drawn
    obtain ⟨l, stands, settings⟩ := standing at_place
    refine ⟨place, ⟨mem, l, stands, ?_⟩, ?_⟩
    · rw [Layer.acceptsDraw_eq, settings]
      exact owns
    · rintro other ⟨mem, k, stands, accepts⟩
      by_contra different
      obtain ⟨name, slice, at_other, refuses⟩ := rest other mem different
      obtain ⟨k', stands', settings⟩ := standing at_other
      obtain rfl : k' = k := Option.some.inj (stands'.symm.trans stands)
      rw [Layer.acceptsDraw_eq, settings] at accepts
      exact Bool.false_ne_true (refuses.symm.trans accepts)
  · intro event
    refine ⟨beside.length_attacksOf_step_le event whole, ?_⟩
    have share {place : Nat} {own : Option String} {slice : Interval Single}
        (at_place : b.layers[place]? = some (s.sliced own slice)) :
        attacksOf place (among.step event).2 =
          if slice.owns among.draws.draw then attacksOf whole (beside.step event).2 else [] := by
      have start : Engine.Abreast place whole (Engine.ofBank b draws) (Engine.ofBank c others) :=
        Engine.abreast_ofBank channel draws others (by rw [at_place, listed]; rfl)
      obtain ⟨l, here, sliced⟩ := standing at_place
      obtain ⟨w, there, unsliced⟩ := Engine.exists_layer_run c others before listed
      exact (start.run before).attacksOf_slice here there length position sliced unsliced event
    obtain ⟨place, mem, ⟨own, slice, at_place, owns⟩, rest⟩ :=
      slices.exists_owner among.draws.draw_mem.1
    refine ⟨place, mem, ?_, ?_⟩
    · rw [share at_place, if_pos owns]
    · intro other mem_other different
      obtain ⟨own', slice', at_other, refuses⟩ := rest other mem_other different
      rw [share at_other, refuses]
      rfl

/-- A layer that sounds while another note is held. -/
def tremolo : Settings := { mode := .legato }

/-- One note in four is struck by the first layer and the others by the last one; the layer
between them takes draws of its own. -/
def scatter : Bank where
  layers := [tremolo.sliced (some "rare") ⟨0.75, 1⟩, { mode := .release },
    tremolo.sliced (some "usual") ⟨0, 0.75⟩]

theorem slices_scatter : scatter.Slices tremolo [0, 0.75, 1] [2, 0] where
  rises := ⟨by decide, ⟨0, rfl, by decide⟩, ⟨1, rfl, by decide⟩⟩
  length := rfl
  member k place at_k := by
    match k with
    | 0 =>
        cases at_k
        exact ⟨some "usual", ⟨0, 0.75⟩, ⟨rfl, rfl⟩, rfl⟩
    | 1 =>
        cases at_k
        exact ⟨some "rare", ⟨0.75, 1⟩, ⟨rfl, rfl⟩, rfl⟩
    | k + 2 => exact absurd at_k (by simp)

/-- Two notes are struck, and one of them ends under the sustain pedal, which is lifted. -/
def flurry : List Engine.Event :=
  [.noteOn 60 0.5, .noteOn 64 0.25, .controller .sustain 1, .noteOff 60 0, .controller .sustain 0]

/-- One of the two layers strikes the next note, and it is not struck twice. -/
theorem scattered_note_is_struck_once :
    let among := ((Engine.ofBank scatter (.ofSeed 1)).run flurry).1
    let beside := ((Engine.ofBank ⟨none, some 7, [tremolo.sliced none ⟨0, 1⟩]⟩
      (.ofSeed 2)).run flurry).1
    let triggers := (among.step (.noteOn 67 0.5)).2
    scatter.Slices tremolo [0, 0.75, 1] [2, 0] ∧
      attacksOf 0 (beside.step (.noteOn 67 0.5)).2 = [⟨.attack, 67, 0.5⟩] ∧
      (∃ place ∈ [2, 0], attacksOf place triggers = [⟨.attack, 67, 0.5⟩] ∧
        ∀ other ∈ [2, 0], other ≠ place → attacksOf other triggers = []) ∧
      ∃! place, place ∈ [2, 0] ∧ ∃ l, among.layers[place]? = some l ∧ l.acceptsDraw 1 = true := by
  intro among beside triggers
  obtain ⟨draws, attacks⟩ := slices_share_attacks scatter
    ⟨none, some 7, [tremolo.sliced none ⟨0, 1⟩]⟩ tremolo [0, 0.75, 1] [2, 0] slices_scatter rfl rfl
    rfl 0 none rfl (.ofSeed 1) (.ofSeed 2) flurry
  have struck : attacksOf 0 (beside.step (.noteOn 67 0.5)).2 = [⟨.attack, 67, 0.5⟩] := by
    decide +kernel
  obtain ⟨-, share⟩ := attacks (.noteOn 67 0.5)
  rw [struck] at share
  exact ⟨slices_scatter, struck, share, draws 1 (by decide)⟩

end Voicing
