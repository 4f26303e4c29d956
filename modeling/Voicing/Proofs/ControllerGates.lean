import Voicing.Layer.Gates
import Mathlib.Data.List.Induction

/-!
The gates of the controllers, moved again and again.

A gate is where its last move put it, and open if nothing ever moved it; nothing else is to be known
about the gates. They can be read in words of 64 bits, and moving a gate sets or clears one bit in
one of the words.

* `ControllerGates.isOpen_moveAll`: each gate, after any moves.
* `ControllerGates.eq_iff_isOpen`: gates are equal if every remembered controller's gate is.
* `ControllerGates.word_set`, `ControllerGates.getLsbD_moveBit`: one move, in words and in bits.
* `gates_keep_last_moves`: all of that after any moves of gates that were all open.
-/

namespace Voicing

namespace ControllerGates

variable {g h : ControllerGates} {c : Controller}

/-! ### Moves -/

/-- A controller, and whether its gate is opened or closed. -/
abbrev Move := Controller × Bool

/-- The gates after moves, in order. -/
def moveAll (g : ControllerGates) (moves : List Move) : ControllerGates :=
  moves.foldl (fun g move => g.set move.1 move.2) g

/-- What the last move of a controller's gate did, if any moved it. -/
def lastMove? (moves : List Move) (c : Controller) : Option Bool :=
  ((moves.filter (·.1 == c)).getLast?).map (·.2)

theorem moveAll_concat (moves : List Move) (move : Move) :
    g.moveAll (moves ++ [move]) = (g.moveAll moves).set move.1 move.2 := by
  simp [moveAll]

theorem lastMove?_concat (moves : List Move) (move : Move) :
    lastMove? (moves ++ [move]) c = if move.1 = c then some move.2 else lastMove? moves c := by
  unfold lastMove?
  rw [List.filter_append]
  by_cases own : move.1 = c
  · simp [own]
  · simp [own]

/-- The gate of a remembered controller is where its last move put it. -/
theorem isOpen_moveAll (inside : c.toNat < controllerCount) (moves : List Move) :
    (g.moveAll moves).isOpen c = (lastMove? moves c).getD (g.isOpen c) := by
  induction moves using List.reverseRecOn with
  | nil => rfl
  | append_singleton moves move ih =>
      rw [moveAll_concat, isOpen_set, ih, lastMove?_concat]
      by_cases own : move.1 = c
      · rw [if_pos ⟨own, own ▸ inside⟩, if_pos own]
        rfl
      · rw [if_neg fun both => own both.1, if_neg own]

/-- Controllers that are not remembered have no gate to move. -/
theorem set_of_beyond (beyond : controllerCount ≤ c.toNat) (isOpen : Bool) :
    g.set c isOpen = g := if_neg (Nat.not_lt_of_le beyond)

/-- Gates are equal if the gate of every remembered controller is. -/
theorem eq_iff_isOpen :
    g = h ↔ ∀ c : Controller, c.toNat < controllerCount → g.isOpen c = h.isOpen c := by
  constructor
  · rintro rfl c -
    rfl
  · intro same
    have bits : g.bits = h.bits := by
      apply BitVec.eq_of_getLsbD_eq
      intro i inside
      rw [← g.isOpen_ofNat inside, ← h.isOpen_ofNat inside]
      refine same _ ?_
      rwa [UInt16.toNat_ofNat_of_lt' (Nat.lt_trans inside (by decide))]
    cases g
    cases h
    exact congrArg mk bits

theorem areOpen_iff_of_remembered :
    g.areOpen = true ↔ ∀ c : Controller, c.toNat < controllerCount → g.isOpen c = true := by
  rw [areOpen_iff]
  constructor
  · exact fun all c _ => all c
  · intro remembered c
    by_cases inside : c.toNat < controllerCount
    · exact remembered c inside
    · exact if_neg inside

/-! ### Words -/

/-- The number of words that the gates take. -/
def wordCount : Nat := controllerCount / 64

/-- The gates of 64 controllers in succession, as one word. -/
def word (g : ControllerGates) (k : Nat) : UInt64 := .ofBitVec (g.bits.extractLsb' (64 * k) 64)

/-- The bit of a controller in its word. -/
def mask (c : Controller) : UInt64 := 1 <<< UInt64.ofNat (c.toNat % 64)

/-- A word with the bit of a controller set or cleared. -/
def moveBit (word : UInt64) (c : Controller) (isOpen : Bool) : UInt64 :=
  if isOpen then word ||| mask c else word &&& ~~~mask c

theorem getLsbD_word {k j : Nat} (low : j < 64) :
    (g.word k).toBitVec.getLsbD j = g.bits.getLsbD (64 * k + j) := by
  simp [word, low]

theorem toBitVec_mask (c : Controller) : (mask c).toBitVec = BitVec.twoPow 64 (c.toNat % 64) := by
  have small : c.toNat % 64 < 64 := Nat.mod_lt _ (by decide)
  have amount : ((UInt64.ofNat (c.toNat % 64)).toBitVec % 64).toNat = c.toNat % 64 := by
    have fits : c.toNat % 64 % 2 ^ 64 = c.toNat % 64 := Nat.mod_eq_of_lt (by omega)
    rw [BitVec.toNat_umod, UInt64.toNat_toBitVec, UInt64.toNat_ofNat', fits]
    exact Nat.mod_eq_of_lt small
  unfold mask
  rw [UInt64.toBitVec_shiftLeft, BitVec.twoPow_eq, BitVec.shiftLeft_eq', amount]
  rfl

/-- Moving a bit moves no other bit of the word. -/
theorem getLsbD_moveBit {word : UInt64} {isOpen : Bool} {j : Nat} (low : j < 64) :
    (moveBit word c isOpen).toBitVec.getLsbD j =
      if j = c.toNat % 64 then isOpen else word.toBitVec.getLsbD j := by
  unfold moveBit
  cases isOpen with
  | true => simp [toBitVec_mask, low, Bool.or_comm]
  | false => simp [toBitVec_mask, low, Bool.and_comm]

theorem getLsbD_set (inside : c.toNat < controllerCount) (isOpen : Bool) (i : Nat) :
    (g.set c isOpen).bits.getLsbD i = if i = c.toNat then isOpen else g.bits.getLsbD i := by
  unfold set
  rw [if_pos inside]
  by_cases own : i = c.toNat
  · subst own
    cases isOpen <;> simp [inside]
  · cases isOpen with
    | true => simp [own, Ne.symm own]
    | false => simpa [own, Ne.symm own] using fun set => BitVec.lt_of_getLsbD set

/-- Moving a gate moves its bit in its word, and no other word. -/
theorem word_set (inside : c.toNat < controllerCount) (isOpen : Bool) (k : Nat) :
    (g.set c isOpen).word k =
      if k = c.toNat / 64 then moveBit (g.word k) c isOpen else g.word k := by
  apply UInt64.eq_of_toBitVec_eq
  apply BitVec.eq_of_getLsbD_eq
  intro j low
  rw [getLsbD_word low, getLsbD_set inside]
  by_cases own : k = c.toNat / 64
  · have place : 64 * k + j = c.toNat ↔ j = c.toNat % 64 := by omega
    rw [if_pos own, getLsbD_moveBit low, getLsbD_word low]
    simp only [place]
  · have other : 64 * k + j ≠ c.toNat := by omega
    rw [if_neg own, if_neg other, getLsbD_word low]

/-- Gates are equal if their words are. -/
theorem eq_iff_word : g = h ↔ ∀ k, k < wordCount → g.word k = h.word k := by
  constructor
  · rintro rfl k -
    rfl
  · intro same
    refine eq_iff_isOpen.mpr ?_
    intro c inside
    have word : c.toNat / 64 < wordCount := Nat.div_lt_of_lt_mul inside
    have bit : c.toNat % 64 < 64 := Nat.mod_lt _ (by decide)
    have read (g : ControllerGates) :
        g.isOpen c = (g.word (c.toNat / 64)).toBitVec.getLsbD (c.toNat % 64) := by
      rw [getLsbD_word bit, Nat.div_add_mod]
      exact if_pos inside
    rw [read g, read h, same _ word]

/-- All gates are open if all bits of all words are set. -/
theorem areOpen_iff_word : g.areOpen = true ↔ ∀ k, k < wordCount → g.word k = ~~~0 := by
  have full (k : Nat) (few : k < wordCount) : allOpen.word k = ~~~0 := by
    apply UInt64.eq_of_toBitVec_eq
    apply BitVec.eq_of_getLsbD_eq
    intro j low
    have inside : 64 * k + j < controllerCount := by
      unfold wordCount controllerCount at few
      unfold controllerCount
      omega
    have ones : (~~~0 : UInt64).toBitVec = BitVec.allOnes 64 := rfl
    rw [getLsbD_word low, ones, allOpen, BitVec.getLsbD_allOnes, BitVec.getLsbD_allOnes,
      decide_eq_true inside, decide_eq_true low]
  have all : g.areOpen = true ↔ g = allOpen := by
    rw [areOpen_iff_of_remembered, eq_iff_isOpen]
    simp only [isOpen_allOpen]
  rw [all, eq_iff_word]
  constructor
  · intro same k few
    rw [same k few, full k few]
  · intro same k few
    rw [same k few, full k few]

end ControllerGates

/-- Gates that were all open, after any moves. All of them are open exactly if no remembered
controller was last closed; a controller that is not remembered changes nothing; and two runs of
moves lead to the same exactly if each remembered controller was last put in the same position by
both, a gate that was never moved being open. In words, a move sets or clears one bit of one word,
all gates are open exactly if every bit of every word is set, and gates are equal exactly if their
words are. -/
theorem gates_keep_last_moves (moves others : List ControllerGates.Move) :
    let g := ControllerGates.allOpen.moveAll moves
    let h := ControllerGates.allOpen.moveAll others
    (g.areOpen = true ↔ ∀ c : Controller, c.toNat < controllerCount →
        ControllerGates.lastMove? moves c ≠ some false) ∧
      (∀ (c : Controller) (isOpen : Bool), controllerCount ≤ c.toNat → g.set c isOpen = g) ∧
      (g = h ↔ ∀ c : Controller, c.toNat < controllerCount →
        (ControllerGates.lastMove? moves c).getD true =
          (ControllerGates.lastMove? others c).getD true) ∧
      (∀ (c : Controller) (isOpen : Bool) (k : Nat), c.toNat < controllerCount →
        (g.set c isOpen).word k =
          if k = c.toNat / 64 then ControllerGates.moveBit (g.word k) c isOpen else g.word k) ∧
      (g.areOpen = true ↔ ∀ k, k < ControllerGates.wordCount → g.word k = ~~~0) ∧
      (g = h ↔ ∀ k, k < ControllerGates.wordCount → g.word k = h.word k) := by
  intro g h
  have position {c : Controller} (inside : c.toNat < controllerCount)
      (moves : List ControllerGates.Move) : (ControllerGates.allOpen.moveAll moves).isOpen c =
        (ControllerGates.lastMove? moves c).getD true := by
    rw [ControllerGates.isOpen_moveAll inside, ControllerGates.isOpen_allOpen]
  refine ⟨?_, fun c isOpen beyond => ControllerGates.set_of_beyond beyond isOpen, ?_,
    fun c isOpen k inside => ControllerGates.word_set inside isOpen k,
    ControllerGates.areOpen_iff_word, ControllerGates.eq_iff_word⟩
  · rw [ControllerGates.areOpen_iff_of_remembered]
    refine forall_congr' fun c => forall_congr' fun inside => ?_
    rw [position inside]
    cases ControllerGates.lastMove? moves c <;> simp
  · rw [ControllerGates.eq_iff_isOpen]
    refine forall_congr' fun c => forall_congr' fun inside => ?_
    rw [position inside, position inside]

/-- A gate is closed and opened again, after one beside it was opened for nothing. -/
def reopening : List ControllerGates.Move := [(511, false), (510, true), (511, true)]

/-- Only until the last move is a gate closed; a controller beyond the remembered ones then changes
nothing, and the last one of the second word changes that word only. -/
theorem reopened_gates_are_open :
    let g := ControllerGates.allOpen.moveAll reopening
    (ControllerGates.allOpen.moveAll (reopening.take 2)).areOpen = false ∧ g.areOpen = true ∧
      ControllerGates.lastMove? reopening 511 ≠ some false ∧ g.set 512 false = g ∧
      (g.set 127 false).word 1 = ControllerGates.moveBit (g.word 1) 127 false ∧
      (g.set 127 false).word 2 = g.word 2 := by
  intro g
  obtain ⟨last, beyond, -, words, -⟩ := gates_keep_last_moves reopening []
  have opened : g.areOpen = true := by decide +kernel
  exact ⟨by decide +kernel, opened, last.mp opened 511 (by decide), beyond 512 false (by decide),
    (words 127 false 1 (by decide)).trans (if_pos (by decide)),
    (words 127 false 2 (by decide)).trans (if_neg (by decide))⟩

end Voicing
