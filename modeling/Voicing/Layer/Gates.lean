import Voicing.Controller

/-!
The gates of a layer.

A layer has one gate per kind of condition, and one for each controller. A gate keeps
its position until an event of its kind moves it; the layer can sound while all are
open. The gates of the controllers are one word with a bit for each of them.
-/

namespace Voicing

/-- One gate for each remembered controller. -/
structure ControllerGates where
  bits : BitVec controllerCount
deriving DecidableEq

namespace ControllerGates

/-- Every gate open. -/
def allOpen : ControllerGates := ⟨BitVec.allOnes _⟩

/-- The position of a gate; controllers that are not remembered have none and never
stand in the way. -/
def isOpen (g : ControllerGates) (c : Controller) : Bool :=
  if c.toNat < controllerCount then g.bits.getLsbD c.toNat else true

/-- Moves the gate of a controller. -/
def set (g : ControllerGates) (c : Controller) (isOpen : Bool) : ControllerGates :=
  if c.toNat < controllerCount then
    let bit : BitVec controllerCount := BitVec.twoPow _ c.toNat
    ⟨if isOpen then g.bits ||| bit else g.bits &&& ~~~bit⟩
  else g

/-- Whether no gate is closed. -/
def areOpen (g : ControllerGates) : Bool := g.bits == BitVec.allOnes _

theorem isOpen_allOpen (c : Controller) : allOpen.isOpen c = true := by
  simp [allOpen, isOpen]

/-- Moving a gate moves no other. -/
theorem isOpen_set (g : ControllerGates) (c d : Controller) (isOpen : Bool) :
    (g.set c isOpen).isOpen d =
      if c = d ∧ c.toNat < controllerCount then isOpen else g.isOpen d := by
  unfold ControllerGates.isOpen set
  by_cases hc : c.toNat < controllerCount
  · by_cases hd : d.toNat < controllerCount
    · by_cases same : c = d
      · subst same
        cases isOpen <;> simp [hc]
      · have other : d.toNat ≠ c.toNat := fun h => same (UInt16.toNat_inj.mp h).symm
        cases isOpen <;> simp [hc, hd, same, other]
    · have other : c ≠ d := fun h => hd (h ▸ hc)
      simp [hd, other]
  · simp [hc]

/-- The gates of the remembered controllers are the bits of the word, in order. -/
theorem isOpen_ofNat (g : ControllerGates) {i : Nat} (inside : i < controllerCount) :
    g.isOpen (UInt16.ofNat i) = g.bits.getLsbD i := by
  have value : (UInt16.ofNat i).toNat = i :=
    UInt16.toNat_ofNat_of_lt' (Nat.lt_trans inside (by decide))
  unfold isOpen
  rw [value, if_pos inside]

/-- All gates are open if each of them is. -/
theorem areOpen_iff {g : ControllerGates} :
    g.areOpen = true ↔ ∀ c, g.isOpen c = true := by
  constructor
  · intro h c
    unfold areOpen at h
    unfold isOpen
    simp [eq_of_beq h]
  · intro h
    unfold areOpen
    rw [beq_iff_eq]
    apply BitVec.eq_of_getLsbD_eq
    intro i inside
    rw [← g.isOpen_ofNat inside, h, BitVec.getLsbD_allOnes, decide_eq_true inside]

end ControllerGates

/-- The gates of a layer. -/
structure Gates where
  key : Bool
  previousKey : Bool
  sequence : Bool
  bend : Bool
  tempo : Bool
  aftertouch : Bool
  controllers : ControllerGates
deriving DecidableEq

/-- Whether no gate is closed. -/
def Gates.areOpen (g : Gates) : Bool :=
  g.key && g.previousKey && g.sequence && g.bend && g.tempo && g.aftertouch
    && g.controllers.areOpen

end Voicing
