import Voicing.Controller
import Voicing.Binary

/-!
Releases held back by a pedal.

`HeldReleases` is a bag of at most `HeldReleases.capacity` releases in a visible order:
`push` appends and refuses when the bag is full, `remove` takes out the first release of
a note and moves the last one into its place.
-/

namespace Voicing

/-- A release that a pedal holds back, with the velocity its note was struck with. -/
structure Release where
  note : Note
  velocity : Single
deriving DecidableEq

/-- A bag of held releases. -/
structure HeldReleases where
  toList : List Release
  length_le : toList.length ≤ noteCount
deriving DecidableEq

namespace HeldReleases

/-- The most releases a bag holds. -/
def capacity : Nat := noteCount

/-- The bag with nothing in it. -/
def empty : HeldReleases := ⟨[], Nat.zero_le _⟩

instance : Inhabited HeldReleases := ⟨empty⟩

/-- How many releases are held. -/
def size (h : HeldReleases) : Nat := h.toList.length

def isEmpty (h : HeldReleases) : Bool := h.toList.isEmpty

/-- Whether a release of the note is held. -/
def holds (h : HeldReleases) (n : Note) : Bool := h.toList.any (·.note == n)

/-- Adds a release at the end, or answers `none` if there is no room. -/
def push? (h : HeldReleases) (r : Release) : Option HeldReleases :=
  if room : h.toList.length < noteCount then
    some ⟨h.toList ++ [r], by rw [List.length_append]; exact room⟩
  else none

/-- Adds a release at the end; without room it is lost. -/
def push (h : HeldReleases) (r : Release) : HeldReleases := (h.push? r).getD h

/-- The list with the entry at `i` replaced by the last one, which leaves the end. -/
def swapOut (rs : List Release) (i : Nat) : List Release :=
  match rs.getLast? with
  | some last => (rs.set i last).dropLast
  | none => []

theorem length_swapOut_le (rs : List Release) (i : Nat) :
    (swapOut rs i).length ≤ rs.length := by
  unfold swapOut
  split <;> simp

/-- Takes out the first release of a note. -/
def remove? (h : HeldReleases) (n : Note) : Option (Release × HeldReleases) :=
  match h.toList.findIdx? (·.note == n) with
  | none => none
  | some i =>
    match h.toList[i]? with
    | none => none
    | some r =>
      some (r, ⟨swapOut h.toList i, Nat.le_trans (length_swapOut_le _ _) h.length_le⟩)

/-- The bag without the first release of a note, if there is one. -/
def remove (h : HeldReleases) (n : Note) : HeldReleases :=
  match h.remove? n with
  | some (_, rest) => rest
  | none => h

@[simp] theorem toList_empty : empty.toList = [] := rfl

@[simp] theorem isEmpty_iff {h : HeldReleases} : h.isEmpty = true ↔ h.toList = [] := by
  simp [isEmpty]

theorem holds_iff {h : HeldReleases} {n : Note} :
    h.holds n = true ↔ ∃ r ∈ h.toList, r.note = n := by
  simp [holds]

/-- A release is appended exactly when there is room. -/
theorem toList_push (h : HeldReleases) (r : Release) :
    (h.push r).toList = if h.size < capacity then h.toList ++ [r] else h.toList := by
  unfold push push? size capacity
  split <;> simp

theorem push?_eq_none_iff {h : HeldReleases} {r : Release} :
    h.push? r = none ↔ h.size = capacity := by
  have := h.length_le
  unfold push? size capacity
  split <;> simp <;> omega

/-- Nothing is removed exactly when no release of the note is held. -/
theorem remove?_eq_none_iff {h : HeldReleases} {n : Note} :
    h.remove? n = none ↔ h.holds n = false := by
  unfold remove? holds
  split
  · next none_found => simpa using none_found
  · next i found =>
    obtain ⟨bound, here, _⟩ := List.findIdx?_eq_some_iff_getElem.mp found
    have held : h.toList.any (·.note == n) = true :=
      List.any_eq_true.mpr ⟨_, List.getElem_mem bound, here⟩
    simp [held, bound]

end HeldReleases

end Voicing
