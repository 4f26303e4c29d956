import Voicing.Layer.Held
import Mathlib.Data.Multiset.AddSub

/-!
Held releases as a bag.

Whatever is pushed, removed and cleared, held releases are a bag of at most
`HeldReleases.capacity` entries: a push adds one entry as long as there is room, a removal takes out
one entry of the note and keeps every other, and the order in which the entries are shown says only
which entry of a note comes out first.

A bag can be stored in a fixed row of slots of which the first few count. Removing an entry swaps it
with the last that counts and clearing forgets them all, so that left-over entries lie beyond; what
the slots answer does not depend on them.

* `HeldReleases.perm_swapOut`: an entry that is swapped out is the only one to go.
* `HeldReleases.onBag_apply`: one operation, on the bag and on the list in which it is shown.
* `ReleaseSlots.held_apply`: one operation, in slots and on the list of those that count.
* `held_releases_are_a_bag`: both after any operations.
-/

namespace Voicing

namespace HeldReleases

variable {h : HeldReleases} {n : Note} {r : Release}

/-! ### Operations -/

/-- What can be done with held releases. -/
inductive Operation where
  | push (release : Release)
  | remove (note : Note)
  | clear

/-- What is answered to an operation: whether there was room, or which release was taken out. -/
inductive Outcome where
  | pushed (room : Bool)
  | removed (release : Option Release)
  | cleared
deriving DecidableEq

/-- The releases held after an operation, and what is answered. -/
def apply (h : HeldReleases) : Operation → HeldReleases × Outcome
  | .push r => (h.push r, .pushed (h.push? r).isSome)
  | .remove n => (h.remove n, .removed ((h.remove? n).map (·.1)))
  | .clear => (.empty, .cleared)

/-- The releases held after a run of operations, and what is answered to each. -/
def run (h : HeldReleases) : List Operation → HeldReleases × List Outcome
  | [] => (h, [])
  | op :: ops =>
    (((h.apply op).1.run ops).1, (h.apply op).2 :: ((h.apply op).1.run ops).2)

/-- The releases that are held, in whatever order. -/
def bag (h : HeldReleases) : Multiset Release := h.toList

/-- What an operation makes of a bag, and what is answered. Of several releases of one note that
which is shown first comes out. -/
def Operation.onBag (shown : List Release) (bag : Multiset Release) :
    Operation → Multiset Release × Outcome
  | .push r =>
    if bag.card < 128 then (r ::ₘ bag, .pushed true) else (bag, .pushed false)
  | .remove n =>
    match shown.find? (·.note == n) with
    | some r => (bag.erase r, .removed (some r))
    | none => (bag, .removed none)
  | .clear => (0, .cleared)

/-- The bag after a run of operations, and what is answered to each. The releases held by then are
asked for their order, and for nothing else. -/
def bagRun (h : HeldReleases) (bag : Multiset Release) :
    List Operation → Multiset Release × List Outcome
  | [] => (bag, [])
  | op :: ops =>
    let rest := (h.apply op).1.bagRun (op.onBag h.toList bag).1 ops
    (rest.1, (op.onBag h.toList bag).2 :: rest.2)

/-! ### One operation -/

theorem eq_of_toList {k : HeldReleases} (same : h.toList = k.toList) : h = k := by
  cases h
  cases k
  cases same
  rfl

/-- Of the releases in a list only the one that is swapped out goes. -/
theorem perm_swapOut {rs : List Release} {i : Nat} (inside : i < rs.length) :
    rs.Perm (rs[i] :: swapOut rs i) := by
  obtain ⟨front, last, rfl⟩ : ∃ front last, rs = front ++ [last] := by
    refine (List.eq_nil_or_concat' rs).resolve_left ?_
    rintro rfl
    exact absurd inside (Nat.not_lt_zero i)
  rw [List.length_append, List.length_singleton] at inside
  unfold swapOut
  rw [List.getLast?_concat]
  dsimp only
  by_cases early : i < front.length
  · rw [List.set_append_left _ _ early, List.dropLast_concat, List.getElem_append_left early]
    calc front ++ [last]
      _ |>.Perm (last :: front) := List.perm_append_singleton last front
      _ |>.Perm (last :: front[i] :: front.eraseIdx i) :=
        (front.getElem_cons_eraseIdx_perm early).symm.cons last
      _ |>.Perm (front[i] :: last :: front.eraseIdx i) := .swap _ _ _
      _ |>.Perm (front[i] :: front.set i last) :=
        (front.set_perm_cons_eraseIdx early last).symm.cons front[i]
  · -- The last release is put into its own place.
    obtain rfl : i = front.length := by omega
    rw [List.set_append_right _ _ (Nat.le_refl _), Nat.sub_self, List.set_cons_zero,
      List.dropLast_concat, List.getElem_concat_length rfl]
    exact List.perm_append_singleton last front

theorem isSome_push? : (h.push? r).isSome = decide (h.size < capacity) := by
  unfold push? size capacity
  split <;> simp [*]

theorem remove?_at {i : Nat} (inside : i < h.toList.length)
    (index : h.toList.findIdx? (·.note == n) = some i) :
    ∃ rest, h.remove? n = some (h.toList[i], rest) ∧ rest.toList = swapOut h.toList i := by
  unfold remove?
  rw [index]
  dsimp only
  rw [List.getElem?_eq_getElem inside]
  exact ⟨_, rfl, rfl⟩

theorem remove?_of_missing (missing : h.toList.find? (·.note == n) = none) :
    h.remove? n = none := by
  rw [remove?_eq_none_iff, ← Bool.not_eq_true, holds_iff]
  rintro ⟨r, held, note⟩
  exact List.find?_eq_none.mp missing r held (beq_iff_eq.mpr note)

/-- The first release of a note comes out, and no other. -/
theorem remove?_of_found (found : h.toList.find? (·.note == n) = some r) :
    ∃ rest, h.remove? n = some (r, rest) ∧ h.toList.Perm (r :: rest.toList) := by
  obtain ⟨note, i, inside, rfl, earlier⟩ := List.find?_eq_some_iff_getElem.mp found
  have index : h.toList.findIdx? (·.note == n) = some i := by
    refine List.findIdx?_eq_some_iff_getElem.mpr ⟨inside, note, ?_⟩
    intro j before
    simpa using earlier j before
  obtain ⟨rest, removed, left⟩ := remove?_at inside index
  exact ⟨rest, removed, left ▸ perm_swapOut inside⟩

/-- An operation does to the bag what it does to the releases that are shown. -/
theorem onBag_apply (h : HeldReleases) (op : Operation) :
    op.onBag h.toList h.bag = ((h.apply op).1.bag, (h.apply op).2) := by
  cases op with
  | push r =>
      have card : h.bag.card = h.size := Multiset.coe_card _
      unfold Operation.onBag apply
      dsimp only
      rw [card, isSome_push?]
      change (if h.size < capacity then (r ::ₘ h.bag, Outcome.pushed true)
        else (h.bag, Outcome.pushed false)) = _
      by_cases room : h.size < capacity
      · have added : (h.push r).bag = r ::ₘ h.bag := by
          unfold bag
          rw [toList_push, if_pos room]
          exact Multiset.coe_eq_coe.mpr (List.perm_append_singleton r _)
        rw [if_pos room, added, decide_eq_true room]
      · have kept : (h.push r).bag = h.bag := by
          unfold bag
          rw [toList_push, if_neg room]
        rw [if_neg room, kept, decide_eq_false room]
  | remove n =>
      unfold Operation.onBag apply
      dsimp only
      cases found : h.toList.find? (·.note == n) with
      | none =>
          have missing := remove?_of_missing found
          unfold remove
          rw [missing]
          rfl
      | some r =>
          obtain ⟨rest, removed, perm⟩ := remove?_of_found found
          have bag : h.bag = r ::ₘ rest.bag := Multiset.coe_eq_coe.mpr perm
          unfold remove
          rw [removed, bag]
          dsimp only
          rw [Multiset.erase_cons_head]
          rfl
  | clear => rfl

/-- A removal answers with the first release of the note. -/
theorem removed_iff (h : HeldReleases) :
    (h.apply (.remove n)).2 = .removed (some r) ↔ h.toList.find? (·.note == n) = some r := by
  unfold apply
  dsimp only
  cases found : h.toList.find? (·.note == n) with
  | none => rw [remove?_of_missing found]; simp
  | some first =>
      obtain ⟨rest, removed, -⟩ := remove?_of_found found
      rw [removed]
      simp

/-- The release that a removal answers with is the only one that goes. -/
theorem bag_of_removed (h : HeldReleases) (answer : (h.apply (.remove n)).2 = .removed (some r)) :
    r.note = n ∧ h.bag = r ::ₘ (h.apply (.remove n)).1.bag := by
  have found := h.removed_iff.mp answer
  obtain ⟨rest, removed, perm⟩ := remove?_of_found found
  have note := List.find?_some found
  rw [beq_iff_eq] at note
  refine ⟨note, ?_⟩
  unfold apply remove
  dsimp only
  rw [removed]
  exact Multiset.coe_eq_coe.mpr perm

/-- What is refused changes nothing. -/
theorem apply_of_refused (h : HeldReleases) {op : Operation}
    (refused : (h.apply op).2 = .pushed false ∨ (h.apply op).2 = .removed none) :
    (h.apply op).1 = h := by
  cases op with
  | push r =>
      have full : h.push? r = none := by simpa [apply] using refused
      unfold apply push
      dsimp only
      rw [full]
      rfl
  | remove n =>
      have missing : h.remove? n = none := by simpa [apply] using refused
      unfold apply remove
      dsimp only
      rw [missing]
  | clear => simp [apply] at refused

theorem bagRun_eq (h : HeldReleases) (ops : List Operation) :
    h.bagRun h.bag ops = ((h.run ops).1.bag, (h.run ops).2) := by
  induction ops generalizing h with
  | nil => rfl
  | cons op ops ih =>
      rw [bagRun, onBag_apply]
      dsimp only
      rw [ih]
      rfl

end HeldReleases

/-! ### Slots -/

/-- A row of slots, of which the first `count` hold a release. What lies beyond is left over. -/
structure ReleaseSlots where
  slots : Vector Release noteCount
  count : Nat
  count_le : count ≤ noteCount

namespace ReleaseSlots

open HeldReleases (Operation Outcome)

variable {s : ReleaseSlots} {r : Release} {n : Note}

/-- No slot holds a release. -/
def empty : ReleaseSlots := ⟨.replicate _ ⟨0, 0⟩, 0, Nat.zero_le _⟩

/-- The releases in the slots that count. -/
def toList (s : ReleaseSlots) : List Release := s.slots.toList.take s.count

theorem length_toList (s : ReleaseSlots) : s.toList.length = s.count := by
  rw [toList, List.length_take, Vector.length_toList, Nat.min_eq_left s.count_le]

/-- The releases in the slots that count, as they are held. -/
def held (s : ReleaseSlots) : HeldReleases := ⟨s.toList, s.length_toList ▸ s.count_le⟩

/-- Fills the next slot, if there is one. -/
def push (s : ReleaseSlots) (r : Release) : ReleaseSlots × Bool :=
  if room : s.count < noteCount then (⟨s.slots.set s.count r, s.count + 1, room⟩, true)
  else (s, false)

theorem index_lt {i : Nat} (found : s.toList.findIdx? (·.note == n) = some i) :
    i < s.count := by
  obtain ⟨inside, -⟩ := List.findIdx?_eq_some_iff_getElem.mp found
  rwa [length_toList] at inside

/-- Swaps the first release of a note with the last release, and counts one less. -/
def remove (s : ReleaseSlots) (n : Note) : ReleaseSlots × Option Release :=
  match found : s.toList.findIdx? (·.note == n) with
  | none => (s, none)
  | some i =>
    have inside : i < noteCount := Nat.lt_of_lt_of_le (index_lt found) s.count_le
    have last : s.count - 1 < noteCount :=
      Nat.lt_of_lt_of_le (Nat.sub_one_lt_of_lt (index_lt found)) s.count_le
    (⟨s.slots.swap i (s.count - 1), s.count - 1, Nat.le_of_lt last⟩, some s.slots[i])

/-- The slots after an operation, and what is answered. Clearing forgets what is in them. -/
def apply (s : ReleaseSlots) : Operation → ReleaseSlots × Outcome
  | .push r => ((s.push r).1, .pushed (s.push r).2)
  | .remove n => ((s.remove n).1, .removed (s.remove n).2)
  | .clear => ({ s with count := 0, count_le := Nat.zero_le _ }, .cleared)

/-- The slots after a run of operations, and what is answered to each. -/
def run (s : ReleaseSlots) : List Operation → ReleaseSlots × List Outcome
  | [] => (s, [])
  | op :: ops =>
    (((s.apply op).1.run ops).1, (s.apply op).2 :: ((s.apply op).1.run ops).2)

theorem toList_push (room : s.count < noteCount) : (s.push r).1.toList = s.toList ++ [r] := by
  have inside : s.count < (s.slots.toList.set s.count r).length := by
    rwa [List.length_set, Vector.length_toList]
  have filled : (s.push r).1 = ⟨s.slots.set s.count r, s.count + 1, room⟩ :=
    congrArg Prod.fst (dif_pos room)
  rw [filled]
  unfold toList
  dsimp only
  rw [Vector.toList_set, List.take_succ_eq_append_getElem inside, List.getElem_set_self,
    List.take_set, List.set_eq_of_length_le]
  exact Nat.le_of_eq s.length_toList

theorem remove_of_missing (missing : s.toList.findIdx? (·.note == n) = none) :
    s.remove n = (s, none) := by
  unfold remove
  split
  · rfl
  · next i found => exact absurd (found.symm.trans missing) (Option.some_ne_none _)

theorem toList_remove_of_found {i : Nat} (found : s.toList.findIdx? (·.note == n) = some i) :
    (s.remove n).2 = s.toList[i]? ∧ (s.remove n).1.toList = HeldReleases.swapOut s.toList i := by
  have inside := index_lt found
  have few := s.count_le
  unfold remove
  split
  · next missing => exact absurd (found.symm.trans missing) (Option.some_ne_none _)
  · next j index =>
    obtain rfl := Option.some.inj (found.symm.trans index)
    constructor
    · unfold toList
      rw [List.getElem?_take_of_lt inside]
      simp
    · have place : s.count - 1 < s.slots.toList.length := by
        rw [Vector.length_toList]
        omega
      have last : s.toList.getLast? = some s.slots[s.count - 1] := by
        rw [List.getLast?_eq_getElem?, s.length_toList, toList,
          List.getElem?_take_of_lt (by omega), List.getElem?_eq_getElem place,
          Vector.getElem_toList]
      unfold HeldReleases.swapOut
      rw [last]
      dsimp only
      -- The slot that no longer counts is the one that the release was swapped into.
      rw [List.dropLast_eq_take, List.length_set, s.length_toList]
      unfold toList
      dsimp only
      rw [Vector.toList_swap, List.take_set, List.take_set, List.take_set, List.take_take,
        Nat.min_eq_left (Nat.sub_le _ _)]
      refine List.set_eq_of_length_le ?_
      rw [List.length_set, List.length_take]
      exact Nat.min_le_left _ _

/-- An operation does in the slots what it does to the releases in them. -/
theorem held_apply (s : ReleaseSlots) (op : Operation) :
    (s.apply op).1.held = (s.held.apply op).1 ∧ (s.apply op).2 = (s.held.apply op).2 := by
  cases op with
  | push r =>
      have size : s.held.size = s.count := s.length_toList
      unfold apply HeldReleases.apply
      dsimp only
      rw [HeldReleases.isSome_push?, size]
      by_cases room : s.count < noteCount
      · refine ⟨HeldReleases.eq_of_toList ?_, ?_⟩
        · rw [HeldReleases.toList_push, size]
          exact (s.toList_push room).trans (if_pos room).symm
        · unfold push
          rw [dif_pos room]
          exact congrArg Outcome.pushed (decide_eq_true room).symm
      · have full : s.push r = (s, false) := dif_neg room
        rw [full]
        refine ⟨HeldReleases.eq_of_toList ?_, congrArg Outcome.pushed (decide_eq_false room).symm⟩
        rw [HeldReleases.toList_push, size]
        exact (if_neg room).symm
  | remove n =>
      unfold apply HeldReleases.apply HeldReleases.remove
      dsimp only
      cases index : s.toList.findIdx? (·.note == n) with
      | none =>
          have missing : s.held.remove? n = none := by
            refine HeldReleases.remove?_of_missing ?_
            rw [List.find?_eq_none]
            intro r mem
            exact Bool.eq_false_iff.mp (List.findIdx?_eq_none_iff.mp index r mem)
          rw [missing, remove_of_missing index]
          exact ⟨rfl, rfl⟩
      | some i =>
          have inside : i < s.toList.length := s.length_toList ▸ index_lt index
          obtain ⟨rest, removed, left⟩ := HeldReleases.remove?_at (h := s.held) inside index
          obtain ⟨answer, list⟩ := toList_remove_of_found index
          rw [removed, answer, List.getElem?_eq_getElem inside]
          exact ⟨HeldReleases.eq_of_toList (list.trans left.symm), rfl⟩
  | clear => exact ⟨rfl, rfl⟩

theorem held_run (s : ReleaseSlots) (ops : List Operation) :
    (s.run ops).1.held = (s.held.run ops).1 ∧ (s.run ops).2 = (s.held.run ops).2 := by
  induction ops generalizing s with
  | nil => exact ⟨rfl, rfl⟩
  | cons op ops ih =>
      obtain ⟨now, outcome⟩ := s.held_apply op
      obtain ⟨later, outcomes⟩ := ih (s.apply op).1
      rw [now] at later outcomes
      exact ⟨later, congrArg₂ List.cons outcome outcomes⟩

end ReleaseSlots

/-- Releases that were held, let go and forgotten in any order. There are never more of them than
there is room for, and they are, in the order in which they are shown, the bag that the same
operations make, with the same answers. What is removed is the first release shown of its note,
every other stays, and an operation that is refused changes nothing. The questions that can be asked
are answered as the bag would answer them. In a row of slots the same operations leave the same
releases and give the same answers, and two rows that show the same releases never come to differ in
what they show or answer, whatever lies in the slots that do not count. -/
theorem held_releases_are_a_bag (ops : List HeldReleases.Operation) :
    let h := (HeldReleases.empty.run ops).1
    let s := (ReleaseSlots.empty.run ops).1
    h.size ≤ 128 ∧
      HeldReleases.empty.bagRun 0 ops = (h.bag, (HeldReleases.empty.run ops).2) ∧
      (∀ n r, (h.apply (.remove n)).2 = .removed (some r) ↔
        h.toList.find? (·.note == n) = some r) ∧
      (∀ n r, (h.apply (.remove n)).2 = .removed (some r) →
        r.note = n ∧ h.bag = r ::ₘ (h.apply (.remove n)).1.bag) ∧
      (∀ op, (h.apply op).2 = .pushed false ∨ (h.apply op).2 = .removed none →
        (h.apply op).1 = h) ∧
      ((∀ n, h.holds n = true ↔ ∃ r ∈ h.bag, r.note = n) ∧ h.size = h.bag.card ∧
        (h.isEmpty = true ↔ h.bag = 0)) ∧
      (s.toList = h.toList ∧ s.count = h.size ∧
        (ReleaseSlots.empty.run ops).2 = (HeldReleases.empty.run ops).2) ∧
      ∀ t u : ReleaseSlots, t.toList = u.toList → ∀ more,
        (t.run more).1.toList = (u.run more).1.toList ∧ (t.run more).2 = (u.run more).2 := by
  intro h s
  obtain ⟨stored, answers⟩ := ReleaseSlots.empty.held_run ops
  have shown : s.toList = h.toList := congrArg HeldReleases.toList stored
  refine ⟨h.length_le, HeldReleases.bagRun_eq .empty ops, fun n r => h.removed_iff,
    fun n r => h.bag_of_removed, fun op => h.apply_of_refused, ⟨fun n => ?_, ?_, ?_⟩,
    ⟨shown, ?_, answers⟩, ?_⟩
  · exact HeldReleases.holds_iff
  · exact (Multiset.coe_card _).symm
  · exact HeldReleases.isEmpty_iff.trans (Multiset.coe_eq_zero h.toList).symm
  · rw [← s.length_toList, shown]
    rfl
  · intro t u same more
    obtain ⟨left, outcomes⟩ := t.held_run more
    obtain ⟨left', outcomes'⟩ := u.held_run more
    have held : t.held = u.held := HeldReleases.eq_of_toList same
    rw [held] at left outcomes
    exact ⟨congrArg HeldReleases.toList (left.trans left'.symm), outcomes.trans outcomes'.symm⟩

/-- A note is held twice and another once; the first is removed. -/
def heldTwice : List HeldReleases.Operation :=
  [.push ⟨60, 0.25⟩, .push ⟨62, 0.5⟩, .push ⟨60, 1⟩, .remove 60]

/-- The earlier release of the note comes out, and the later one takes its place. What is left over
in the slots has no say in what comes after. -/
theorem left_over_release_is_not_held :
    let h := (HeldReleases.empty.run heldTwice).1
    let t := (ReleaseSlots.empty.run heldTwice).1
    let u := (ReleaseSlots.empty.run [.push ⟨60, 1⟩, .push ⟨62, 0.5⟩]).1
    h.toList = [⟨60, 1⟩, ⟨62, 0.5⟩] ∧
      h.bag = ⟨62, 0.5⟩ ::ₘ (h.apply (.remove 62)).1.bag ∧ (h.apply (.remove 61)).1 = h ∧
      t.slots ≠ u.slots ∧ t.toList = u.toList ∧
      (t.run [.push ⟨64, 1⟩, .remove 60]).2 = (u.run [.push ⟨64, 1⟩, .remove 60]).2 := by
  intro h t u
  obtain ⟨-, -, -, removed, refused, -, -, alike⟩ := held_releases_are_a_bag heldTwice
  have same : t.toList = u.toList := by decide +kernel
  refine ⟨by decide +kernel, ?_, refused (.remove 61) (.inr (by decide +kernel)),
    by decide +kernel, same, (alike t u same _).2⟩
  exact (removed 62 ⟨62, 0.5⟩ (by decide +kernel)).2

end Voicing
