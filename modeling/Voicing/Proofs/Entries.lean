import Voicing.Bank.Settings

/-!
The entry that counts.

The conditions and the triggers of a layer are lists of entries, each of them a controller and a
range. Nothing keeps a list from naming a controller twice; the entry that is listed first is then
the one that counts.

* `Settings.rangeOf?_eq_some_iff`: looked up is the range of the first entry for a controller.
* `Settings.firstListed_of_distinct`: where no controller is named twice, that is any entry.
-/

namespace Voicing

namespace Settings

variable {s : Settings} {entries : List ControllerRange} {c : Controller} {range : Interval Single}

/-- The range is that of the first entry for a controller: no entry before it names the
controller. -/
def FirstListed (entries : List ControllerRange) (c : Controller) (range : Interval Single) :
    Prop :=
  ∃ before after, entries = before ++ ⟨c, range⟩ :: after ∧
    ∀ entry ∈ before, entry.controller ≠ c

/-- What is looked up for a controller is the range of its first entry. -/
theorem rangeOf?_eq_some_iff : rangeOf? entries c = some range ↔ FirstListed entries c range := by
  unfold rangeOf?
  rw [Option.map_eq_some_iff]
  constructor
  · rintro ⟨⟨d, found⟩, first, rfl⟩
    obtain ⟨own, before, after, split, others⟩ := List.find?_eq_some_iff_append.mp first
    obtain rfl : d = c := eq_of_beq own
    refine ⟨before, after, split, ?_⟩
    intro entry mem
    simpa using others entry mem
  · rintro ⟨before, after, split, others⟩
    refine ⟨⟨c, range⟩, List.find?_eq_some_iff_append.mpr ⟨beq_self_eq_true c, ?_⟩, rfl⟩
    refine ⟨before, after, split, ?_⟩
    intro entry mem
    simpa using others entry mem

theorem condition?_eq_some_iff : s.condition? c = some range ↔ FirstListed s.conditions c range :=
  rangeOf?_eq_some_iff

theorem trigger?_eq_some_iff : s.trigger? c = some range ↔ FirstListed s.triggers c range :=
  rangeOf?_eq_some_iff

theorem FirstListed.mem (first : FirstListed entries c range) : ⟨c, range⟩ ∈ entries := by
  obtain ⟨before, after, rfl, -⟩ := first
  exact List.mem_append_right _ List.mem_cons_self

/-- Where no controller is named twice, every entry is the first one for its controller. -/
theorem firstListed_of_distinct (distinct : (entries.map (·.controller)).Nodup)
    {entry : ControllerRange} (listed : entry ∈ entries) :
    FirstListed entries entry.controller entry.range := by
  obtain ⟨before, after, rfl⟩ := List.append_of_mem listed
  refine ⟨before, after, rfl, ?_⟩
  intro other mem same
  rw [List.map_append, List.map_cons] at distinct
  obtain ⟨-, -, apart⟩ := List.nodup_append.mp distinct
  exact apart _ (List.mem_map_of_mem mem) _ List.mem_cons_self same

/-- A value meets the condition on a controller if the range of the first one listed has it;
without any, every value does. -/
theorem meets_condition?_iff {v : Single} :
    ((s.condition? c).map (·.includes v)).getD true = true ↔
      ∀ range, FirstListed s.conditions c range → range.includes v = true := by
  simp only [← condition?_eq_some_iff]
  cases s.condition? c <;> simp

/-- A layer that lists a trigger listens to controllers, unless it is told not to. -/
theorem onController_of_firstListed (first : FirstListed s.triggers c range) :
    s.onController = true ↔ s.onController? ≠ some false := by
  have some_listed : s.triggers.isEmpty = false := by
    obtain ⟨before, after, split, -⟩ := first
    rw [split]
    simp
  unfold onController
  rw [some_listed]
  cases s.onController? with
  | none => simp
  | some may => simp

/-- A value triggers a layer that has not been told to ignore controllers if it is in the first
trigger range listed for its controller. -/
theorem triggers_iff {v : Single} :
    (s.onController && ((s.trigger? c).map (·.includes v)).getD false) = true ↔
      s.onController? ≠ some false ∧
        ∃ range, FirstListed s.triggers c range ∧ range.includes v = true := by
  have lookup : ((s.trigger? c).map (·.includes v)).getD false = true ↔
      ∃ range, FirstListed s.triggers c range ∧ range.includes v = true := by
    simp only [← trigger?_eq_some_iff]
    cases s.trigger? c <;> simp
  rw [Bool.and_eq_true, lookup]
  constructor
  · rintro ⟨may, range, first, inside⟩
    exact ⟨(onController_of_firstListed first).mp may, range, first, inside⟩
  · rintro ⟨may, range, first, inside⟩
    exact ⟨(onController_of_firstListed first).mpr may, range, first, inside⟩

end Settings

end Voicing
