import Voicing.Proofs.Yaml.Lines
import Voicing.Yaml.Value

/-!
The tokens of what is written.

A document is *tidy* if its plain scalars are words, its names are words that mean text and
differ within a mapping, sequences and texts stand under names only, and mappings are items. The
scanner goes over the text of a tidy document item by item and entry by entry: whatever is
written is followed by something that stands no further right, and `Stands` says that the
scanner has got there.

* `Document.tokens`: the tokens of a document.
* `Document.scan_item`, `scan_items`, `scan_entries`, `scan_value`: one case for each kind of
  document.
-/

namespace Voicing.Yaml

/-! ### What follows -/

/-- A text goes on with a token no further right than a column, or ends. -/
def Follows (i : Nat) (tail : List Char) : Prop :=
  ∃ j rest, j ≤ i ∧ BeginsToken rest ∧ tail = spaces j ++ rest

theorem Follows.mono {i k : Nat} {tail : List Char} (le : i ≤ k) (follows : Follows i tail) :
    Follows k tail := by
  obtain ⟨j, rest, left, begins, rfl⟩ := follows
  exact ⟨j, rest, Nat.le_trans left le, begins, rfl⟩

theorem Follows.spaces {i : Nat} {rest : List Char} (begins : BeginsToken rest) :
    Follows i (spaces i ++ rest) :=
  ⟨i, rest, Nat.le_refl i, begins, rfl⟩

/-- The token that a text goes on with has one column. -/
theorem spaces_append_inj {j k : Nat} {rest rest' : List Char} (begins : BeginsToken rest)
    (other_begins : BeginsToken rest') (same : spaces j ++ rest = spaces k ++ rest') :
    j = k ∧ rest = rest' := by
  induction j generalizing k with
  | zero =>
      cases k with
      | zero => exact ⟨rfl, same⟩
      | succ k =>
          have first : rest.head? = some ' ' := by
            rw [show rest = spaces (k + 1) ++ rest' from same]
            rfl
          exact absurd rfl (begins ' ' first).1
  | succ j ih =>
      cases k with
      | zero =>
          have first : rest'.head? = some ' ' := by
            rw [show rest' = spaces (j + 1) ++ rest from same.symm]
            rfl
          exact absurd rfl (other_begins ' ' first).1
      | succ k =>
          obtain ⟨rfl, rest_eq⟩ := ih (List.cons.inj same).2
          exact ⟨rfl, rest_eq⟩

/-- The scanner stands at the token that a text goes on with, inside a block at a column. -/
def Scan.Stands (s : Scan) (i : Nat) (tail : List Char) (tokens : List Token)
    (levels : List Level) : Prop :=
  ∃ j rest, tail = spaces j ++ rest ∧ BeginsToken rest ∧ s.AtToken rest j tokens i levels

namespace Document

/-! ### Tidy documents -/

/-- A text that can be read back. -/
def IsReadable (s : String) : Prop :=
  TextForm.of s.toList = .doubleQuoted ∨ Unseparated s.toList

instance : DecidablePred IsReadable := fun s =>
  inferInstanceAs (Decidable (TextForm.of s.toList = .doubleQuoted ∨ Unseparated s.toList))

/-- A word that can be a key and means nothing but itself. -/
structure IsName (name : String) : Prop where
  key : Scan.IsKey name.toList
  text : Scalar.ofPlain name = .text name

mutual

/-- The document can be an item: it is a word, or a mapping that is not empty. -/
def IsItem : Document → Prop
  | .plain s => IsWord s.toList
  | .mapping entries => entries ≠ [] ∧ AreEntries entries
  | .text _ | .sequence _ => False

def AreItems : List Document → Prop
  | [] => True
  | item :: items => IsItem item ∧ AreItems items

/-- The entries have names of their own, and what stands under them are values. -/
def AreEntries : List (String × Document) → Prop
  | [] => True
  | (name, value) :: entries =>
    IsName name ∧ IsValue value ∧ (∀ entry ∈ entries, entry.1 ≠ name) ∧ AreEntries entries

/-- The document can stand under a name: it is a word, a text, or a sequence. -/
def IsValue : Document → Prop
  | .plain s => IsWord s.toList
  | .text s => IsReadable s
  | .sequence items => AreItems items
  | .mapping _ => False

end

/-! ### Tokens -/

mutual

/-- The tokens of a document. A sequence under a name has no marks of its own unless it is
empty. -/
def tokens : Document → List Token
  | .plain s => [.scalar true s]
  | .text s => [.scalar (TextForm.of s.toList == .plain) s]
  | .sequence [] => [.flowSequence, .flowSequenceEnd]
  | .sequence (item :: items) => .entry :: tokens item ++ itemTokens items
  | .mapping entries => .blockMapping :: entryTokens entries ++ [.blockEnd]

def itemTokens : List Document → List Token
  | [] => []
  | item :: items => .entry :: tokens item ++ itemTokens items

def entryTokens : List (String × Document) → List Token
  | [] => []
  | (name, value) :: entries =>
    .key :: .scalar true name :: .value :: tokens value ++ entryTokens entries

end

/-! ### What is written follows on -/

theorem begins_of_word {cs : List Char} (word : IsWord cs) (tail : List Char) :
    BeginsToken (cs ++ tail) ∧ atFlowMark (cs ++ tail) = false := by
  have plain := Plain.of_word word
  obtain ⟨c, cs, rfl⟩ := List.exists_cons_of_ne_nil plain.nonempty
  obtain ⟨normal, -, begins⟩ := Scan.begins_of_plain plain tail
  refine ⟨begins, ?_⟩
  change isFlowMark c = false
  have marks : ∀ d ∈ openingMarks, c ≠ d := by
    rintro d mem rfl
    rw [List.contains_iff_mem.mpr mem] at normal
    cases normal
  simp [isFlowMark, marks ',' (by decide), marks '[' (by decide), marks ']' (by decide),
    marks '\x7b' (by decide), marks '\x7d' (by decide)]

variable {i : Nat} {tail : List Char}

theorem follows_writeItems (items : List Document) (follows : Follows i tail) :
    Follows i (writeItems i items ++ tail) := by
  cases items with
  | nil => rwa [writeItems]
  | cons item items =>
      rw [writeItems]
      simp only [List.append_assoc, List.cons_append]
      apply Follows.spaces
      rintro d ⟨⟩
      decide

theorem follows_writeEntries {entries : List (String × Document)} (tidy : AreEntries entries)
    (follows : Follows i tail) : Follows i (writeEntries i entries ++ tail) := by
  cases entries with
  | nil => rwa [writeEntries]
  | cons entry entries =>
      obtain ⟨name, value⟩ := entry
      rw [AreEntries] at tidy
      rw [writeEntries]
      simp only [List.append_assoc]
      exact Follows.spaces (begins_of_word tidy.1.key.word _).1

/-- What follows a colon is a gap without a tab. -/
theorem writeUnder_begins (i : Nat) (tail : List Char) (d : Document) :
    atGap (writeUnder i d ++ tail) = true ∧ (writeUnder i d ++ tail).head? ≠ some '\t' := by
  have blank : (some ' ' : Option Char) ≠ some '\t' := by decide
  have newline : (some '\n' : Option Char) ≠ some '\t' := by decide
  cases d with
  | plain s => exact ⟨rfl, blank⟩
  | text s => exact ⟨rfl, blank⟩
  | sequence items =>
      cases items with
      | nil => exact ⟨rfl, blank⟩
      | cons item items => exact ⟨rfl, newline⟩
  | mapping entries =>
      cases entries with
      | nil => exact ⟨rfl, blank⟩
      | cons entry entries => exact ⟨rfl, newline⟩

/-! ### Scanning -/

variable {s : Scan} {ts : List Token} {level : Level} {levels : List Level}

/-- A text behind a colon. -/
theorem scan_text {x : String} (behind : s.BehindColon (' ' :: writeText (i + 2) x ++ tail) ts i
    (level :: levels)) (block : level.block = true) (readable : IsReadable x)
    (follows : Follows i tail) :
    ∃ t, s.Reaches t ∧
      t.Stands i tail (ts ++ [.scalar (TextForm.of x.toList == .plain) x]) (level :: levels) := by
  obtain ⟨j, rest, left, begins, rfl⟩ := follows
  have unseparated (other : TextForm.of x.toList ≠ .doubleQuoted) : Unseparated x.toList :=
    readable.resolve_left other
  have arrive {t : Scan} {plain : Bool}
      (at_ : t.AtToken rest j (ts ++ [.scalar plain (String.ofList x.toList)]) i
        (level :: levels)) :
      t.Stands i (spaces j ++ rest) (ts ++ [.scalar plain x]) (level :: levels) := by
    rw [String.ofList_toList] at at_
    exact ⟨j, rest, rfl, begins, at_⟩
  rw [List.cons_append, writeText] at behind
  cases form : TextForm.of x.toList with
  | plain =>
      have plain := Plain.of_form form
      simp only [form, List.append_assoc, List.singleton_append] at behind
      obtain ⟨c, cs, cs_eq⟩ := List.exists_cons_of_ne_nil plain.nonempty
      have first : BeginsToken (x.toList ++ '\n' :: (spaces j ++ rest)) := by
        rw [cs_eq] at plain ⊢
        exact (Scan.begins_of_plain plain _).2.2
      obtain ⟨t, reaches, behind⟩ := behind.blank first
      obtain ⟨u, reaches', at_⟩ := behind.plain block plain left begins
      exact ⟨u, reaches.trans reaches', arrive at_⟩
  | singleQuoted =>
      have inline := inline_of_singleQuoted form (unseparated (by rw [form]; decide))
      have text : singleQuoted (i + 2) x.toList ++ ['\n'] ++ (spaces j ++ rest) =
          Scan.quoteMark true :: ((x.toList.flatMap doubled ++ ['\'']) ++
            '\n' :: (spaces j ++ rest)) := by
        simp [singleQuoted_of_inline _ inline, Scan.quoteMark]
      simp only [form] at behind
      rw [text] at behind
      obtain ⟨t, reaches, behind⟩ := behind.blank (by rintro d ⟨⟩; decide)
      obtain ⟨u, reaches', at_⟩ := behind.quoted x.toList (fun p begun right inside => by
        rw [List.append_assoc, List.singleton_append,
          takeQuoted_single inline .word begun right inside]
        simp [Taken.ofReversed]) left begins
      exact ⟨u, reaches.trans reaches', arrive at_⟩
  | doubleQuoted =>
      have text : doubleQuoted x.toList ++ ['\n'] ++ (spaces j ++ rest) =
          Scan.quoteMark false :: ((x.toList.flatMap escaped ++ ['"']) ++
            '\n' :: (spaces j ++ rest)) := by
        simp [doubleQuoted, Scan.quoteMark]
      simp only [form] at behind
      rw [text] at behind
      obtain ⟨t, reaches, behind⟩ := behind.blank (by rintro d ⟨⟩; decide)
      obtain ⟨u, reaches', at_⟩ := behind.quoted x.toList (fun p begun right inside => by
        rw [List.append_assoc, List.singleton_append, takeQuoted_double .word begun right inside]
        simp [Taken.ofReversed]) left begins
      exact ⟨u, reaches.trans reaches', arrive at_⟩
  | literal =>
      have literal := literal_of_form form (unseparated (by rw [form]; decide))
      simp only [form] at behind
      obtain ⟨t, reaches, behind⟩ := behind.blank (by rintro d ⟨⟩; decide)
      obtain ⟨u, reaches', at_⟩ :=
        behind.literal block literal (form_eq_literal form).1 left begins
      exact ⟨u, reaches.trans reaches', arrive at_⟩

/-- A word behind a colon. -/
theorem scan_word {x : String} (behind : s.BehindColon (' ' :: x.toList ++ ['\n'] ++ tail) ts i
    (level :: levels)) (block : level.block = true) (word : IsWord x.toList)
    (follows : Follows i tail) :
    ∃ t, s.Reaches t ∧ t.Stands i tail (ts ++ [.scalar true x]) (level :: levels) := by
  obtain ⟨j, rest, left, begins, rfl⟩ := follows
  rw [List.cons_append, List.cons_append, List.append_assoc, List.singleton_append] at behind
  obtain ⟨t, reaches, behind⟩ := behind.blank (begins_of_word word _).1
  obtain ⟨u, reaches', at_⟩ := behind.plain block (.of_word word) left begins
  rw [String.ofList_toList] at at_
  exact ⟨u, reaches.trans reaches', j, rest, rfl, begins, at_⟩

theorem begins_of_item {d : Document} (tidy : IsItem d) (tail : List Char) :
    BeginsToken (d.write i ++ tail) ∧ atFlowMark (d.write i ++ tail) = false := by
  cases d with
  | plain x =>
      rw [IsItem] at tidy
      rw [write, List.append_assoc]
      exact begins_of_word tidy _
  | text x => exact tidy.elim
  | sequence items => exact tidy.elim
  | mapping entries =>
      rw [IsItem] at tidy
      cases entries with
      | nil => exact absurd rfl tidy.1
      | cons entry entries =>
          obtain ⟨name, value⟩ := entry
          rw [AreEntries] at tidy
          rw [write, List.append_assoc, List.append_assoc]
          exact begins_of_word tidy.2.1.key.word _

mutual

/-- A mapping, from its first key on. -/
theorem scan_mapping (name : String) (value : Document) (entries : List (String × Document))
    (key : Scan.IsKey name.toList) (tidy : IsValue value) (others : AreEntries entries) {s : Scan}
    {ts : List Token} {c : Nat} {indent : Int} {levels : List Level} {tail : List Char}
    (at_ : s.AtToken (write c (.mapping ((name, value) :: entries)) ++ tail) c ts indent levels)
    (deeper : indent < c) (block : levels.head?.all (·.block) = true) (follows : Follows c tail) :
    ∃ t, s.Reaches t ∧
      t.Stands c tail (ts ++ .blockMapping :: entryTokens ((name, value) :: entries))
        (⟨indent, true⟩ :: levels) := by
  rw [write] at at_
  simp only [List.append_assoc, List.cons_append] at at_
  obtain ⟨gap, tab⟩ := writeUnder_begins c (writeEntries c entries ++ tail) value
  obtain ⟨t, reaches, behind⟩ := at_.key key gap tab deeper block
  obtain ⟨u, reaches', stands⟩ :=
    scan_value value tidy behind rfl (follows_writeEntries others follows)
  obtain ⟨v, reaches'', stands⟩ := scan_entries entries others stands rfl follows
  refine ⟨v, (reaches.trans reaches').trans reaches'', ?_⟩
  simpa [entryTokens] using stands
termination_by sizeOf value + sizeOf entries + 1

/-- An item behind its hyphen. -/
theorem scan_item (d : Document) (tidy : IsItem d) {s : Scan} {ts : List Token} {i : Nat}
    {level : Level} {levels : List Level} {tail : List Char}
    (at_ : s.AtToken (d.write (i + 2) ++ tail) (i + 2) ts i (level :: levels))
    (block : level.block = true) (follows : Follows i tail) :
    ∃ t, s.Reaches t ∧ t.Stands i tail (ts ++ d.tokens) (level :: levels) := by
  match d, tidy with
  | .plain x, tidy =>
      obtain ⟨j, rest, left, begins, rfl⟩ := follows
      rw [IsItem] at tidy
      rw [write, List.append_assoc] at at_
      obtain ⟨t, reaches, at_⟩ := at_.word block tidy left begins
      rw [String.ofList_toList] at at_
      exact ⟨t, reaches, j, rest, rfl, begins, by rwa [tokens]⟩
  | .mapping ((name, value) :: entries), tidy =>
      rw [IsItem, AreEntries] at tidy
      obtain ⟨-, named, tidy_value, -, others⟩ := tidy
      obtain ⟨t, reaches, stands⟩ := scan_mapping name value entries named.key tidy_value others at_
        (by omega) block (follows.mono (by omega))
      obtain ⟨j, rest, left, begins, tail_eq⟩ := follows
      obtain ⟨k, rest', tail_eq', others_begin, at_⟩ := stands
      obtain ⟨rfl, rfl⟩ := spaces_append_inj begins others_begin (tail_eq.symm.trans tail_eq')
      obtain ⟨u, reaches', at_⟩ := at_.close (by omega) begins
      refine ⟨u, reaches.trans reaches', j, rest, tail_eq, begins, ?_⟩
      simpa [tokens] using at_
termination_by sizeOf d

/-- The items of a sequence. -/
theorem scan_items (items : List Document) (tidy : AreItems items) {s : Scan} {ts : List Token}
    {i : Nat} {level : Level} {levels : List Level} {tail : List Char}
    (stands : s.Stands i (writeItems i items ++ tail) ts (level :: levels))
    (block : level.block = true) (follows : Follows i tail) :
    ∃ t, s.Reaches t ∧ t.Stands i tail (ts ++ itemTokens items) (level :: levels) := by
  match items, tidy with
  | [], _ =>
      rw [writeItems, List.nil_append] at stands
      exact ⟨s, .refl s, by rwa [itemTokens, List.append_nil]⟩
  | item :: items, tidy =>
      rw [AreItems] at tidy
      obtain ⟨j, rest, text, begins, at_⟩ := stands
      rw [writeItems] at text
      simp only [List.append_assoc, List.cons_append] at text
      obtain ⟨rfl, rfl⟩ := spaces_append_inj (by rintro d ⟨⟩; decide) begins text
      obtain ⟨first, flat⟩ := begins_of_item (i := i + 2) tidy.1 (writeItems i items ++ tail)
      obtain ⟨t, reaches, at_⟩ := at_.entry block first flat
      obtain ⟨u, reaches', stands⟩ :=
        scan_item item tidy.1 at_ block (follows_writeItems items follows)
      obtain ⟨v, reaches'', stands⟩ := scan_items items tidy.2 stands block follows
      refine ⟨v, (reaches.trans reaches').trans reaches'', ?_⟩
      simpa [itemTokens] using stands
termination_by sizeOf items

/-- The entries of a mapping. -/
theorem scan_entries (entries : List (String × Document)) (tidy : AreEntries entries) {s : Scan}
    {ts : List Token} {i : Nat} {level : Level} {levels : List Level} {tail : List Char}
    (stands : s.Stands i (writeEntries i entries ++ tail) ts (level :: levels))
    (block : level.block = true) (follows : Follows i tail) :
    ∃ t, s.Reaches t ∧ t.Stands i tail (ts ++ entryTokens entries) (level :: levels) := by
  match entries, tidy with
  | [], _ =>
      rw [writeEntries, List.nil_append] at stands
      exact ⟨s, .refl s, by rwa [entryTokens, List.append_nil]⟩
  | (name, value) :: entries, tidy =>
      rw [AreEntries] at tidy
      obtain ⟨named, tidy_value, -, others⟩ := tidy
      obtain ⟨j, rest, text, begins, at_⟩ := stands
      rw [writeEntries] at text
      simp only [List.append_assoc, List.cons_append] at text
      obtain ⟨rfl, rfl⟩ := spaces_append_inj (begins_of_word named.key.word _).1 begins text
      obtain ⟨gap, tab⟩ := writeUnder_begins i (writeEntries i entries ++ tail) value
      obtain ⟨t, reaches, behind⟩ := at_.nextKey named.key gap tab block
      obtain ⟨u, reaches', stands⟩ :=
        scan_value value tidy_value behind block (follows_writeEntries others follows)
      obtain ⟨v, reaches'', stands⟩ := scan_entries entries others stands block follows
      refine ⟨v, (reaches.trans reaches').trans reaches'', ?_⟩
      simpa [entryTokens] using stands
termination_by sizeOf entries

/-- A value behind a colon. -/
theorem scan_value (d : Document) (tidy : IsValue d) {s : Scan} {ts : List Token} {i : Nat}
    {level : Level} {levels : List Level} {tail : List Char}
    (behind : s.BehindColon (d.writeUnder i ++ tail) ts i (level :: levels))
    (block : level.block = true) (follows : Follows i tail) :
    ∃ t, s.Reaches t ∧ t.Stands i tail (ts ++ d.tokens) (level :: levels) := by
  match d, tidy with
  | .plain x, tidy =>
      rw [IsValue] at tidy
      rw [writeUnder] at behind
      rw [tokens]
      exact scan_word behind block tidy follows
  | .text x, tidy =>
      rw [IsValue] at tidy
      rw [writeUnder] at behind
      rw [tokens]
      exact scan_text behind block tidy follows
  | .sequence [], _ =>
      obtain ⟨j, rest, left, begins, rfl⟩ := follows
      rw [writeUnder] at behind
      obtain ⟨t, reaches, behind⟩ := behind.blank (by rintro d ⟨⟩; decide)
      obtain ⟨u, reaches', at_⟩ := behind.empty left begins
      exact ⟨u, reaches.trans reaches', j, rest, rfl, begins, by rwa [tokens]⟩
  | .sequence (item :: items), tidy =>
      rw [IsValue] at tidy
      rw [writeUnder, List.cons_append] at behind
      obtain ⟨j, rest, left, begins, text⟩ := follows_writeItems (item :: items) follows
      rw [text] at behind
      obtain ⟨t, reaches, at_⟩ := behind.newline left begins
      obtain ⟨u, reaches', stands⟩ :=
        scan_items (item :: items) tidy ⟨j, rest, text, begins, at_⟩ block follows
      refine ⟨u, reaches.trans reaches', ?_⟩
      rw [tokens]
      rwa [itemTokens] at stands
termination_by sizeOf d

end

end Document

end Voicing.Yaml
