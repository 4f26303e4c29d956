import Voicing.Bank.Write
import Voicing.Yaml.Liberal
import Voicing.Yaml.Path
import Voicing.Proofs.Yaml.Building

/-!
Fields, written and read back.

A reader *recovers* something from a document if it gets it from the document's value. Numbers,
booleans and text are recovered, and so are pairs, lists and what may be left out if their parts
are; a record is recovered field by field.

* `Document.exists_value_of_value`, `exists_value_of_item`: every tidy document has a value.
* `Recovers`: what a reader gets back, with one lemma for each kind.
* `fieldOr_bind`, `field?_bind`: a field of a table.
* `Value.expand_of_names`: a document whose keys are plain names is its own expansion.
-/

namespace Voicing.Yaml

/-! ### Tidy documents have values -/

namespace Scalar

/-- Marks make integers only. -/
theorem integer_of_integer? {base : Nat} {cs : List Char} {scalar : Scalar}
    (read : integer? base cs = some scalar) : ∃ i, scalar = .integer i := by
  obtain ⟨i, -, rfl⟩ := Option.map_eq_some_iff.mp read
  exact ⟨i, rfl⟩

theorem integer_of_markedInteger? {cs : List Char} {scalar : Scalar}
    (read : markedInteger? cs = some scalar) : ∃ i, scalar = .integer i := by
  unfold markedInteger? at read
  split at read
  · exact integer_of_integer? read
  · exact integer_of_integer? read
  · exact integer_of_integer? read
  · cases read

/-- Only what is written like a real number is taken for one. -/
theorem isReal_of_ofPlain {x y : String} (real : ofPlain x = .real y) :
    y = x ∧ isReal x = true := by
  unfold ofPlain at real
  split at real
  · next scalar marked =>
    obtain ⟨i, rfl⟩ := integer_of_markedInteger? marked
    cases real
  · split at real
    · cases real
    · split at real
      · cases real
      · next read =>
        obtain ⟨i, rfl⟩ := integer_of_integer? read
        cases real
      · split at real
        · next written =>
          cases real
          exact ⟨rfl, written⟩
        · cases real

/-- A word stands for some value: infinity and not-a-number, which have none, are no words. -/
theorem exists_ofScalar {x : String} (word : IsWord x.toList) :
    ∃ v, Value.ofScalar? (ofPlain x) = some v := by
  cases scalar : ofPlain x with
  | nothing => exact ⟨_, rfl⟩
  | null => exact ⟨_, rfl⟩
  | boolean b => exact ⟨_, rfl⟩
  | integer i => exact ⟨_, rfl⟩
  | text y => exact ⟨_, rfl⟩
  | real y =>
      obtain ⟨rfl, real⟩ := isReal_of_ofPlain scalar
      have bounded : unboundedNames.contains y = false := by
        have marks : ∀ name ∈ unboundedNames, (name.toList.head?.any Char.isAlphanum ||
            name.toList.head? == some '-' &&
              (name.toList.drop 1).head?.any Char.isAlphanum) = false := by decide
        obtain ⟨c, rest, chars, begins⟩ := word.begins
        rw [← Bool.not_eq_true, List.contains_iff_mem]
        intro mem
        have mark := marks y mem
        rw [chars] at mark
        rcases begins with alphanum | ⟨rfl, d, others, rfl, alphanum⟩
        · simp [alphanum] at mark
        · simp [alphanum] at mark
      rw [isReal, bounded, Bool.false_or, Bool.and_eq_true] at real
      obtain ⟨number, read⟩ := Option.isSome_iff_exists.mp real.2
      exact ⟨.real number, by rw [Value.ofScalar?, read]; rfl⟩

end Scalar

namespace Document

mutual

theorem exists_value_of_item (d : Document) (tidy : IsItem d) : ∃ v, d.value? = some v := by
  match d, tidy with
  | .plain x, word =>
      rw [value?]
      exact Scalar.exists_ofScalar word
  | .mapping entries, tidy =>
      rw [IsItem] at tidy
      obtain ⟨fields, fields_eq⟩ := exists_entryValues entries tidy.2
      exact ⟨.table fields, by rw [value?, fields_eq]; rfl⟩

theorem exists_itemValues (items : List Document) (tidy : AreItems items) :
    ∃ vs, itemValues? items = some vs := by
  match items, tidy with
  | [], _ => exact ⟨[], by rw [itemValues?]⟩
  | item :: items, tidy =>
      rw [AreItems] at tidy
      obtain ⟨v, v_eq⟩ := exists_value_of_item item tidy.1
      obtain ⟨vs, vs_eq⟩ := exists_itemValues items tidy.2
      exact ⟨v :: vs, by rw [itemValues?, v_eq, vs_eq]; rfl⟩

theorem exists_entryValues (entries : List (String × Document)) (tidy : AreEntries entries) :
    ∃ fields, entryValues? entries = some fields := by
  match entries, tidy with
  | [], _ => exact ⟨[], by rw [entryValues?]⟩
  | (name, d) :: entries, tidy =>
      rw [AreEntries] at tidy
      obtain ⟨v, v_eq⟩ := exists_value_of_value d tidy.2.1
      obtain ⟨fields, fields_eq⟩ := exists_entryValues entries tidy.2.2.2
      exact ⟨(name, v) :: fields, by rw [entryValues?, v_eq, fields_eq]; rfl⟩

theorem exists_value_of_value (d : Document) (tidy : IsValue d) : ∃ v, d.value? = some v := by
  match d, tidy with
  | .plain x, word =>
      rw [value?]
      exact Scalar.exists_ofScalar word
  | .text x, _ => exact ⟨.text x, by rw [value?]⟩
  | .sequence items, tidy =>
      rw [IsValue] at tidy
      obtain ⟨vs, vs_eq⟩ := exists_itemValues items tidy
      exact ⟨.sequence vs, by rw [value?, vs_eq]; rfl⟩

end

/-- What stands under a name is no table. -/
theorem ne_table_of_value {d : Document} (tidy : IsValue d) {v : Value} (value : d.value? = some v)
    (entries : List (String × Value)) : v ≠ .table entries := by
  rintro rfl
  cases d with
  | plain x =>
      rw [value?] at value
      cases scalar : Scalar.ofPlain x <;> rw [scalar, Value.ofScalar?] at value
      case real => obtain ⟨_, -, same⟩ := Option.map_eq_some_iff.mp value; cases same
      all_goals cases value
  | text x =>
      rw [value?] at value
      cases value
  | sequence items =>
      rw [value?] at value
      obtain ⟨_, -, same⟩ := Option.map_eq_some_iff.mp value
      cases same
  | mapping entries => exact tidy.elim

theorem ne_table_of_entries {entries : List (String × Document)} (tidy : AreEntries entries)
    {fields : List (String × Value)} (values : entryValues? entries = some fields) :
    ∀ entry ∈ fields, ∀ inner, entry.2 ≠ .table inner := by
  induction entries generalizing fields with
  | nil =>
      cases values
      exact fun entry mem => absurd mem List.not_mem_nil
  | cons entry entries ih =>
      obtain ⟨name, d⟩ := entry
      rw [AreEntries] at tidy
      rw [entryValues?] at values
      obtain ⟨first, first_eq, values⟩ := Option.bind_eq_some_iff.mp values
      obtain ⟨others, others_eq, rfl⟩ := Option.map_eq_some_iff.mp values
      intro other mem
      rcases List.mem_cons.mp mem with rfl | mem
      · exact ne_table_of_value tidy.2.1 first_eq
      · exact ih tidy.2.2.2 others_eq other mem

end Document

/-! ### What is recovered -/

section Recovered

variable {α : Type} {read? : Value → Option α}

/-- A reader gets something from the value of a document. -/
def Recovers (read? : Value → Option α) (d : Document) (a : α) : Prop :=
  d.value?.bind read? = some a

theorem Recovers.of_value {d : Document} {a : α} {v : Value} (value : d.value? = some v)
    (read : read? v = some a) : Recovers read? d a := by
  rw [Recovers, value, Option.bind_some, read]

theorem Recovers.exists_value {d : Document} {a : α} (recovers : Recovers read? d a) :
    ∃ v, d.value? = some v ∧ read? v = some a :=
  Option.bind_eq_some_iff.mp recovers

theorem Recovers.map {β : Type} {d : Document} {a : α} (recovers : Recovers read? d a)
    (g : α → β) : Recovers (fun v => (read? v).map g) d (g a) := by
  obtain ⟨v, value, read⟩ := recovers.exists_value
  exact .of_value value (by rw [read, Option.map_some])

/-- A field of a table is read from the document under its name. -/
theorem lookup_entryValues {entries : List (String × Document)} {fields : Value.Fields}
    (values : Document.entryValues? entries = some fields) {name : String} {d : Document}
    (entry : entries.lookup name = some d) : fields.lookup name = d.value? := by
  induction entries generalizing fields with
  | nil => cases entry
  | cons other entries ih =>
      obtain ⟨other_name, other_d⟩ := other
      rw [Document.entryValues?] at values
      obtain ⟨first, first_eq, values⟩ := Option.bind_eq_some_iff.mp values
      obtain ⟨others, others_eq, rfl⟩ := Option.map_eq_some_iff.mp values
      rw [List.lookup_cons] at entry ⊢
      by_cases same : name == other_name
      · rw [same] at entry ⊢
        cases entry
        exact first_eq.symm
      · rw [Bool.not_eq_true] at same
        rw [same] at entry ⊢
        exact ih others_eq entry

/-- A reader of a table goes on with what it recovers from a field. -/
theorem fieldOr_bind {β : Type} {entries : List (String × Document)} {fields : Value.Fields}
    (values : Document.entryValues? entries = some fields) (name : String) {d : Document}
    (entry : entries.lookup name = some d) {a : α} (recovers : Recovers read? d a) {default : α}
    {next : α → Option β} : (Value.fieldOr fields name default read?).bind next = next a := by
  obtain ⟨v, value, read⟩ := recovers.exists_value
  have present : Value.fieldOr fields name default read? = some a := by
    rw [Value.fieldOr, lookup_entryValues values entry, value]
    exact read
  rw [present]
  rfl

theorem field?_bind {β : Type} {entries : List (String × Document)} {fields : Value.Fields}
    (values : Document.entryValues? entries = some fields) (name : String) {d : Document}
    (entry : entries.lookup name = some d) {a : α} (recovers : Recovers read? d a)
    {next : α → Option β} : (Value.field? fields name read?).bind next = next a := by
  have present : Value.field? fields name read? = some a := by
    rw [Value.field?, lookup_entryValues values entry]
    exact recovers
  rw [present]
  rfl

/-! ### Scalars -/

/-- The natural number that is read where one is written: itself if it is an integer, and
otherwise that of the nearest double. -/
def reread (n : Nat) : Nat :=
  if (n : Int) ≤ Scalar.greatestInteger then n
  else (Binary.ofDecimal false n 0 : Double).toNatWithin Value.greatestNatural

theorem reread_of_lt {n : Nat} (lt : n < 2 ^ 32) : reread n = n := by
  have le : (2 ^ 32 : Int) ≤ Scalar.greatestInteger := by decide
  rw [reread, if_pos (by omega)]

theorem reread_eq_iff {n : Nat} : reread n = n ↔ (n : Int) ≤ Scalar.greatestInteger ∨
    (Binary.ofDecimal false n 0 : Double).toNatWithin Value.greatestNatural = n := by
  unfold reread
  split
  · next small => exact ⟨fun _ => .inl small, fun _ => rfl⟩
  · next large => exact ⟨.inr, fun either => either.resolve_left large⟩

theorem toNatWithin_le {f : Format} (limit : Nat) (x : Binary f) : x.toNatWithin limit ≤ limit := by
  unfold Binary.toNatWithin
  split
  · exact Nat.zero_le _
  · split
    · exact Nat.zero_le _
    · split
      · exact Nat.le_refl _
      · exact Nat.min_le_left _ _

theorem reread_le (n : Nat) : reread n ≤ Value.greatestNatural := by
  unfold reread
  split
  · next small =>
    have : Scalar.greatestInteger ≤ Value.greatestNatural := by decide
    omega
  · exact toNatWithin_le _ _

theorem recovers_natural {limit n : Nat} (le : reread n ≤ limit) :
    Recovers (Value.natural? limit) (.natural n) (reread n) := by
  have value : (Document.natural n).value? =
      Value.ofScalar? (if (n : Int) ≤ Scalar.greatestInteger then .integer n
        else .real (digitsOf n)) := by
    rw [Document.natural, Document.value?, Scalar.ofPlain_digitsOf]
  rw [Recovers, value]
  unfold reread at le ⊢
  by_cases small : (n : Int) ≤ Scalar.greatestInteger
  · rw [if_pos small] at le
    rw [if_pos small, if_pos small, Value.ofScalar?, Option.bind_some, Value.natural?]
    simp [le]
  · rw [if_neg small] at le
    rw [if_neg small, if_neg small, Value.ofScalar?, Binary.read?_digitsOf, Option.map_some,
      Option.bind_some, Value.natural?]
    simp [le]

/-- Numbers of at most 32 bits come back. -/
theorem recovers_small {limit n : Nat} (le : n ≤ limit) (lt : n < 2 ^ 32) :
    Recovers (Value.natural? limit) (.natural n) n := by
  have same := reread_of_lt lt
  have natural : Recovers (Value.natural? limit) (.natural n) (reread n) :=
    recovers_natural (by rwa [same])
  rwa [same] at natural

theorem recovers_byte (n : UInt8) : Recovers Value.byte? (.natural n.toNat) n := by
  have lt := n.toNat_lt
  have natural : Recovers (Value.natural? (UInt8.size - 1)) (.natural n.toNat) n.toNat :=
    recovers_small (Nat.le_pred_of_lt lt) (by omega)
  have word := natural.map UInt8.ofNat
  rwa [UInt8.ofNat_toNat] at word

theorem recovers_word16 (n : UInt16) : Recovers Value.word16? (.natural n.toNat) n := by
  have lt := n.toNat_lt
  have natural : Recovers (Value.natural? (UInt16.size - 1)) (.natural n.toNat) n.toNat :=
    recovers_small (Nat.le_pred_of_lt lt) (by omega)
  have word := natural.map UInt16.ofNat
  rwa [UInt16.ofNat_toNat] at word

theorem recovers_word32 (n : UInt32) : Recovers Value.word32? (.natural n.toNat) n := by
  have lt := n.toNat_lt
  have natural : Recovers (Value.natural? (UInt32.size - 1)) (.natural n.toNat) n.toNat :=
    recovers_small (Nat.le_pred_of_lt lt) lt
  have word := natural.map UInt32.ofNat
  rwa [UInt32.ofNat_toNat] at word

theorem recovers_word64 (n : UInt64) :
    Recovers Value.word64? (.natural n.toNat) (UInt64.ofNat (reread n.toNat)) :=
  (recovers_natural (reread_le n.toNat)).map UInt64.ofNat

theorem recovers_boolean (b : Bool) : Recovers Value.boolean? (.boolean b) b := by
  refine .of_value (v := .boolean b) ?_ rfl
  rw [Document.boolean, Document.value?, Scalar.ofPlain_boolean]
  rfl

theorem recovers_number {x : Single} (steady : x.IsSteady) :
    Recovers Value.number? (.number x) x := by
  obtain ⟨y, read, back⟩ := Binary.read?_render steady
  refine .of_value (v := .real y) ?_ (by rw [Value.number?, Option.map_some, back])
  rw [Document.number, Document.value?, Scalar.ofPlain_number steady, Value.ofScalar?, read]
  rfl

theorem recovers_text (x : String) : Recovers Value.text? (.text x) x :=
  .of_value (by rw [Document.value?]) rfl

/-- A choice is recovered by its name if the name means text. -/
theorem recovers_choice {ofName? : String → Option α} {name : String} {a : α}
    (text : Scalar.ofPlain name = .text name) (named : ofName? name = some a) :
    Recovers (Value.choice? ofName?) (.plain name) a := by
  refine .of_value (v := .text name) ?_ named
  rw [Document.value?, text]
  rfl

/-! ### Collections -/

/-- What may be left out is recovered by a reader that gets nothing from null. -/
theorem recovers_optional {β : Type} (strict : read? .null = none) {write : β → Document}
    {g : β → α} (recovers : ∀ b, Recovers read? (write b) (g b)) (o : Option β) :
    Recovers (Value.optional? read?) (.optional write o) (o.map g) := by
  cases o with
  | none =>
      refine .of_value (v := .null) ?_ rfl
      rw [Document.optional, Document.value?, Scalar.ofPlain_null]
      rfl
  | some b =>
      obtain ⟨v, value, read⟩ := (recovers b).exists_value
      have some_value : v ≠ .null := by
        rintro rfl
        rw [strict] at read
        cases read
      have present : Value.optional? read? v = (read? v).map some := by
        cases v <;> first | exact absurd rfl some_value | rfl
      exact .of_value value (by rw [present, read]; rfl)

theorem recovers_interval {write : α → Document} {i : Interval α}
    (low : Recovers read? (write i.low) i.low) (high : Recovers read? (write i.high) i.high) :
    Recovers (Value.interval? read?) (.interval write i) i := by
  obtain ⟨l, low_value, low_read⟩ := low.exists_value
  obtain ⟨h, high_value, high_read⟩ := high.exists_value
  refine .of_value (v := .sequence [l, h]) ?_ ?_
  · simp [Document.interval, Document.value?, Document.itemValues?, low_value, high_value]
  · simp [Value.interval?, low_read, high_read]

theorem recovers_list {write : α → Document} {items : List α}
    (recovers : ∀ a ∈ items, Recovers read? (write a) a) :
    Recovers (Value.list? read?) (.sequence (items.map write)) items := by
  have each : ∃ vs, Document.itemValues? (items.map write) = some vs ∧
      vs.mapM read? = some items := by
    induction items with
    | nil => exact ⟨[], by rw [List.map_nil, Document.itemValues?], rfl⟩
    | cons item items ih =>
        obtain ⟨v, value, read⟩ := (recovers item List.mem_cons_self).exists_value
        obtain ⟨vs, values, reads⟩ := ih fun a mem => recovers a (List.mem_cons_of_mem _ mem)
        refine ⟨v :: vs, ?_, ?_⟩
        · rw [List.map_cons, Document.itemValues?, value, values]
          rfl
        · simp [List.mapM_cons, read, reads]
  obtain ⟨vs, values, reads⟩ := each
  exact .of_value (v := .sequence vs) (by rw [Document.value?, values]; rfl) reads

end Recovered

/-! ### Tidy parts -/

namespace Document

theorem areItems_of {items : List Document} (each : ∀ d ∈ items, IsItem d) : AreItems items := by
  induction items with
  | nil => trivial
  | cons item items ih =>
      rw [AreItems]
      exact ⟨each item List.mem_cons_self, ih fun d mem => each d (List.mem_cons_of_mem _ mem)⟩

theorem areEntries_of {entries : List (String × Document)}
    (names : ∀ name ∈ entries.map Prod.fst, IsName name)
    (differ : (entries.map Prod.fst).Nodup) (values : ∀ entry ∈ entries, IsValue entry.2) :
    AreEntries entries := by
  induction entries with
  | nil => trivial
  | cons entry entries ih =>
      obtain ⟨name, d⟩ := entry
      rw [List.map_cons, List.nodup_cons] at differ
      rw [AreEntries]
      refine ⟨names name List.mem_cons_self, values _ List.mem_cons_self, ?_, ?_⟩
      · rintro other mem rfl
        exact differ.1 (List.mem_map.mpr ⟨other, mem, rfl⟩)
      · exact ih (fun other mem => names other (List.mem_cons_of_mem _ mem)) differ.2
          fun other mem => values other (List.mem_cons_of_mem _ mem)

/-- A name without signs is a word. -/
theorem isWord_of_letters {cs : List Char} (chars : cs.all isWordChar = true)
    (begins : cs.head?.any Char.isAlphanum = true) : IsWord cs := by
  refine ⟨List.all_eq_true.mp chars, ?_⟩
  cases cs with
  | nil => cases begins
  | cons c rest => exact ⟨c, rest, rfl, .inl begins⟩

/-- Words are names if they are not too long and mean text. -/
theorem areNames_of {names : List String}
    (checked : ∀ name ∈ names, name.toList.all isWordChar = true ∧
      name.toList.head?.any Char.isAlphanum = true ∧ name.toList.length ≤ Scan.longestKey ∧
      Scalar.ofPlain name = .text name) : ∀ name ∈ names, IsName name := by
  intro name mem
  obtain ⟨chars, begins, short, text⟩ := checked name mem
  exact ⟨⟨isWord_of_letters chars begins, short⟩, text⟩

theorem isValue_optional {α : Type} {write : α → Document} {o : Option α}
    (present : ∀ a, o = some a → IsValue (write a)) : IsValue (optional write o) := by
  cases o with
  | none => exact isWord_of_letters (by decide) (by decide)
  | some a => exact present a rfl

theorem isValue_interval {α : Type} {write : α → Document} {i : Interval α}
    (low : IsItem (write i.low)) (high : IsItem (write i.high)) : IsValue (interval write i) :=
  ⟨low, high, trivial⟩

theorem isWord_boolean (b : Bool) : IsWord (if b then "true" else "false").toList := by
  cases b <;> exact isWord_of_letters (by decide) (by decide)

end Document

/-! ### Paths -/

/-- A key without points and brackets leads to an entry. -/
theorem Path.ofKey_of_name {name : String} (chars : ∀ c ∈ name.toList, isNameChar c = true) :
    Path.ofKey name = ⟨name, []⟩ := by
  have whole : name.toList.takeWhile isNameChar = name.toList := by
    rw [← List.append_nil name.toList, List.takeWhile_append_of_pos chars, List.takeWhile_nil]
  rw [Path.ofKey, Path.read?, whole]
  split
  · rfl
  · rw [List.drop_length, Path.readSteps?]
    simp

/-- A document is its own expansion if its keys lead to entries and it has no tables in them. -/
theorem Value.expand_of_names {entries : List (String × Value)}
    (names : ∀ entry ∈ entries, ∀ c ∈ entry.1.toList, isNameChar c = true)
    (flat : ∀ entry ∈ entries, ∀ inner, entry.2 ≠ .table inner)
    (differ : entries.Pairwise fun a b => a.1 ≠ b.1) :
    expand (.table entries) = .table entries := by
  have insert_eq (table : List (String × Value)) : ∀ entry ∈ entries,
      update (Path.ofKey entry.1).root (updateAt (assign entry.2) (Path.ofKey entry.1).steps)
        table = insert table entry.1 entry.2 := by
    intro entry mem
    have assigned : assign entry.2 = fun _ => entry.2 := by
      funext old
      cases value : entry.2 with
      | table inner => exact absurd value (flat entry mem inner)
      | _ => rw [assign]; rintro inner ⟨⟩
    rw [Path.ofKey_of_name (names entry mem), assigned]
    rfl
  rw [expand, List.foldl_ext _ _ [] insert_eq, Document.foldl_insert [] differ,
    List.nil_append]

end Voicing.Yaml
