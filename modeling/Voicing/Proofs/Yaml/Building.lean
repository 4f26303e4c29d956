import Voicing.Proofs.Yaml.Shown
import Voicing.Proofs.Yaml.Meaning

/-!
The value of what is written.

The tokens of a tidy document are put together again: nodes first, which have neither anchors
nor tags, then their meanings, and a table of each mapping, whose names differ.

* `Document.take?_item`, `takeItems?_items`, `takeItems?_entries`, `take?_value`: the nodes, one
  case for each kind of document.
* `Document.ofNode?_node`, `Document.ofResolved?_resolved`: what the nodes stand for.
* `Document.read?_render`: the value of the text of a document is the value of the document.
-/

namespace Voicing.Yaml

namespace Node

variable {handles : Handles} {position : Position} {fuel : Nat} {rest : List Token}

theorem take?_scalar (plain : Bool) (text : String) :
    take? handles position (fuel + 1) (.scalar plain text :: rest) =
      some (.scalar {} plain text, rest) := by
  simp [take?, takeProperties?]

theorem take?_empty :
    take? handles position (fuel + 2) (.flowSequence :: .flowSequenceEnd :: rest) =
      some (.sequence none [], rest) := by
  simp [take?, takeProperties?, takeItems?]

theorem take?_flat {items : List Node} {after : List Token}
    (taken : takeItems? handles .flatSequence fuel (.entry :: rest) = some (items, after)) :
    take? handles .blockMapping (fuel + 1) (.entry :: rest) =
      some (.sequence none items, after) := by
  simp [take?, takeProperties?, taken]

theorem take?_mapping {items : List Node} {after : List Token}
    (taken : takeItems? handles .blockMapping fuel rest = some (items, after)) :
    take? handles .block (fuel + 1) (.blockMapping :: rest) =
      some (.mapping none items, after) := by
  simp [take?, takeProperties?, taken]

/-- A token that begins an item or a value. -/
def begins : Token → Bool
  | .scalar _ _ | .blockMapping | .flowSequence => true
  | _ => false

theorem takeItems?_item {node : Node} {nodes : List Node} {t : Token} {after after' : List Token}
    (first : begins t = true)
    (taken : take? handles .block fuel (t :: rest) = some (node, after))
    (others : takeItems? handles .flatSequence fuel after = some (nodes, after')) :
    takeItems? handles .flatSequence (fuel + 1) (.entry :: t :: rest) =
      some (node :: nodes, after') := by
  cases t <;> cases first <;> simp [takeItems?, taken, others]

theorem takeItems?_end {t : Token} (other : t ≠ .entry) :
    takeItems? handles .flatSequence (fuel + 1) (t :: rest) = some ([], t :: rest) := by
  cases t <;> first | exact absurd rfl other | simp [takeItems?]

theorem takeItems?_entry {name : String} {node : Node} {nodes : List Node} {t : Token}
    {after after' : List Token} (first : begins t = true ∨ t = .entry)
    (taken : take? handles .blockMapping (fuel + 1) (t :: rest) = some (node, after))
    (others : takeItems? handles .blockMapping (fuel + 2) after = some (nodes, after')) :
    takeItems? handles .blockMapping (fuel + 3)
        (.key :: .scalar true name :: .value :: t :: rest) =
      some (.scalar {} true name :: node :: nodes, after') := by
  have key : takeKey? handles .blockMapping (fuel + 2)
      (.key :: .scalar true name :: .value :: t :: rest) =
        some (.scalar {} true name, .value :: t :: rest) := by
    simp [takeKey?, take?_scalar]
  have value : takeValue? handles .blockMapping (fuel + 2) (.value :: t :: rest) =
      some (node, after) := by
    rcases first with first | rfl
    · cases t <;> cases first <;> simp [takeValue?, taken]
    · simp [takeValue?, taken]
  rw [takeItems?]
  simp [key, value, others]

theorem takeItems?_close :
    takeItems? handles .blockMapping (fuel + 1) (.blockEnd :: rest) = some ([], rest) := by
  rw [takeItems?]

end Node

namespace Document

open Node

mutual

/-- The node of a document. -/
def node : Document → Node
  | .plain x => .scalar {} true x
  | .text x => .scalar {} (TextForm.of x.toList == .plain) x
  | .sequence items => .sequence none (itemNodes items)
  | .mapping entries => .mapping none (entryNodes entries)

def itemNodes : List Document → List Node
  | [] => []
  | item :: items => node item :: itemNodes items

/-- The names and values of entries in turn. -/
def entryNodes : List (String × Document) → List Node
  | [] => []
  | (name, value) :: entries => .scalar {} true name :: node value :: entryNodes entries

end

theorem tokens_item {d : Document} (tidy : IsItem d) :
    ∃ t ts, d.tokens = t :: ts ∧ begins t = true := by
  cases d with
  | plain x => exact ⟨_, _, by rw [tokens], rfl⟩
  | text x => exact tidy.elim
  | sequence items => exact tidy.elim
  | mapping entries => exact ⟨_, _, by rw [tokens, List.cons_append], rfl⟩

theorem tokens_value {d : Document} (tidy : IsValue d) :
    ∃ t ts, d.tokens = t :: ts ∧ (begins t = true ∨ t = .entry) := by
  cases d with
  | plain x => exact ⟨_, _, by rw [tokens], .inl rfl⟩
  | text x => exact ⟨_, _, by rw [tokens], .inl rfl⟩
  | sequence items =>
      cases items with
      | nil => exact ⟨_, _, by rw [tokens], .inl rfl⟩
      | cons item items => exact ⟨_, _, by rw [tokens, List.cons_append], .inr rfl⟩
  | mapping entries => exact tidy.elim

mutual

theorem take?_item (d : Document) (tidy : IsItem d) (fuel : Nat) (rest : List Token)
    (enough : 4 * d.tokens.length + 2 ≤ fuel) :
    take? [] .block fuel (d.tokens ++ rest) = some (d.node, rest) := by
  obtain ⟨fuel, rfl⟩ : ∃ n, fuel = n + 1 := ⟨fuel - 1, by omega⟩
  match d, tidy with
  | .plain x, _ =>
      rw [tokens, node]
      exact take?_scalar true x
  | .mapping entries, tidy =>
      rw [IsItem] at tidy
      rw [tokens] at enough ⊢
      have entries_taken := takeItems?_entries entries tidy.2 fuel rest
        (by simp at enough; omega)
      rw [node]
      simp only [List.cons_append, List.append_assoc]
      exact take?_mapping entries_taken

theorem takeItems?_items (items : List Document) (tidy : AreItems items) (fuel : Nat)
    (rest : List Token) {t : Token} (other : t ≠ .entry)
    (enough : 4 * (itemTokens items).length + 1 ≤ fuel) :
    takeItems? [] .flatSequence fuel (itemTokens items ++ t :: rest) =
      some (itemNodes items, t :: rest) := by
  obtain ⟨fuel, rfl⟩ : ∃ n, fuel = n + 1 := ⟨fuel - 1, by omega⟩
  match items, tidy with
  | [], _ =>
      rw [itemTokens, itemNodes]
      exact takeItems?_end other
  | item :: items, tidy =>
      rw [AreItems] at tidy
      rw [itemTokens] at enough ⊢
      simp only [List.cons_append, List.length_cons, List.length_append] at enough
      obtain ⟨u, us, item_eq, first⟩ := tokens_item tidy.1
      have taken := take?_item item tidy.1 fuel (itemTokens items ++ t :: rest)
        (by omega)
      have others := takeItems?_items items tidy.2 fuel rest other (by omega)
      rw [item_eq] at taken
      rw [item_eq, itemNodes]
      simp only [List.cons_append, List.append_assoc] at taken ⊢
      exact takeItems?_item first taken others

theorem takeItems?_entries (entries : List (String × Document)) (tidy : AreEntries entries)
    (fuel : Nat) (rest : List Token) (enough : 4 * (entryTokens entries).length + 1 ≤ fuel) :
    takeItems? [] .blockMapping fuel (entryTokens entries ++ .blockEnd :: rest) =
      some (entryNodes entries, rest) := by
  match entries, tidy with
  | [], _ =>
      obtain ⟨fuel, rfl⟩ : ∃ n, fuel = n + 1 := ⟨fuel - 1, by omega⟩
      rw [entryTokens, entryNodes]
      exact takeItems?_close
  | (name, value) :: entries, tidy =>
      rw [AreEntries] at tidy
      obtain ⟨-, tidy_value, -, others_tidy⟩ := tidy
      rw [entryTokens] at enough ⊢
      simp only [List.cons_append, List.length_cons, List.length_append] at enough
      obtain ⟨fuel, rfl⟩ : ∃ n, fuel = n + 3 := ⟨fuel - 3, by omega⟩
      obtain ⟨t, ts, value_eq, first⟩ := tokens_value tidy_value
      obtain ⟨u, us, next, other⟩ : ∃ u us,
          entryTokens entries ++ .blockEnd :: rest = u :: us ∧ u ≠ .entry := by
        cases entries with
        | nil => exact ⟨_, _, rfl, by decide⟩
        | cons entry entries => exact ⟨.key, _, by rw [entryTokens]; rfl, by decide⟩
      have taken := take?_value value tidy_value (fuel + 1) us other (by omega)
      have others := takeItems?_entries entries others_tidy (fuel + 2) rest
        (by omega)
      rw [← next, value_eq] at taken
      rw [value_eq, entryNodes]
      simp only [List.cons_append, List.append_assoc] at taken ⊢
      exact takeItems?_entry first taken others

theorem take?_value (d : Document) (tidy : IsValue d) (fuel : Nat) (rest : List Token)
    {t : Token} (other : t ≠ .entry) (enough : 4 * d.tokens.length + 2 ≤ fuel) :
    take? [] .blockMapping fuel (d.tokens ++ t :: rest) = some (d.node, t :: rest) := by
  obtain ⟨fuel, rfl⟩ : ∃ n, fuel = n + 2 := ⟨fuel - 2, by omega⟩
  match d, tidy with
  | .plain x, _ =>
      rw [tokens, node]
      exact take?_scalar true x
  | .text x, _ =>
      rw [tokens, node]
      exact take?_scalar _ x
  | .sequence [], _ =>
      rw [tokens, node, itemNodes]
      exact take?_empty
  | .sequence (item :: items), tidy =>
      rw [IsValue] at tidy
      have items_eq : tokens (.sequence (item :: items)) = itemTokens (item :: items) := by
        rw [tokens, itemTokens]
      rw [items_eq] at enough ⊢
      have taken := takeItems?_items (item :: items) tidy (fuel + 1) rest other
        (by omega)
      rw [node]
      rw [itemTokens] at taken ⊢
      exact take?_flat taken

end

/-! ### What the nodes stand for -/

mutual

/-- A document without references. -/
def resolved : Document → Resolved
  | .plain x => .scalar (.ofPlain x)
  | .text x => .scalar (.text x)
  | .sequence items => .sequence (resolvedItems items)
  | .mapping entries => .mapping (resolvedEntries entries)

def resolvedItems : List Document → List Resolved
  | [] => []
  | item :: items => resolved item :: resolvedItems items

def resolvedEntries : List (String × Document) → List (Resolved × Resolved)
  | [] => []
  | (name, value) :: entries => (.scalar (.text name), resolved value) :: resolvedEntries entries

end

/-- Names and values in turn. -/
def alternating : List (Resolved × Resolved) → List Resolved
  | [] => []
  | (name, value) :: entries => name :: value :: alternating entries

theorem pairs_resolvedEntries (entries : List (String × Document)) :
    Resolved.pairs (alternating (resolvedEntries entries)) = resolvedEntries entries := by
  induction entries with
  | nil => rfl
  | cons entry entries ih =>
      obtain ⟨name, value⟩ := entry
      rw [resolvedEntries, alternating, Resolved.pairs, ih]
      rfl

theorem keysDiffer_resolvedEntries {entries : List (String × Document)}
    (tidy : AreEntries entries) : Resolved.keysDiffer (resolvedEntries entries) = true := by
  induction entries with
  | nil => rfl
  | cons entry entries ih =>
      obtain ⟨name, value⟩ := entry
      rw [AreEntries] at tidy
      obtain ⟨-, -, differ, others⟩ := tidy
      have unlike : (resolvedEntries entries).any
          (fun other => Resolved.same (.scalar (.text name)) other.1) = false := by
        clear ih others
        induction entries with
        | nil => rfl
        | cons entry entries ih =>
            obtain ⟨other, value⟩ := entry
            have ne : name ≠ other := (differ (other, value) List.mem_cons_self).symm
            rw [resolvedEntries, List.any_cons,
              ih fun entry mem => differ entry (List.mem_cons_of_mem _ mem), Resolved.same]
            simp [ne]
      rw [resolvedEntries, Resolved.keysDiffer, unlike, ih others]
      rfl

mutual

theorem ofNode?_item (d : Document) (tidy : IsItem d) :
    Resolved.ofNode? d.node [] = some (d.resolved, []) := by
  match d, tidy with
  | .plain x, _ =>
      rw [node, resolved]
      rfl
  | .mapping entries, tidy =>
      rw [IsItem] at tidy
      rw [node, resolved, Resolved.ofNode?]
      simp [Resolved.declare, ofNodes?_entries entries tidy.2, pairs_resolvedEntries,
        keysDiffer_resolvedEntries tidy.2, Resolved.complete]

theorem ofNodes?_items (items : List Document) (tidy : AreItems items) :
    Resolved.ofNodes? (itemNodes items) [] = some (resolvedItems items, []) := by
  match items, tidy with
  | [], _ =>
      rw [itemNodes, resolvedItems]
      rfl
  | item :: items, tidy =>
      rw [AreItems] at tidy
      rw [itemNodes, resolvedItems, Resolved.ofNodes?]
      simp [ofNode?_item item tidy.1, ofNodes?_items items tidy.2]

theorem ofNodes?_entries (entries : List (String × Document)) (tidy : AreEntries entries) :
    Resolved.ofNodes? (entryNodes entries) [] =
      some (alternating (resolvedEntries entries), []) := by
  match entries, tidy with
  | [], _ =>
      rw [entryNodes, resolvedEntries]
      rfl
  | (name, value) :: entries, tidy =>
      rw [AreEntries] at tidy
      obtain ⟨named, tidy_value, -, others⟩ := tidy
      have key : Resolved.ofNode? (.scalar {} true name) [] = some (.scalar (.text name), []) := by
        rw [← named.text]
        rfl
      have rest : Resolved.ofNodes? (node value :: entryNodes entries) [] =
          some (resolved value :: alternating (resolvedEntries entries), []) := by
        rw [Resolved.ofNodes?]
        simp [ofNode?_value value tidy_value, ofNodes?_entries entries others]
      rw [entryNodes, resolvedEntries, alternating, Resolved.ofNodes?]
      simp [key, rest]

theorem ofNode?_value (d : Document) (tidy : IsValue d) :
    Resolved.ofNode? d.node [] = some (d.resolved, []) := by
  match d, tidy with
  | .plain x, _ =>
      rw [node, resolved]
      rfl
  | .text x, _ =>
      rw [node, resolved]
      by_cases form : TextForm.of x.toList = .plain
      · rw [← Scalar.ofPlain_of_form form, form]
        rfl
      · rw [beq_eq_false_iff_ne.mpr form]
        rfl
  | .sequence items, tidy =>
      rw [IsValue] at tidy
      rw [node, resolved, Resolved.ofNode?]
      simp [Resolved.declare, ofNodes?_items items tidy, Resolved.complete]

end

/-! ### Values -/

mutual

/-- The value of a document. -/
def value? : Document → Option Value
  | .plain x => Value.ofScalar? (.ofPlain x)
  | .text x => some (.text x)
  | .sequence items => (itemValues? items).map .sequence
  | .mapping entries => (entryValues? entries).map .table

def itemValues? : List Document → Option (List Value)
  | [] => some []
  | item :: items => (value? item).bind fun first => (itemValues? items).map (first :: ·)

def entryValues? : List (String × Document) → Option (List (String × Value))
  | [] => some []
  | (name, d) :: entries =>
    (value? d).bind fun first => (entryValues? entries).map ((name, first) :: ·)

end

/-- A name that is not in a table comes behind the others. -/
theorem update_of_forall_ne {name : String} {change : Value → Value}
    {table : List (String × Value)} (fresh : ∀ entry ∈ table, entry.1 ≠ name) :
    Value.update name change table = table ++ [(name, change .null)] := by
  induction table with
  | nil => rfl
  | cons entry table ih =>
      rw [Value.update, if_neg (fresh entry List.mem_cons_self),
        ih fun other mem => fresh other (List.mem_cons_of_mem _ mem)]
      rfl

/-- Entries whose names differ are put into a table as they are. -/
theorem foldl_insert {entries : List (String × Value)} (table : List (String × Value))
    (differ : (table ++ entries).Pairwise fun a b => a.1 ≠ b.1) :
    entries.foldl (fun table entry => Value.insert table entry.1 entry.2) table =
      table ++ entries := by
  induction entries generalizing table with
  | nil => exact (List.append_nil table).symm
  | cons entry entries ih =>
      have fresh : ∀ other ∈ table, other.1 ≠ entry.1 := fun other mem =>
        (List.pairwise_append.mp differ).2.2 other mem entry List.mem_cons_self
      have next : Value.insert table entry.1 entry.2 = table ++ [entry] :=
        update_of_forall_ne fresh
      have same : table ++ entry :: entries = (table ++ [entry]) ++ entries := by simp
      rw [List.foldl_cons, next, ih _ (same ▸ differ), same]

theorem map_fst_entryValues {entries : List (String × Document)}
    {values : List (String × Value)} (values_eq : entryValues? entries = some values) :
    values.map Prod.fst = entries.map Prod.fst := by
  induction entries generalizing values with
  | nil =>
      cases values_eq
      rfl
  | cons entry entries ih =>
      obtain ⟨name, d⟩ := entry
      rw [entryValues?, Option.bind_eq_some_iff] at values_eq
      obtain ⟨first, -, values_eq⟩ := values_eq
      obtain ⟨others, others_eq, rfl⟩ := Option.map_eq_some_iff.mp values_eq
      rw [List.map_cons, List.map_cons, ih others_eq]

/-- The values have the names of the entries, which differ. -/
theorem pairwise_entryValues {entries : List (String × Document)} (tidy : AreEntries entries)
    {values : List (String × Value)} (values_eq : entryValues? entries = some values) :
    values.Pairwise fun a b => a.1 ≠ b.1 := by
  have names : (entries.map Prod.fst).Pairwise (· ≠ ·) := by
    clear values_eq
    induction entries with
    | nil => exact .nil
    | cons entry entries ih =>
        obtain ⟨name, d⟩ := entry
        rw [AreEntries] at tidy
        obtain ⟨-, -, differ, others⟩ := tidy
        refine .cons ?_ (ih others)
        intro other mem
        obtain ⟨entry, mem_entries, rfl⟩ := List.mem_map.mp mem
        exact (differ entry mem_entries).symm
  rw [← map_fst_entryValues values_eq] at names
  exact List.pairwise_map.mp names

mutual

theorem ofResolved?_item (d : Document) (tidy : IsItem d) :
    Value.ofResolved? d.resolved = d.value? := by
  match d, tidy with
  | .plain x, _ =>
      rw [resolved, value?, Value.ofResolved?]
  | .mapping entries, tidy =>
      rw [IsItem] at tidy
      rw [resolved, value?, Value.ofResolved?, ofEntries?_entries entries tidy.2]
      cases values : entryValues? entries with
      | none => rfl
      | some values =>
          rw [Option.map_some, Option.map_some,
            foldl_insert [] (pairwise_entryValues tidy.2 values), List.nil_append]

theorem ofItems?_items (items : List Document) (tidy : AreItems items) :
    Value.ofItems? (resolvedItems items) = itemValues? items := by
  match items, tidy with
  | [], _ => rw [resolvedItems, itemValues?, Value.ofItems?]
  | item :: items, tidy =>
      rw [AreItems] at tidy
      rw [resolvedItems, itemValues?, Value.ofItems?, ofResolved?_item item tidy.1,
        ofItems?_items items tidy.2]
      cases value? item <;> cases itemValues? items <;> rfl

theorem ofEntries?_entries (entries : List (String × Document)) (tidy : AreEntries entries) :
    Value.ofEntries? (resolvedEntries entries) = entryValues? entries := by
  match entries, tidy with
  | [], _ => rw [resolvedEntries, entryValues?, Value.ofEntries?]
  | (name, value) :: entries, tidy =>
      rw [AreEntries] at tidy
      obtain ⟨-, tidy_value, -, others⟩ := tidy
      rw [resolvedEntries, entryValues?, Value.ofEntries?, ofResolved?_value value tidy_value,
        ofEntries?_entries entries others]
      cases value? value <;> cases entryValues? entries <;> rfl

theorem ofResolved?_value (d : Document) (tidy : IsValue d) :
    Value.ofResolved? d.resolved = d.value? := by
  match d, tidy with
  | .plain x, _ => rw [resolved, value?, Value.ofResolved?]
  | .text x, _ =>
      rw [resolved, value?, Value.ofResolved?]
      rfl
  | .sequence items, tidy =>
      rw [IsValue] at tidy
      rw [resolved, value?, Value.ofResolved?, ofItems?_items items tidy]

end

/-- The value of the text of a document is the value of the document. -/
theorem read?_render {entries : List (String × Document)} (tidy : IsItem (.mapping entries)) :
    Value.read? (render (.mapping entries)) = value? (.mapping entries) := by
  have node : Node.read? (write 0 (.mapping entries)) = some (some (node (.mapping entries))) := by
    have taken := take?_item (.mapping entries) tidy
      (4 * (tokens (.mapping entries)).length + 4) [] (by omega)
    rw [List.append_nil] at taken
    rw [Node.read?, scan?_write tidy, Option.bind_some]
    rw [tokens, List.cons_append] at taken ⊢
    have first : takeDocument? (.blockMapping :: (entryTokens entries ++ [.blockEnd])) =
        some (node (.mapping entries), []) := taken
    unfold ofTokens?
    simp [dropEnds, first]
  rw [Value.read?, render, String.toList_ofList, node]
  dsimp only
  rw [ofNode?_item _ tidy]
  exact ofResolved?_item _ tidy

end Document

end Voicing.Yaml
