import Voicing.Bank.Read
import Voicing.Proofs.Yaml.Fields

/-!
Bank files, written and read back.

A layer is *writable* if its numbers are steady and its name readable. The document of a bank of
such layers is tidy, and every reader recovers its field from it. Only the seed may come back
as another one, since the integers of the file format have a sign.

* `Settings.recovers_document`: a writable layer comes back.
* `Bank.parse_render`: the bank that is read where one is written.
* `Bank.parse_render_eq_ok_iff`: when a bank comes back as it was.
-/

namespace Voicing

open Yaml (Document Value Recovers IsWord)
open Yaml.Document

/-! ### What can be written -/

/-- Both bounds come back from their texts. -/
def Interval.IsSteady (i : Interval Single) : Prop := i.low.IsSteady ∧ i.high.IsSteady

instance (i : Interval Single) : Decidable i.IsSteady :=
  inferInstanceAs (Decidable (i.low.IsSteady ∧ i.high.IsSteady))

/-- The name and the numbers of a layer come back from their texts. -/
structure Settings.IsWritable (s : Settings) : Prop where
  name : ∀ name, s.name = some name → IsReadable name
  ranges : ∀ field : RangeField, (field.get s).IsSteady
  entries : ∀ e ∈ s.conditions ++ s.triggers, e.range.IsSteady
  thresholds : ∀ kind : PedalKind, (kind.get s).threshold.IsSteady

/-- The bank that is read where one is written: a seed that is no integer of the file format is
read as the nearest double. -/
def Bank.reread (b : Bank) : Bank :=
  { b with seed := b.seed.map fun seed => .ofNat (Yaml.reread seed.toNat) }

/-! ### Parts of a layer -/

theorem isValue_numbers {i : Interval Single} (steady : i.IsSteady) : IsValue (numbers i) :=
  isValue_interval (Yaml.isWord_number steady.1) (Yaml.isWord_number steady.2)

theorem isValue_notes (i : Interval Note) : IsValue (notes i) :=
  isValue_interval (Yaml.isWord_digits i.low.toNat) (Yaml.isWord_digits i.high.toNat)

theorem recovers_numbers {i : Interval Single} (steady : i.IsSteady) :
    Recovers (Value.interval? Value.number?) (numbers i) i :=
  Yaml.recovers_interval (Yaml.recovers_number steady.1) (Yaml.recovers_number steady.2)

theorem recovers_notes (i : Interval Note) :
    Recovers (Value.interval? Value.byte?) (notes i) i :=
  Yaml.recovers_interval (Yaml.recovers_byte i.low) (Yaml.recovers_byte i.high)

theorem recovers_mode (mode : Mode) :
    Recovers (Value.choice? Mode.ofName?) (.plain mode.name) mode := by
  apply Yaml.recovers_choice <;> cases mode <;> decide

theorem recovers_velocitySource (source : VelocitySource) :
    Recovers (Value.choice? VelocitySource.ofName?) (.plain source.name) source := by
  apply Yaml.recovers_choice <;> cases source <;> decide

theorem isWord_mode (mode : Mode) : IsWord mode.name.toList := by
  apply isWord_of_letters <;> cases mode <;> decide

theorem isWord_velocitySource (source : VelocitySource) : IsWord source.name.toList := by
  apply isWord_of_letters <;> cases source <;> decide

/-! ### Conditions and triggers -/

namespace ControllerRange

theorem isItem_document {e : ControllerRange} (steady : e.range.IsSteady) :
    IsItem (controllerRange e) := by
  have names : ∀ name ∈ ["cc", "range"], IsName name := areNames_of (by decide)
  have differ : ["cc", "range"].Nodup := by decide
  refine ⟨List.cons_ne_nil _ _, areEntries_of names differ ?_⟩
  simp only [List.forall_mem_cons]
  exact ⟨Yaml.isWord_digits _, isValue_numbers steady, by simp⟩

theorem recovers_document {e : ControllerRange} (steady : e.range.IsSteady) :
    Recovers ofValue? (controllerRange e) e := by
  obtain ⟨fields, values⟩ := exists_entryValues _ (isItem_document steady).2
  refine .of_value (v := .table fields) ?_ ?_
  · rw [controllerRange, value?, values]
    rfl
  · unfold ofValue?
    dsimp only [Value.fields?, Option.bind_eq_bind, Option.bind_some]
    rw [Yaml.field?_bind values "cc" rfl (Yaml.recovers_word16 e.controller),
      Yaml.field?_bind values "range" rfl (recovers_numbers steady)]

end ControllerRange

/-! ### Layers -/

namespace Settings

theorem isItem_document {s : Settings} (writable : s.IsWritable) : IsItem s.document := by
  have names : ∀ name ∈ fieldNames, IsName name := areNames_of (by decide)
  have differ : fieldNames.Nodup := by decide
  have entries {es : List ControllerRange} (mem : ∀ e ∈ es, e ∈ s.conditions ++ s.triggers) :
      IsValue (.sequence (es.map controllerRange)) := by
    apply areItems_of
    intro d mem_items
    obtain ⟨e, mem_entries, rfl⟩ := List.mem_map.mp mem_items
    exact ControllerRange.isItem_document (writable.entries e (mem e mem_entries))
  refine ⟨List.cons_ne_nil _ _, areEntries_of names differ ?_⟩
  simp only [List.forall_mem_cons]
  refine ⟨isValue_optional writable.name, isValue_notes _,
    isValue_numbers (writable.ranges .velocities), isValue_numbers (writable.ranges .draws),
    entries fun e => List.mem_append_left _, entries fun e => List.mem_append_right _,
    Yaml.isWord_digits _, Yaml.isWord_digits _, isWord_mode _, Yaml.isWord_digits _,
    Yaml.isWord_digits _, Yaml.isWord_number (writable.thresholds .sustain),
    Yaml.isWord_number (writable.thresholds .sostenuto), isWord_boolean _, isWord_boolean _,
    isValue_numbers (writable.ranges .polyAftertouches), isValue_numbers (writable.ranges .bends),
    isValue_numbers (writable.ranges .aftertouches), isValue_numbers (writable.ranges .tempi),
    isWord_velocitySource _, isWord_boolean _, isValue_optional fun b _ => isWord_boolean b,
    isValue_optional fun i _ => isValue_notes i, isValue_optional fun n _ => Yaml.isWord_digits _,
    isValue_optional fun n _ => Yaml.isWord_digits _, by simp⟩

/-- Every field of a layer comes back, and so does the layer. -/
theorem recovers_document {s : Settings} (writable : s.IsWritable) :
    Recovers ofValue? s.document s := by
  obtain ⟨fields, values⟩ := exists_entryValues _ (isItem_document writable).2
  have entries {es : List ControllerRange} (mem : ∀ e ∈ es, e ∈ s.conditions ++ s.triggers) :
      Recovers (Value.list? ControllerRange.ofValue?) (.sequence (es.map controllerRange)) es :=
    Yaml.recovers_list fun e mem_entries =>
      ControllerRange.recovers_document (writable.entries e (mem e mem_entries))
  refine .of_value (v := .table fields) ?_ ?_
  · rw [document, value?, values]
    rfl
  · unfold ofValue?
    dsimp only [Value.fields?, Option.bind_eq_bind, Option.bind_some]
    rw [Yaml.fieldOr_bind values "name" rfl
        (Yaml.recovers_optional rfl Yaml.recovers_text s.name),
      Yaml.fieldOr_bind values "key_range" rfl (recovers_notes s.keys),
      Yaml.fieldOr_bind values "velocity_range" rfl
        (recovers_numbers (writable.ranges .velocities)),
      Yaml.fieldOr_bind values "random_range" rfl (recovers_numbers (writable.ranges .draws)),
      Yaml.fieldOr_bind values "cc_conditions" rfl (entries fun e => List.mem_append_left _),
      Yaml.fieldOr_bind values "cc_triggers" rfl (entries fun e => List.mem_append_right _),
      Yaml.fieldOr_bind values "sequence_length" rfl (Yaml.recovers_word32 s.sequenceLength),
      Yaml.fieldOr_bind values "sequence_position" rfl (Yaml.recovers_word32 s.sequencePosition),
      Yaml.fieldOr_bind values "trigger" rfl (recovers_mode s.mode),
      Yaml.fieldOr_bind values "sustain_cc" rfl (Yaml.recovers_word16 s.sustain.controller),
      Yaml.fieldOr_bind values "sostenuto_cc" rfl (Yaml.recovers_word16 s.sostenuto.controller),
      Yaml.fieldOr_bind values "sustain_threshold" rfl
        (Yaml.recovers_number (writable.thresholds .sustain)),
      Yaml.fieldOr_bind values "sostenuto_threshold" rfl
        (Yaml.recovers_number (writable.thresholds .sostenuto)),
      Yaml.fieldOr_bind values "check_sustain" rfl (Yaml.recovers_boolean s.sustain.minded),
      Yaml.fieldOr_bind values "check_sostenuto" rfl (Yaml.recovers_boolean s.sostenuto.minded),
      Yaml.fieldOr_bind values "poly_aftertouch_range" rfl
        (recovers_numbers (writable.ranges .polyAftertouches)),
      Yaml.fieldOr_bind values "bend_range" rfl (recovers_numbers (writable.ranges .bends)),
      Yaml.fieldOr_bind values "aftertouch_range" rfl
        (recovers_numbers (writable.ranges .aftertouches)),
      Yaml.fieldOr_bind values "bpm_range" rfl (recovers_numbers (writable.ranges .tempi)),
      Yaml.fieldOr_bind values "velocity_override" rfl
        (recovers_velocitySource s.velocitySource),
      Yaml.fieldOr_bind values "trigger_on_note" rfl (Yaml.recovers_boolean s.onNote),
      Yaml.fieldOr_bind values "trigger_on_cc" rfl
        (Yaml.recovers_optional rfl Yaml.recovers_boolean s.onController?),
      Yaml.fieldOr_bind values "keyswitch_range" rfl
        (Yaml.recovers_optional rfl recovers_notes s.keyswitches),
      Yaml.fieldOr_bind values "last_keyswitch" rfl
        (Yaml.recovers_optional rfl Yaml.recovers_byte s.keyswitch),
      Yaml.fieldOr_bind values "previous_keyswitch" rfl
        (Yaml.recovers_optional rfl Yaml.recovers_byte s.previousKey)]
    simp only [Option.map_id_fun', id]

end Settings

/-! ### Banks -/

namespace Bank

variable {b : Bank}

/-- The document of a bank is tidy whatever its seed is. -/
theorem isItem_document (writable : ∀ s ∈ b.layers, s.IsWritable) : IsItem b.document := by
  have names : ∀ name ∈ ["channel", "seed", "layers"], IsName name := areNames_of (by decide)
  have differ : ["channel", "seed", "layers"].Nodup := by decide
  refine ⟨List.cons_ne_nil _ _, areEntries_of names differ ?_⟩
  simp only [List.forall_mem_cons]
  refine ⟨isValue_optional fun n _ => Yaml.isWord_digits _,
    isValue_optional fun n _ => Yaml.isWord_digits _, areItems_of ?_, by simp⟩
  intro d mem
  obtain ⟨s, mem_layers, rfl⟩ := List.mem_map.mp mem
  exact Settings.isItem_document (writable s mem_layers)

/-- The document that is read where a bank is written: its keys are no paths, so nothing in it
moves. -/
theorem exists_document (writable : ∀ s ∈ b.layers, s.IsWritable) :
    ∃ fields, entryValues? [("channel", optional (natural ·.toNat) b.channel),
        ("seed", optional (natural ·.toNat) b.seed),
        ("layers", .sequence (b.layers.map Settings.document))] = some fields ∧
      Value.read? b.render = some (.table fields) ∧
      Value.expand (.table fields) = .table fields := by
  have tidy := isItem_document writable
  obtain ⟨fields, values⟩ := exists_entryValues _ tidy.2
  refine ⟨fields, values, ?_, ?_⟩
  · rw [render, document, Document.read?_render tidy, value?, values]
    rfl
  · have names : fields.map Prod.fst = ["channel", "seed", "layers"] :=
      map_fst_entryValues values
    have plain : ∀ name ∈ ["channel", "seed", "layers"],
        name.toList.all Yaml.isNameChar = true := by decide
    apply Value.expand_of_names
    · intro entry mem
      exact List.all_eq_true.mp (plain entry.1 (names ▸ List.mem_map_of_mem mem))
    · exact ne_table_of_entries tidy.2 values
    · exact pairwise_entryValues tidy.2 values

/-- A bank whose layers are writable is read again, and looked at for faults. -/
theorem parse_render (writable : ∀ s ∈ b.layers, s.IsWritable) :
    parse b.render = b.reread.check.mapError .faulty := by
  obtain ⟨fields, values, read, expand⟩ := exists_document writable
  have recovered : ofValue? (.table fields) = some b.reread := by
    unfold ofValue?
    dsimp only [Option.bind_eq_bind]
    rw [Yaml.fieldOr_bind values "channel" rfl
        (Yaml.recovers_optional rfl Yaml.recovers_byte b.channel),
      Yaml.fieldOr_bind values "seed" rfl (Yaml.recovers_optional rfl Yaml.recovers_word64 b.seed),
      Yaml.fieldOr_bind values "layers" rfl
        (Yaml.recovers_list fun s mem => Settings.recovers_document (writable s mem))]
    simp only [Option.map_id_fun', id, reread]
  rw [parse, read, Option.bind_some, expand, recovered]

/-- What is read again is the bank itself if its seed is. -/
theorem reread_eq_iff :
    b.reread = b ↔ ∀ seed, b.seed = some seed → Yaml.reread seed.toNat = seed.toNat := by
  have bound (n : Nat) : Yaml.reread n < UInt64.size := by
    have := Yaml.reread_le n
    rw [Value.greatestNatural] at this
    have : 0 < UInt64.size := by decide
    omega
  obtain ⟨channel, seed, layers⟩ := b
  cases seed with
  | none => exact ⟨fun _ seed absent => (Option.some_ne_none seed absent.symm).elim, fun _ => rfl⟩
  | some n =>
      constructor
      · intro same seed some_seed
        obtain rfl := Option.some.inj some_seed
        have seeds := Option.some.inj (congrArg Bank.seed same)
        rw [← UInt64.toNat_inj, UInt64.toNat_ofNat_of_lt' (bound _)] at seeds
        exact seeds
      · intro same
        rw [reread, Option.map_some, same n rfl, UInt64.ofNat_toNat]

/-- A bank without faults comes back from its file as it was if its seed does: up to the greatest
integer of the file format every seed does, and beyond it those that are doubles. -/
theorem parse_render_eq_ok_iff (valid : b.fault? = none)
    (writable : ∀ s ∈ b.layers, s.IsWritable) :
    parse b.render = .ok b ↔
      ∀ seed, b.seed = some seed → (seed.toNat : Int) ≤ Yaml.Scalar.greatestInteger ∨
        (Binary.ofDecimal false seed.toNat 0 : Double).toNatWithin Value.greatestNatural =
          seed.toNat := by
  have same_faults : b.reread.fault? = none := valid
  simp only [← Yaml.reread_eq_iff]
  rw [parse_render writable, ← reread_eq_iff, check, same_faults]
  simp [Except.mapError]

/-- A layer with a name that has to be quoted and numbers that no decimal is equal to. -/
def softVoice : Settings where
  name := some "soft: 'una corda'"
  keys := ⟨60, 72⟩
  velocities := ⟨0.1, 0.7⟩
  conditions := [⟨64, ⟨0.3, 1⟩⟩]
  triggers := [⟨20, ⟨0, 0.9⟩⟩]
  sequenceLength := 3
  mode := .release
  tempi := ⟨1e-7, 133.33⟩
  onController? := some false
  keyswitches := some ⟨24, 35⟩
  keyswitch := some 24

theorem parse_render_softVoice :
    parse (Bank.render ⟨some 16, some 9223372036854775807, [{}, softVoice]⟩) =
      .ok ⟨some 16, some 9223372036854775807, [{}, softVoice]⟩ := by
  refine (parse_render_eq_ok_iff (by decide +kernel) ?_).mpr ?_
  · intro s mem
    simp only [List.mem_cons, List.not_mem_nil, or_false] at mem
    rcases mem with rfl | rfl
    · exact ⟨by simp, by rintro ⟨⟩ <;> decide +kernel, by simp, by rintro ⟨⟩ <;> decide +kernel⟩
    · refine ⟨?_, by rintro ⟨⟩ <;> decide +kernel, ?_, by rintro ⟨⟩ <;> decide +kernel⟩
      · rintro name ⟨⟩
        decide +kernel
      · decide +kernel
  · rintro seed ⟨⟩
    decide +kernel

/-- A seed beyond the integers of the file format comes back as another one, though nothing is
wrong with the bank. -/
theorem parse_render_of_large_seed :
    (⟨none, some 9223372036854775809, []⟩ : Bank).fault? = none ∧
      parse (Bank.render ⟨none, some 9223372036854775809, []⟩) =
        .ok ⟨none, some 9223372036854775808, []⟩ := by
  refine ⟨by decide, ?_⟩
  rw [parse_render (by simp)]
  decide +kernel

end Bank

end Voicing
