import Voicing.Proofs.Yaml.Scanning

/-!
What is written can be shown.

A reader makes newlines of all line breaks that cannot be shown and stops at a null
character. Neither is ever written, so the text of a document is scanned as it stands.

* `shown_writeText`, `Document.shown_write`: every character of a text or document, as it is
  written, is one that can be shown.
* `Document.scan?_write`: the tokens of a whole document.
-/

namespace Voicing.Yaml

/-- What can be shown is read as it stands. -/
theorem normalize_of_shown {cs : List Char} (shown : ∀ c ∈ cs, isShown c = true) :
    normalize cs = cs := by
  induction cs with
  | nil => rfl
  | cons c cs ih =>
      have shown_c := shown c List.mem_cons_self
      have return_ : c ≠ '\r' := by
        rintro rfl
        exact absurd shown_c (by decide)
      have null : c ≠ '\x00' := by
        rintro rfl
        exact absurd shown_c (by decide)
      rw [normalize, if_neg return_, if_neg null,
        ih fun d mem => shown d (List.mem_cons_of_mem _ mem)]
      rintro rest same
      exact absurd same return_

theorem mem_indented {i : Nat} {fresh : Bool} {cs : List Char} {c : Char}
    (mem : c ∈ indented i fresh cs) : c ∈ cs ∨ c = ' ' := by
  induction cs generalizing fresh with
  | nil => cases mem
  | cons d cs ih =>
      rw [indented] at mem
      split at mem
      · rcases List.mem_cons.mp mem with rfl | mem
        · exact .inl List.mem_cons_self
        · exact (ih mem).imp_left (List.mem_cons_of_mem _)
      · rcases List.mem_append.mp mem with mem | mem
        · split at mem
          · exact .inr (List.eq_of_mem_replicate mem)
          · cases mem
        · rcases List.mem_cons.mp mem with rfl | mem
          · exact .inl List.mem_cons_self
          · exact (ih mem).imp_left (List.mem_cons_of_mem _)

/-- The digits of a code are letters and digits. -/
theorem shown_hexDigits (width n : Nat) : ∀ c ∈ hexDigits width n, isShown c = true := by
  have digit : ∀ d < 16, isShown d.digitChar.toUpper = true := by decide
  intro c mem
  rcases List.mem_append.mp mem with mem | mem
  · rw [List.eq_of_mem_replicate mem]
    rfl
  · obtain ⟨d, mem_d, rfl⟩ := List.mem_map.mp mem
    obtain ⟨n, small, rfl⟩ := exists_digitChar (by decide : 1 < 16) mem_d
    exact digit n small

theorem shown_escaped (c : Char) : ∀ d ∈ escaped c, isShown d = true := by
  unfold escaped
  split
  · next shown =>
    simp only [Bool.and_eq_true] at shown
    intro d mem
    rw [List.mem_singleton.mp mem]
    exact shown.1.1.1
  · have code {letter : Char} (width : Nat) (shown : isShown letter = true) :
        ∀ d ∈ '\\' :: letter :: hexDigits width c.toNat, isShown d = true := by
      intro d mem
      rcases List.mem_cons.mp mem with rfl | mem
      · rfl
      · rcases List.mem_cons.mp mem with rfl | mem
        · exact shown
        · exact shown_hexDigits _ _ d mem
    split
    iterate 14 exact List.all_eq_true.mp (by decide)
    dsimp only
    split
    · exact code 2 rfl
    · split
      · exact code 4 rfl
      · exact code 8 rfl

theorem shown_of_none_hidden {cs : List Char} (hidden : hasHidden cs = false) :
    ∀ c ∈ cs, isShown c = true := by
  intro c mem
  simpa using List.any_eq_false.mp hidden c mem

theorem shown_singleQuoted {i : Nat} {cs : List Char} (shown : ∀ c ∈ cs, isShown c = true) :
    ∀ c ∈ singleQuoted i cs, isShown c = true := by
  have shown_doubled : ∀ c ∈ cs.flatMap doubled, isShown c = true := by
    intro c mem
    obtain ⟨d, mem_d, mem⟩ := List.mem_flatMap.mp mem
    unfold doubled at mem
    split at mem
    · have quote : c = '\'' := by simpa using mem
      rw [quote]
      rfl
    · rw [List.mem_singleton.mp mem]
      exact shown d mem_d
  intro c mem
  change c ∈ '\'' :: indented i false (cs.flatMap doubled) ++
    (if cs.getLast?.any isLineBreak then spaces i else []) ++ ['\''] at mem
  simp only [List.mem_append, List.mem_cons, List.not_mem_nil, or_false] at mem
  rcases mem with ((rfl | mem) | mem) | rfl
  · rfl
  · rcases mem_indented mem with mem | rfl
    · exact shown_doubled c mem
    · rfl
  · split at mem
    · rw [List.eq_of_mem_replicate mem]
      rfl
    · cases mem
  · rfl

theorem shown_literal {i : Nat} {cs : List Char} (shown : ∀ c ∈ cs, isShown c = true) :
    ∀ c ∈ Yaml.literal i cs, isShown c = true := by
  have head : ∀ c ∈ literalHead cs, isShown c = true := by
    rw [literalHead_eq]
    cases isHinted cs <;> cases Chomping.of cs <;> exact List.all_eq_true.mp (by decide)
  intro c mem
  change c ∈ literalHead cs ++ '\n' :: indented i true cs ++ closing cs at mem
  simp only [List.mem_append, List.mem_cons] at mem
  rcases mem with (mem | rfl | mem) | mem
  · exact head c mem
  · rfl
  · rcases mem_indented mem with mem | rfl
    · exact shown c mem
    · rfl
  · unfold closing at mem
    split at mem
    · cases mem
    · rw [List.mem_singleton.mp mem]
      rfl

/-- Whatever a text holds, what is written of it is shown. -/
theorem shown_writeText (i : Nat) (x : String) : ∀ c ∈ writeText i x, isShown c = true := by
  have newline {cs : List Char} (shown : ∀ c ∈ cs, isShown c = true) :
      ∀ c ∈ cs ++ ['\n'], isShown c = true := by
    intro c mem
    rcases List.mem_append.mp mem with mem | mem
    · exact shown c mem
    · rw [List.mem_singleton.mp mem]
      rfl
  rw [writeText]
  cases form : TextForm.of x.toList with
  | plain => exact newline (shown_of_none_hidden (form_eq_plain form).2.2.1)
  | singleQuoted =>
      exact newline (shown_singleQuoted (shown_of_none_hidden (form_eq_singleQuoted form).2))
  | doubleQuoted =>
      apply newline
      intro c mem
      change c ∈ '"' :: x.toList.flatMap escaped ++ ['"'] at mem
      simp only [List.mem_append, List.mem_cons, List.not_mem_nil, or_false] at mem
      rcases mem with (rfl | mem) | rfl
      · rfl
      · obtain ⟨d, -, mem⟩ := List.mem_flatMap.mp mem
        exact shown_escaped d c mem
      · rfl
  | literal => exact shown_literal (shown_of_none_hidden (form_eq_literal form).2)

theorem shown_of_word {cs : List Char} (word : IsWord cs) : ∀ c ∈ cs, isShown c = true := by
  intro c mem
  have inline := (Plain.of_word word).inline c mem
  rw [isInline, Bool.and_eq_true] at inline
  exact inline.1

namespace Document

theorem shown_spaces (i : Nat) : ∀ c ∈ spaces i, isShown c = true := by
  intro c mem
  rw [List.eq_of_mem_replicate mem]
  rfl

mutual

theorem shown_write (d : Document) (tidy : IsItem d) (i : Nat) :
    ∀ c ∈ d.write i, isShown c = true := by
  match d, tidy with
  | .plain x, tidy =>
      rw [IsItem] at tidy
      intro c mem
      rw [write] at mem
      simp only [List.mem_append, List.mem_singleton] at mem
      rcases mem with mem | rfl
      · exact shown_of_word tidy c mem
      · rfl
  | .mapping ((name, value) :: entries), tidy =>
      rw [IsItem, AreEntries] at tidy
      obtain ⟨-, named, tidy_value, -, others⟩ := tidy
      intro c mem
      rw [write] at mem
      simp only [List.mem_append, List.mem_cons] at mem
      rcases mem with (mem | rfl | mem) | mem
      · exact shown_of_word named.key.word c mem
      · rfl
      · exact shown_writeUnder value tidy_value i c mem
      · exact shown_writeEntries entries others i c mem

theorem shown_writeItems (items : List Document) (tidy : AreItems items) (i : Nat) :
    ∀ c ∈ writeItems i items, isShown c = true := by
  match items, tidy with
  | [], _ => rintro c ⟨⟩
  | item :: items, tidy =>
      rw [AreItems] at tidy
      intro c mem
      rw [writeItems] at mem
      simp only [List.mem_append, List.mem_cons] at mem
      rcases mem with (mem | rfl | rfl | mem) | mem
      · exact shown_spaces i c mem
      · rfl
      · rfl
      · exact shown_write item tidy.1 (i + 2) c mem
      · exact shown_writeItems items tidy.2 i c mem

theorem shown_writeEntries (entries : List (String × Document)) (tidy : AreEntries entries)
    (i : Nat) : ∀ c ∈ writeEntries i entries, isShown c = true := by
  match entries, tidy with
  | [], _ => rintro c ⟨⟩
  | (name, value) :: entries, tidy =>
      rw [AreEntries] at tidy
      obtain ⟨named, tidy_value, -, others⟩ := tidy
      intro c mem
      rw [writeEntries] at mem
      simp only [List.mem_append, List.mem_cons] at mem
      rcases mem with ((mem | mem) | rfl | mem) | mem
      · exact shown_spaces i c mem
      · exact shown_of_word named.key.word c mem
      · rfl
      · exact shown_writeUnder value tidy_value i c mem
      · exact shown_writeEntries entries others i c mem

theorem shown_writeUnder (d : Document) (tidy : IsValue d) (i : Nat) :
    ∀ c ∈ d.writeUnder i, isShown c = true := by
  match d, tidy with
  | .plain x, tidy =>
      rw [IsValue] at tidy
      intro c mem
      rw [writeUnder] at mem
      simp only [List.cons_append, List.mem_append, List.mem_cons, List.not_mem_nil,
        or_false] at mem
      rcases mem with rfl | mem | rfl
      · rfl
      · exact shown_of_word tidy c mem
      · rfl
  | .text x, _ =>
      intro c mem
      rw [writeUnder] at mem
      rcases List.mem_cons.mp mem with rfl | mem
      · rfl
      · exact shown_writeText (i + 2) x c mem
  | .sequence [], _ =>
      rw [writeUnder]
      exact List.all_eq_true.mp (by decide)
  | .sequence (item :: items), tidy =>
      rw [IsValue] at tidy
      intro c mem
      rw [writeUnder] at mem
      rcases List.mem_cons.mp mem with rfl | mem
      · rfl
      · exact shown_writeItems (item :: items) tidy i c mem

end

/-- The tokens of a tidy document can be read off its text. -/
theorem scan?_write {entries : List (String × Document)} (tidy : IsItem (.mapping entries)) :
    Token.scan? (write 0 (.mapping entries)) = some (tokens (.mapping entries)) := by
  cases entries with
  | nil =>
      rw [IsItem] at tidy
      exact absurd rfl tidy.1
  | cons entry entries =>
      obtain ⟨name, value⟩ := entry
      have whole : normalize (write 0 (.mapping ((name, value) :: entries))) =
          write 0 (.mapping ((name, value) :: entries)) :=
        normalize_of_shown (shown_write _ tidy 0)
      rw [IsItem, AreEntries] at tidy
      obtain ⟨-, named, tidy_value, -, others⟩ := tidy
      have at_ := Scan.AtToken.start (write 0 (.mapping ((name, value) :: entries)) ++ [])
      have nothing : Follows 0 [] := ⟨0, [], Nat.le_refl 0, by rintro c ⟨⟩, rfl⟩
      obtain ⟨t, ⟨n, shorter, same⟩, j, rest, ends, -, at_⟩ :=
        scan_mapping name value entries named.key tidy_value others at_ (by decide) rfl nothing
      obtain ⟨rfl, rfl⟩ : j = 0 ∧ rest = [] := by
        have lengths := congrArg List.length ends
        simp only [spaces, List.length_nil, List.length_append, List.length_replicate] at lengths
        exact ⟨by omega, List.length_eq_zero_iff.mp (by omega)⟩
      rw [List.append_nil] at shorter same
      rw [Token.scan?, whole, tokens]
      generalize write 0 (.mapping ((name, value) :: entries)) = text at shorter same
      have enough : n ≤ text.length := Nat.le_trans (Nat.le_add_right _ _) shorter
      obtain ⟨fuel, length⟩ := Nat.exists_eq_add_of_le enough
      have run := (same fuel).trans (at_.run?_end fuel)
      rw [← length] at run
      exact run

end Document

end Voicing.Yaml
