import Voicing.Proofs.Yaml.PlainText
import Voicing.Proofs.Decimal.DigitText

/-!
Quoted text, read back.

Between single quotes a text stands as it is, but for its own quotes, which are doubled. In
double quotes whatever is not shown is escaped. Either way the quoted text stays on its line,
and the reader passes over blanks before it knows that they belong to the text: they are
*pending*.

* `takeQuoted_single`: the text between single quotes, character by character.
* `takeQuoted_escaped`, `takeQuoted_double`: one character between double quotes, and a whole
  text.
-/

namespace Voicing.Yaml

-- Powers are those of core, whichever other monoids are in scope.
attribute [local instance (high)] instPowNat

/-! ### Pending blanks -/

/-- The blanks that the reader of a quoted text has passed over and not yet taken, last
first. -/
inductive Pending : QuotedPart → List Char → Prop where
  | word : Pending .word []
  | gap (blanks : List Char) : Pending (.gap (.spaces blanks)) blanks

theorem after_of_inline {c : Char} {p : Place} (inline : isInline c = true)
    (begun : p.fresh = false) : p.after c = p.marks 1 := by
  unfold Place.after
  rw [if_neg (ne_newline_of_inline inline)]
  split
  · exact Place.blanks_eq_marks p begun 1
  · rfl

section Line

variable {single : Bool} {indent : Int} {part : QuotedPart} {blanks text : List Char} {c : Char}
  {cs tail : List Char} {p : Place}

/-- A blank is put aside. -/
theorem takeQuoted_space (pending : Pending part blanks) (begun : p.fresh = false) :
    takeQuoted single indent part text (' ' :: cs) p =
      takeQuoted single indent (.gap (.spaces (' ' :: blanks))) text cs (p.marks 1) := by
  have after : p.after ' ' = p.marks 1 := after_of_inline (by decide) begun
  cases pending <;> rw [takeQuoted, after] <;> rfl

/-- Any other character comes behind what was put aside. -/
theorem quotedMove_pending (pending : Pending part blanks) (inline : isInline c = true)
    (word : c ≠ ' ') (right : indent ≤ p.column) (inside : 0 < p.column) :
    quotedMove single indent part text c cs p = wordMove single (blanks ++ text) c := by
  have blank : isBlank c = false := by
    rw [isBlank_of_inline inline]
    exact beq_eq_false_iff_ne.mpr word
  have newline := ne_newline_of_inline inline
  have left : ¬ (p.column : Int) < indent := by omega
  cases pending with
  | word => rfl
  | gap =>
      simp [quotedMove, gapMove, blank, newline, left, Nat.ne_of_gt inside, QuotedGap.text]

/-- A character after which the text goes on. -/
theorem takeQuoted_go {next : QuotedPart} {more : List Char}
    (move : quotedMove single indent part text c cs p = .go next more) :
    takeQuoted single indent part text (c :: cs) p =
      takeQuoted single indent next more cs (p.after c) := by
  rw [takeQuoted, move]

/-- A character that stands for itself. -/
theorem takeQuoted_char (pending : Pending part blanks) (inline : isInline c = true)
    (word : c ≠ ' ') (begun : p.fresh = false) (right : indent ≤ p.column)
    (inside : 0 < p.column)
    (own : wordMove single (blanks ++ text) c = .go .word (c :: (blanks ++ text))) :
    takeQuoted single indent part text (c :: cs) p =
      takeQuoted single indent .word (c :: (blanks ++ text)) cs (p.marks 1) := by
  rw [← after_of_inline inline begun]
  exact takeQuoted_go ((quotedMove_pending pending inline word right inside).trans own)

/-! ### Single quotes -/

/-- A character as it stands between single quotes. -/
def doubled (c : Char) : List Char := if c = '\'' then ['\'', '\''] else [c]

theorem wordMove_quote : wordMove true text '\'' = .go .quote text := rfl

/-- A quote in front of another one is part of the text. -/
theorem takeQuoted_doubled (pending : Pending part blanks) (begun : p.fresh = false)
    (right : indent ≤ p.column) (inside : 0 < p.column) :
    takeQuoted true indent part text ('\'' :: '\'' :: cs) p =
      takeQuoted true indent .word ('\'' :: (blanks ++ text)) cs (p.marks 2) := by
  have quote : isInline '\'' = true := by decide
  have first : p.after '\'' = p.marks 1 := after_of_inline quote begun
  have second : (p.marks 1).after '\'' = p.marks 2 := by
    rw [after_of_inline quote rfl, Place.marks_marks]
  rw [takeQuoted_go ((quotedMove_pending pending quote (by decide) right inside).trans
    wordMove_quote), first, takeQuoted_go (by rfl), second]

/-- A quote at the end of the line ends the text. -/
theorem takeQuoted_closing (pending : Pending part blanks) (begun : p.fresh = false)
    (right : indent ≤ p.column) (inside : 0 < p.column) :
    takeQuoted true indent part text ('\'' :: '\n' :: tail) p =
      some (.ofReversed (blanks ++ text) ('\n' :: tail) (p.marks 1)) := by
  have quote : isInline '\'' = true := by decide
  rw [takeQuoted_go ((quotedMove_pending pending quote (by decide) right inside).trans
    wordMove_quote), after_of_inline quote begun, takeQuoted]
  rfl

/-- The text between single quotes. -/
theorem takeQuoted_single (inline : ∀ c ∈ cs, isInline c = true) (pending : Pending part blanks)
    (begun : p.fresh = false) (right : indent ≤ p.column) (inside : 0 < p.column) :
    takeQuoted true indent part text (cs.flatMap doubled ++ '\'' :: '\n' :: tail) p =
      some (.ofReversed (cs.reverse ++ (blanks ++ text)) ('\n' :: tail)
        (p.marks ((cs.flatMap doubled).length + 1))) := by
  induction cs generalizing part blanks text p with
  | nil => exact takeQuoted_closing pending begun right inside
  | cons c cs ih =>
      have inline_c := inline c List.mem_cons_self
      have later := fun d mem => inline d (List.mem_cons_of_mem _ mem)
      have ih {part : QuotedPart} {blanks text : List Char} (pending : Pending part blanks)
          (count : Nat) :
          takeQuoted true indent part text (cs.flatMap doubled ++ '\'' :: '\n' :: tail)
              (p.marks count) =
            some (.ofReversed (cs.reverse ++ (blanks ++ text)) ('\n' :: tail)
              ((p.marks count).marks ((cs.flatMap doubled).length + 1))) :=
        ih later pending rfl (by change indent ≤ ((p.column + count : Nat) : Int); omega)
          (by change 0 < p.column + count; omega)
      rw [List.flatMap_cons, List.reverse_cons, List.append_assoc, List.append_assoc]
      by_cases space : c = ' '
      · subst space
        have alone : doubled ' ' = [' '] := rfl
        rw [alone, List.singleton_append, takeQuoted_space pending begun, ih (.gap _) 1,
          Place.marks_marks]
        simp [Nat.add_assoc, Nat.add_comm 1]
      · by_cases quote : c = '\''
        · subst quote
          have twice : doubled '\'' = ['\'', '\''] := rfl
          rw [twice, List.cons_append, List.singleton_append,
            takeQuoted_doubled pending begun right inside, ih .word 2, Place.marks_marks]
          simp [Nat.add_assoc, Nat.add_comm 2]
        · have alone : doubled c = [c] := if_neg quote
          have own : wordMove true (blanks ++ text) c = .go .word (c :: (blanks ++ text)) := by
            simp [wordMove, isBlank_of_inline inline_c, space, ne_newline_of_inline inline_c,
              quote]
          rw [alone, List.singleton_append,
            takeQuoted_char pending inline_c space begun right inside own, ih .word 1,
            Place.marks_marks]
          simp [Nat.add_assoc, Nat.add_comm 1]

/-! ### Double quotes -/

/-- A backslash and the letter of a character. -/
theorem takeQuoted_short (pending : Pending part blanks) (begun : p.fresh = false)
    (right : indent ≤ p.column) (inside : 0 < p.column) {d : Char} (inline : isInline d = true)
    (short : shortEscape? d = some c) :
    takeQuoted false indent part text ('\\' :: d :: cs) p =
      takeQuoted false indent .word (c :: (blanks ++ text)) cs (p.marks 2) := by
  have backslash : isInline '\\' = true := by decide
  have first : p.after '\\' = p.marks 1 := after_of_inline backslash begun
  have second : (p.marks 1).after d = p.marks 2 := by
    rw [after_of_inline inline rfl, Place.marks_marks]
  have begins : wordMove false (blanks ++ text) '\\' = .go .escape (blanks ++ text) := rfl
  have escape : escapeMove (blanks ++ text) d = .go .word (c :: (blanks ++ text)) := by
    simp [escapeMove, ne_newline_of_inline inline, short]
  have letter : takeQuoted false indent .escape (blanks ++ text) (d :: cs) (p.marks 1) =
      takeQuoted false indent .word (c :: (blanks ++ text)) cs ((p.marks 1).after d) :=
    takeQuoted_go escape
  rw [takeQuoted_go ((quotedMove_pending pending backslash (by decide) right inside).trans begins),
    first, letter, second]

theorem isAlphanum_of_digitValue? {d : Nat} (digit : digitValue? 16 c = some d) :
    c.isAlphanum = true := by
  unfold digitValue? at digit
  dsimp only at digit
  rw [Option.filter_eq_some_iff] at digit
  obtain ⟨value, -⟩ := digit
  rw [isAlphanum_iff]
  split at value
  · next decimal => exact .inr decimal
  · split at value
    · next lower =>
      refine .inl (.inr ⟨lower.1, ?_⟩)
      exact UInt32.le_trans lower.2 (by decide)
    · split at value
      · next upper =>
        refine .inl (.inl ⟨upper.1, ?_⟩)
        exact UInt32.le_trans upper.2 (by decide)
      · cases value

theorem isInline_of_digitValue? {d : Nat} (digit : digitValue? 16 c = some d) :
    isInline c = true := by
  apply isInline_of_isWordChar
  simp [isWordChar, isAlphanum_of_digitValue? digit]

/-- The digits of a code. -/
theorem takeQuoted_hex {ds : List Char} {value n : Nat}
    (read : readDigitsFrom? 16 value ds = some n) (valid : n.isValidChar) (some_digits : ds ≠ [])
    (begun : p.fresh = false) :
    takeQuoted false indent (.hex ds.length value) text (ds ++ cs) p =
      takeQuoted false indent .word (Char.ofNat n :: text) cs (p.marks ds.length) := by
  induction ds generalizing value p with
  | nil => exact absurd rfl some_digits
  | cons d ds ih =>
      rw [readDigitsFrom?, Option.bind_eq_some_iff] at read
      obtain ⟨digit, value_d, read⟩ := read
      have after : p.after d = p.marks 1 :=
        after_of_inline (isInline_of_digitValue? value_d) begun
      cases ds with
      | nil =>
          obtain rfl : value * 16 + digit = n := by simpa [readDigitsFrom?] using read
          have move : hexMove [d].length value text d =
              .go .word (Char.ofNat (value * 16 + digit) :: text) := by
            simp [hexMove, value_d, valid]
          have last : takeQuoted false indent (.hex [d].length value) text (d :: cs) p =
              takeQuoted false indent .word (Char.ofNat (value * 16 + digit) :: text) cs
                (p.after d) := takeQuoted_go move
          rw [List.singleton_append, last, after]
          rfl
      | cons e ds =>
          have move : hexMove (d :: e :: ds).length value text d =
              .go (.hex (e :: ds).length (value * 16 + digit)) text := by
            simp [hexMove, value_d]
          have step : takeQuoted false indent (.hex (d :: e :: ds).length value) text
              (d :: (e :: ds ++ cs)) p =
              takeQuoted false indent (.hex (e :: ds).length (value * 16 + digit)) text
                (e :: ds ++ cs) (p.after d) := takeQuoted_go move
          rw [List.cons_append, step, after, ih read (List.cons_ne_nil _ _) rfl, Place.marks_marks,
            Nat.add_comm 1]
          rfl

theorem readDigitsFrom?_hexDigits {width n : Nat} (wide : n < 16 ^ width) (pos : 0 < width) :
    readDigitsFrom? 16 0 (hexDigits width n) = some n ∧ (hexDigits width n).length = width := by
  have fits := (Nat.length_toDigits_le_iff (by decide : 1 < 16) pos).mpr wide
  constructor
  · rw [hexDigits, readDigitsFrom?_append, readDigitsFrom?_zeros (by decide) (by decide),
      Option.bind_some, (readDigitsFrom?_toDigits (by decide) (by decide) _ n).2]
    simp
  · simp only [hexDigits, zeros, List.length_append, List.length_replicate, List.length_map]
    omega

/-- A backslash, the letter of a width, and the code of a character. -/
theorem takeQuoted_code (pending : Pending part blanks) (begun : p.fresh = false)
    (right : indent ≤ p.column) (inside : 0 < p.column) {d : Char} {width : Nat}
    (letter : d = 'x' ∧ width = 2 ∨ d = 'u' ∧ width = 4 ∨ d = 'U' ∧ width = 8)
    (wide : c.toNat < 16 ^ width) :
    takeQuoted false indent part text ('\\' :: d :: (hexDigits width c.toNat ++ cs)) p =
      takeQuoted false indent .word (c :: (blanks ++ text)) cs (p.marks (2 + width)) := by
  have backslash : isInline '\\' = true := by decide
  have inline : isInline d = true ∧ 0 < width ∧ d ≠ '\n' ∧ shortEscape? d = none ∧
      escapeDigits? d = some width := by
    rcases letter with ⟨rfl, rfl⟩ | ⟨rfl, rfl⟩ | ⟨rfl, rfl⟩ <;> decide
  obtain ⟨inline, pos, newline, short, long⟩ := inline
  obtain ⟨read, length⟩ := readDigitsFrom?_hexDigits wide pos
  have first : p.after '\\' = p.marks 1 := after_of_inline backslash begun
  have second : (p.marks 1).after d = p.marks 2 := by
    rw [after_of_inline inline rfl, Place.marks_marks]
  have begins : wordMove false (blanks ++ text) '\\' = .go .escape (blanks ++ text) := rfl
  have escape : escapeMove (blanks ++ text) d = .go (.hex width 0) (blanks ++ text) := by
    simp [escapeMove, newline, short, long]
  have mark : takeQuoted false indent .escape (blanks ++ text)
      (d :: (hexDigits width c.toNat ++ cs)) (p.marks 1) =
      takeQuoted false indent (.hex width 0) (blanks ++ text) (hexDigits width c.toNat ++ cs)
        ((p.marks 1).after d) := takeQuoted_go escape
  have some_digits : hexDigits width c.toNat ≠ [] := by
    rw [← List.length_pos_iff, length]
    exact pos
  have code : takeQuoted false indent (.hex (hexDigits width c.toNat).length 0) (blanks ++ text)
      (hexDigits width c.toNat ++ cs) (p.marks 2) = takeQuoted false indent .word
        (Char.ofNat c.toNat :: (blanks ++ text)) cs
        ((p.marks 2).marks (hexDigits width c.toNat).length) :=
    takeQuoted_hex read c.valid some_digits rfl
  rw [length, Char.ofNat_toNat, Place.marks_marks] at code
  rw [takeQuoted_go ((quotedMove_pending pending backslash (by decide) right inside).trans begins),
    first, mark, second, code]

/-- A character that is escaped is read back. -/
theorem takeQuoted_hidden (pending : Pending part blanks) (begun : p.fresh = false)
    (right : indent ≤ p.column) (inside : 0 < p.column)
    (hidden : (isShown c && !isLineBreak c && c != '"' && c != '\\') = false) :
    takeQuoted false indent part text (escaped c ++ cs) p =
      takeQuoted false indent .word (c :: (blanks ++ text)) cs (p.marks (escaped c).length) := by
  have short {c d : Char} (inline : isInline d = true) (short : shortEscape? d = some c) :
      takeQuoted false indent part text (['\\', d] ++ cs) p =
        takeQuoted false indent .word (c :: (blanks ++ text)) cs (p.marks 2) :=
    takeQuoted_short pending begun right inside inline short
  have code {c d : Char} {width : Nat}
      (letter : d = 'x' ∧ width = 2 ∨ d = 'u' ∧ width = 4 ∨ d = 'U' ∧ width = 8)
      (wide : c.toNat < 16 ^ width) :
      takeQuoted false indent part text ('\\' :: d :: hexDigits width c.toNat ++ cs) p =
        takeQuoted false indent .word (c :: (blanks ++ text)) cs
          (p.marks ('\\' :: d :: hexDigits width c.toNat).length) := by
    have pos : 0 < width := by
      rcases letter with ⟨-, rfl⟩ | ⟨-, rfl⟩ | ⟨-, rfl⟩ <;> decide
    rw [List.length_cons, List.length_cons, (readDigitsFrom?_hexDigits wide pos).2, Nat.add_assoc,
      Nat.add_comm width]
    exact takeQuoted_code pending begun right inside letter wide
  unfold escaped
  rw [hidden, if_neg Bool.false_ne_true]
  split
  iterate 14 exact short (by decide) rfl
  · dsimp only
    split
    · next small => exact code (.inl ⟨rfl, rfl⟩) (Nat.lt_of_le_of_lt small (by decide))
    · split
      · next small => exact code (.inr (.inl ⟨rfl, rfl⟩)) (Nat.lt_of_le_of_lt small (by decide))
      · have small : c.toNat < 0x110000 := by
          rcases c.valid with low | ⟨-, high⟩
          · exact Nat.lt_trans low (by decide)
          · exact high
        exact code (.inr (.inr ⟨rfl, rfl⟩)) (Nat.lt_trans small (by decide))

/-- A character between double quotes. -/
theorem takeQuoted_escaped (pending : Pending part blanks) (begun : p.fresh = false)
    (right : indent ≤ p.column) (inside : 0 < p.column) (c : Char) :
    ∃ next more left, Pending next left ∧ left ++ more = c :: (blanks ++ text) ∧
      ∀ cs, takeQuoted false indent part text (escaped c ++ cs) p =
        takeQuoted false indent next more cs (p.marks (escaped c).length) := by
  cases hidden : isShown c && !isLineBreak c && c != '"' && c != '\\' with
  | false =>
      exact ⟨_, _, [], .word, rfl, fun _ => takeQuoted_hidden pending begun right inside hidden⟩
  | true =>
      have alone : escaped c = [c] := if_pos hidden
      simp only [Bool.and_eq_true, bne_iff_ne] at hidden
      obtain ⟨⟨inline, quote⟩, backslash⟩ := hidden
      have inline : isInline c = true := by
        rw [isInline, Bool.and_eq_true]
        exact inline
      rw [alone]
      by_cases space : c = ' '
      · subst space
        exact ⟨_, text, ' ' :: blanks, .gap _, rfl, fun _ => takeQuoted_space pending begun⟩
      · have own : wordMove false (blanks ++ text) c = .go .word (c :: (blanks ++ text)) := by
          simp [wordMove, isBlank_of_inline inline, space, ne_newline_of_inline inline, quote,
            backslash]
        exact ⟨_, _, [], .word, rfl,
          fun _ => takeQuoted_char pending inline space begun right inside own⟩

/-- The text between double quotes. -/
theorem takeQuoted_double (pending : Pending part blanks) (begun : p.fresh = false)
    (right : indent ≤ p.column) (inside : 0 < p.column) :
    takeQuoted false indent part text (cs.flatMap escaped ++ '"' :: tail) p =
      some (.ofReversed (cs.reverse ++ (blanks ++ text)) tail
        (p.marks ((cs.flatMap escaped).length + 1))) := by
  induction cs generalizing part blanks text p with
  | nil =>
      have quote : isInline '"' = true := by decide
      have ends : quotedMove false indent part text '"' tail p = .endAfter (blanks ++ text) :=
        quotedMove_pending pending quote (by decide) right inside
      rw [List.flatMap_nil, List.nil_append, takeQuoted, ends]
      · rfl
  | cons c cs ih =>
      rw [List.flatMap_cons, List.append_assoc]
      obtain ⟨next, more, left, waiting, same, step⟩ :=
        takeQuoted_escaped pending begun right inside c
      rw [step, ih waiting rfl, same, Place.marks_marks]
      · simp [Nat.add_assoc]
      · change indent ≤ ((p.column + (escaped c).length : Nat) : Int)
        omega
      · change 0 < p.column + (escaped c).length
        omega

end Line

/-! ### What is written -/

theorem isLineBreak_of_inline {c : Char} (inline : isInline c = true) : isLineBreak c = false := by
  rw [isInline, Bool.and_eq_true, Bool.not_eq_true'] at inline
  exact inline.2

/-- A text on one line is not indented. -/
theorem indented_of_inline (indent : Nat) {cs : List Char} (inline : ∀ c ∈ cs, isInline c = true) :
    indented indent false cs = cs := by
  induction cs with
  | nil => rfl
  | cons c cs ih =>
      rw [indented, isLineBreak_of_inline (inline c List.mem_cons_self),
        ih fun d mem => inline d (List.mem_cons_of_mem _ mem)]
      rfl

theorem inline_doubled {cs : List Char} (inline : ∀ c ∈ cs, isInline c = true) :
    ∀ c ∈ cs.flatMap doubled, isInline c = true := by
  intro c mem
  obtain ⟨d, mem_d, mem⟩ := List.mem_flatMap.mp mem
  unfold doubled at mem
  split at mem
  · have quote : c = '\'' := by simpa using mem
    rw [quote]
    decide
  · rw [List.mem_singleton.mp mem]
    exact inline d mem_d

theorem singleQuoted_of_inline (indent : Nat) {cs : List Char}
    (inline : ∀ c ∈ cs, isInline c = true) :
    singleQuoted indent cs = '\'' :: (cs.flatMap doubled ++ ['\'']) := by
  have open_ : cs.getLast?.any isLineBreak = false := by
    cases last : cs.getLast? with
    | none => rfl
    | some c => exact isLineBreak_of_inline (inline c (List.mem_of_getLast? last))
  change '\'' :: indented indent false (cs.flatMap doubled) ++
    (if cs.getLast?.any isLineBreak then spaces indent else []) ++ ['\''] = _
  rw [indented_of_inline indent (inline_doubled inline), open_, if_neg Bool.false_ne_true,
    List.append_nil]
  rfl

/-! ### Which texts stand in quotes -/

/-- A text without the two line breaks that can be shown, which nothing in the text escapes
unless it stands in double quotes. -/
def Unseparated (cs : List Char) : Prop := ∀ c ∈ cs, c ≠ '\u2028' ∧ c ≠ '\u2029'

instance : DecidablePred Unseparated := fun cs =>
  decidable_of_iff (cs.all fun c => c != '\u2028' && c != '\u2029') (by simp [Unseparated])

theorem inline_of_unseparated {c : Char} (shown : isShown c = true) (newline : c ≠ '\n')
    (unseparated : c ≠ '\u2028' ∧ c ≠ '\u2029') : isInline c = true := by
  have return_ : c ≠ '\r' := by
    rintro rfl
    exact absurd shown (by decide)
  have next_line : c ≠ '\u0085' := by
    rintro rfl
    exact absurd shown (by decide)
  have unbroken : isLineBreak c = false := by
    simp [isLineBreak, newline, return_, next_line, unseparated]
  rw [isInline, shown, unbroken]
  rfl

/-- Why a text stands in single quotes. -/
theorem form_eq_singleQuoted {cs : List Char} (form : TextForm.of cs = .singleQuoted) :
    '\n' ∉ cs ∧ hasHidden cs = false := by
  unfold TextForm.of at form
  dsimp only at form
  split at form
  · split at form <;> cases form
  · next newline =>
    have newline : '\n' ∉ cs := by simpa using newline
    refine ⟨newline, ?_⟩
    cases hidden : hasHidden cs with
    | false => rfl
    | true =>
        rw [hidden] at form
        simp only [Bool.true_or, if_true] at form
        split at form
        · cases form
        · split at form <;> cases form

theorem inline_of_singleQuoted {cs : List Char} (form : TextForm.of cs = .singleQuoted)
    (unseparated : Unseparated cs) : ∀ c ∈ cs, isInline c = true := by
  obtain ⟨newline, hidden⟩ := form_eq_singleQuoted form
  intro c mem
  have shown : isShown c = true := by
    simpa using List.any_eq_false.mp hidden c mem
  exact inline_of_unseparated shown (fun same => newline (same ▸ mem)) (unseparated c mem)

end Voicing.Yaml
