import Voicing.Yaml.Document
import Voicing.Yaml.Scalar

/-!
Plain text, read back.

A text is written plain if nothing in it could end a plain scalar or begin anything else.
Such a text is `Plain`. The reader takes it off a line as it is, and goes on past the line
break to the next token, which is further left.

* `takePlain_line`: inside a line, character by character.
* `takePlain_text`: a whole plain text and the gap behind it.
* `Plain.of_form`, `Plain.of_word`: which texts are plain.
-/

namespace Voicing.Yaml

/-! ### Characters -/

/-- A character that is shown and breaks no line stands for itself. -/
def isInline (c : Char) : Bool := isShown c && !isLineBreak c

section Inline

variable {c : Char} (inline : isInline c = true)
include inline

theorem ne_newline_of_inline : c ≠ '\n' := by
  rintro rfl
  exact absurd inline (by decide)

theorem ne_tab_of_inline : c ≠ '\t' := by
  rintro rfl
  exact absurd inline (by decide)

theorem isBlank_of_inline : isBlank c = (c == ' ') := by
  have tab : (c == '\t') = false := beq_eq_false_iff_ne.mpr (ne_tab_of_inline inline)
  unfold isBlank
  rw [tab, Bool.or_false]

theorem isWhite_of_inline : isWhite c = (c == ' ') := by
  have tab : (c == '\t') = false := beq_eq_false_iff_ne.mpr (ne_tab_of_inline inline)
  have null : (c == '\x00') = false := by
    rw [beq_eq_false_iff_ne]
    rintro rfl
    exact absurd inline (by decide)
  unfold isInline at inline
  rw [Bool.and_eq_true, Bool.not_eq_true'] at inline
  unfold isWhite
  rw [tab, null, inline.2, Bool.or_false, Bool.or_false, Bool.or_false]

end Inline

/-- A text goes on with the first character of a token, or ends. -/
def BeginsToken (rest : List Char) : Prop :=
  ∀ c ∈ rest.head?, c ≠ ' ' ∧ c ≠ '\t' ∧ c ≠ '\n' ∧ c ≠ '#'

/-! ### Places -/

namespace Place

variable (p : Place)

theorem marks_marks (m n : Nat) : (p.marks m).marks n = p.marks (m + n) := by
  unfold marks blanks
  rw [Nat.add_assoc, Nat.add_assoc]

/-- Once a line has begun, blanks are like all other characters on it. -/
theorem blanks_eq_marks (begun : p.fresh = false) (n : Nat) : p.blanks n = p.marks n := by
  unfold marks blanks
  rw [begun]

end Place

/-! ### Plain texts -/

/-- What ends a plain scalar when it stands next to what is in front of it. -/
def endsBetween (a b : Char) : Bool := (a == ':' && isWhite b) || (b == '#' && isWhite a)

/-- A text that can stand plain on a line. -/
structure Plain (cs : List Char) : Prop where
  inline : ∀ c ∈ cs, isInline c = true
  nonempty : cs ≠ []
  begins : beginsPlain cs = true
  inner : anyNeighbours endsBetween cs = false
  first : ∀ c ∈ cs.head?, c ≠ ' '
  last : ∀ c ∈ cs.getLast?, c ≠ ' ' ∧ c ≠ ':'

/-! ### On a line -/

section Line

variable {margin : Int} {text blanks tail : List Char} {p : Place} {c : Char} {cs : List Char}

/-- A colon that does not end the scalar, or any other character. -/
theorem isPlainChar_of {next : List Char} (colon : c = ':' → atGap next = false) :
    isPlainChar false c next = true := by
  unfold isPlainChar
  by_cases same : c = ':'
  · simp [colon same]
  · simp [same]

/-- A colon inside a plain text is not followed by a gap. -/
theorem atGap_of_colon (inline : ∀ c ∈ cs, isInline c = true)
    (inner : anyNeighbours endsBetween (':' :: cs) = false)
    (last : ∀ c ∈ (':' :: cs).getLast?, c ≠ ':') : atGap (cs ++ '\n' :: tail) = false := by
  cases cs with
  | nil => exact absurd rfl (last ':' rfl)
  | cons d cs =>
      have inline_d := inline d List.mem_cons_self
      have dark : isWhite d = false := by
        have ends : endsBetween ':' d = false := by
          rw [anyNeighbours, Bool.or_eq_false_iff] at inner
          exact inner.1
        simpa [endsBetween] using (Bool.or_eq_false_iff.mp ends).1
      rw [isWhite_of_inline inline_d] at dark
      have newline : (d == '\n') = false := beq_eq_false_iff_ne.mpr (ne_newline_of_inline inline_d)
      change (isBlank d || d == '\n') = false
      rw [isBlank_of_inline inline_d, dark, newline]
      rfl

/-- A character of a word. -/
theorem takePlain_word (inline : isInline c = true) (word : c ≠ ' ')
    (plain : isPlainChar false c cs = true) {part : PlainPart}
    (part_eq : part = .start ∨ part = .word) :
    takePlain false margin part text [] 0 (c :: cs) p =
      takePlain false margin .word (c :: text) [] 0 cs (p.marks 1) := by
  have blank : isBlank c = false := by
    rw [isBlank_of_inline inline]
    exact beq_eq_false_iff_ne.mpr word
  rcases part_eq with rfl | rfl <;> rw [takePlain] <;>
    simp [ne_newline_of_inline inline, blank, plain]

/-- The first blank after a word. -/
theorem takePlain_blank :
    takePlain false margin .word text [] 0 (' ' :: cs) p =
      takePlain false margin .gap text [' '] 0 cs (p.blanks 1) := by
  rw [takePlain]
  simp [isBlank]

/-- A further blank. -/
theorem takePlain_blanks (begun : p.fresh = false) :
    takePlain false margin .gap text blanks 0 (' ' :: cs) p =
      takePlain false margin .gap text (' ' :: blanks) 0 cs (p.blanks 1) := by
  rw [takePlain]
  · simp [isBlank, begun]
  · simp
  · simp

/-- The first character of a word after blanks. -/
theorem takePlain_gap (inline : isInline c = true) (word : c ≠ ' ') (comment : c ≠ '#')
    (plain : isPlainChar false c cs = true) (begun : p.fresh = false)
    (right : margin ≤ p.column) :
    takePlain false margin .gap text blanks 0 (c :: cs) p =
      takePlain false margin .word (c :: (blanks ++ text)) [] 0 cs (p.marks 1) := by
  have blank : isBlank c = false := by
    rw [isBlank_of_inline inline]
    exact beq_eq_false_iff_ne.mpr word
  have inside : ¬ (p.column : Int) < margin := by omega
  rw [takePlain] <;>
    simp [ne_newline_of_inline inline, blank, begun, inside, comment, plain, foldGap]

/-- The end of a line. -/
theorem takePlain_newline :
    takePlain false margin .word text [] 0 ('
' :: cs) p =
      takePlain false margin .gap text [] 1 cs p.newline := by
  rw [takePlain]
  simp

/-- The blanks in front of the next line. -/
theorem takePlain_indent (j : Nat) (line column index : Nat) :
    takePlain false margin .gap text [] 1 (spaces j ++ cs) ⟨line, column, index, true⟩ =
      takePlain false margin .gap text [] 1 cs ⟨line, column + j, index + j, true⟩ := by
  induction j generalizing column index with
  | zero => rfl
  | succ j ih =>
      have one : spaces (j + 1) ++ cs = ' ' :: (spaces j ++ cs) := rfl
      rw [one, takePlain]
      · have next : (⟨line, column, index, true⟩ : Place).blanks 1 =
            ⟨line, column + 1, index + 1, true⟩ := rfl
        simp only [isBlank, next, ih]
        simp [Nat.add_assoc, Nat.add_comm 1]
      · simp
      · simp

/-- What follows further left ends the scalar. -/
theorem takePlain_left (begins : BeginsToken cs) (left : (p.column : Int) < margin)
    {breaks : Nat} :
    takePlain false margin .gap text [] breaks cs p = some (.ofReversed text cs p) := by
  cases cs with
  | nil => rw [takePlain]
  | cons c cs =>
      obtain ⟨space, tab, newline, -⟩ := begins c rfl
      have blank : isBlank c = false := by simp [isBlank, space, tab]
      rw [takePlain] <;> simp [newline, blank, left]

/-- The rest of a plain text after the character `before`, and the end of its line. While
blanks are passed over they are not yet part of the text. -/
theorem takePlain_line {before : Char} (inline : ∀ c ∈ cs, isInline c = true)
    (inner : anyNeighbours endsBetween (before :: cs) = false)
    (last : ∀ c ∈ (before :: cs).getLast?, c ≠ ' ' ∧ c ≠ ':')
    (begun : p.fresh = false) (right : margin ≤ p.column)
    {part : PlainPart}
    (state : before ≠ ' ' ∧ part = .word ∧ blanks = [] ∨ before = ' ' ∧ part = .gap) :
    takePlain false margin part text blanks 0 (cs ++ '
' :: tail) p =
      takePlain false margin .gap (cs.reverse ++ (blanks ++ text)) [] 1 tail
        (p.marks cs.length).newline := by
  induction cs generalizing before text blanks p part with
  | nil =>
      rcases state with ⟨-, rfl, rfl⟩ | ⟨rfl, -⟩
      · exact takePlain_newline
      · exact absurd rfl (last ' ' rfl).1
  | cons c cs ih =>
      have inline_c := inline c List.mem_cons_self
      have inner_c : endsBetween before c = false ∧
          anyNeighbours endsBetween (c :: cs) = false := by
        simpa [anyNeighbours] using inner
      have last_c : ∀ d ∈ (c :: cs).getLast?, d ≠ ' ' ∧ d ≠ ':' := by
        simpa [List.getLast?_cons_cons] using last
      have along : (p.marks 1).marks cs.length = p.marks (c :: cs).length := by
        rw [Place.marks_marks, List.length_cons, Nat.add_comm]
      have still : (p.marks 1).fresh = false := rfl
      have right_c : margin ≤ (p.marks 1).column := by
        have next : (p.marks 1).column = p.column + 1 := rfl
        omega
      have ih {part : PlainPart} {blanks text : List Char}
          (state : c ≠ ' ' ∧ part = .word ∧ blanks = [] ∨ c = ' ' ∧ part = .gap) :
          takePlain false margin part text blanks 0 (cs ++ '\n' :: tail) (p.marks 1) =
            takePlain false margin .gap (cs.reverse ++ (blanks ++ text)) [] 1 tail
              ((p.marks 1).marks cs.length).newline :=
        ih (fun d mem => inline d (List.mem_cons_of_mem _ mem)) inner_c.2 last_c still right_c
          state
      rw [along] at ih
      rw [List.reverse_cons, List.append_assoc]
      by_cases space : c = ' '
      · subst space
        rcases state with ⟨-, rfl, rfl⟩ | ⟨rfl, rfl⟩
        · rw [List.cons_append, takePlain_blank, Place.blanks_eq_marks _ begun,
            ih (.inr ⟨rfl, rfl⟩)]
          rfl
        · rw [List.cons_append, takePlain_blanks begun, Place.blanks_eq_marks _ begun,
            ih (.inr ⟨rfl, rfl⟩)]
          rfl
      · have plain : isPlainChar false c (cs ++ '\n' :: tail) = true := by
          apply isPlainChar_of
          rintro rfl
          exact atGap_of_colon (fun d mem => inline d (List.mem_cons_of_mem _ mem)) inner_c.2
            (fun d mem => (last_c d mem).2)
        rcases state with ⟨-, rfl, rfl⟩ | ⟨rfl, rfl⟩
        · rw [List.cons_append, takePlain_word inline_c space plain (.inr rfl),
            ih (.inl ⟨space, rfl, rfl⟩)]
          rfl
        · have comment : c ≠ '#' := by
            rintro rfl
            exact absurd inner_c.1 (by decide)
          rw [List.cons_append, takePlain_gap inline_c space comment plain begun right,
            ih (.inl ⟨space, rfl, rfl⟩)]
          rfl

/-- The scanner takes a plain text off its line, and goes on with what follows further
left. -/
theorem takePlain_text (plain : Plain cs) (right : margin ≤ p.column) {j : Nat}
    (left : (j : Int) < margin) {rest : List Char} (begins : BeginsToken rest) :
    takePlain false margin .start [] [] 0 (cs ++ '\n' :: (spaces j ++ rest)) p =
      some ⟨cs, rest, p.line + 1, j, p.index + cs.length + 1 + j, true⟩ := by
  obtain ⟨inline, nonempty, -, inner, first, last⟩ := plain
  cases cs with
  | nil => exact absurd rfl nonempty
  | cons c cs =>
      have space : c ≠ ' ' := first c rfl
      have char : isPlainChar false c (cs ++ '\n' :: (spaces j ++ rest)) = true := by
        apply isPlainChar_of
        rintro rfl
        exact atGap_of_colon (fun d mem => inline d (List.mem_cons_of_mem _ mem)) inner
          (fun d mem => (last d mem).2)
      have right_c : margin ≤ (p.marks 1).column := by
        have next : (p.marks 1).column = p.column + 1 := rfl
        omega
      rw [List.cons_append, takePlain_word (inline c List.mem_cons_self) space char (.inl rfl),
        takePlain_line (fun d mem => inline d (List.mem_cons_of_mem _ mem)) inner last rfl right_c
          (.inl ⟨space, rfl, rfl⟩), Place.marks_marks]
      have ended : (p.marks (1 + cs.length)).newline =
          ⟨p.line + 1, 0, p.index + (c :: cs).length + 1, true⟩ := by
        rw [List.length_cons, Nat.add_comm cs.length]
        rfl
      rw [ended, takePlain_indent, Nat.zero_add, takePlain_left begins left]
      simp [Taken.ofReversed]

end Line

/-! ### Which texts are plain -/

/-- Why a text is written plain. -/
theorem form_eq_plain {cs : List Char} (form : TextForm.of cs = .plain) :
    isAmbiguous cs = false ∧ cs.any isLineBreak = false ∧ hasHidden cs = false ∧
      beginsPlain cs = true ∧ endsPlain cs = false ∧ cs.head?.any isSpaceOrBreak = false ∧
      cs.getLast?.any isSpaceOrBreak = false := by
  unfold TextForm.of at form
  dsimp only at form
  split at form
  · split at form <;> cases form
  · split at form
    · split at form <;> cases form
    · next ambiguous =>
      split at form
      · split at form <;> cases form
      · next special =>
        simp only [Bool.or_eq_true, Bool.not_eq_true', not_or, Bool.not_eq_true,
          Bool.not_eq_false] at special
        obtain ⟨⟨⟨⟨⟨breaks, hidden⟩, begins⟩, ends⟩, first⟩, last⟩ := special
        exact ⟨Bool.eq_false_iff.mpr ambiguous, breaks, hidden, begins, ends, first, last⟩

/-- A text that is written plain. -/
theorem Plain.of_form {cs : List Char} (form : TextForm.of cs = .plain) : Plain cs := by
  obtain ⟨ambiguous, breaks, hidden, begins, ends, first, last⟩ := form_eq_plain form
  rw [endsPlain, Bool.or_eq_false_iff] at ends
  constructor
  · intro c mem
    have shown : isShown c = true := by
      simpa using List.any_eq_false.mp hidden c mem
    have unbroken : isLineBreak c = false := by
      simpa using List.any_eq_false.mp breaks c mem
    rw [isInline, shown, unbroken]
    rfl
  · rintro rfl
    exact absurd ambiguous (by decide)
  · exact begins
  · exact ends.1
  · rintro c mem rfl
    rw [Option.mem_def.mp mem] at first
    exact absurd first (by decide)
  · intro c mem
    rw [Option.mem_def.mp mem] at last ends
    constructor
    · rintro rfl
      exact absurd last (by decide)
    · rintro rfl
      exact absurd ends.2 (by decide)

/-- The characters of words and numbers. -/
def isWordChar (c : Char) : Bool := c.isAlphanum || c == '_' || c == '-' || c == '+' || c == '.'

/-- A word or a number: it begins with a letter or digit, behind a hyphen perhaps. -/
structure IsWord (cs : List Char) : Prop where
  chars : ∀ c ∈ cs, isWordChar c = true
  begins : ∃ c rest, cs = c :: rest ∧
    (c.isAlphanum = true ∨ c = '-' ∧ ∃ d others, rest = d :: others ∧ d.isAlphanum = true)

theorem isAlphanum_iff {c : Char} : c.isAlphanum = true ↔
    (65 ≤ c.val ∧ c.val ≤ 90 ∨ 97 ≤ c.val ∧ c.val ≤ 122) ∨ c.isDigit = true := by
  delta Char.isAlphanum Char.isAlpha Char.isUpper Char.isLower
  simp only [Bool.or_eq_true, Bool.and_eq_true, decide_eq_true_eq, ge_iff_le]
  rfl

theorem toNat_lt_of_isAlphanum {c : Char} (alphanum : c.isAlphanum = true) : c.toNat < 128 := by
  have value : c.toNat = c.val.toNat := rfl
  rw [isAlphanum_iff] at alphanum
  simp only [Char.isDigit, Bool.and_eq_true, decide_eq_true_eq, UInt32.le_iff_toNat_le, GE.ge]
    at alphanum
  simp at alphanum
  omega

theorem toNat_lt_of_isWordChar {c : Char} (word : isWordChar c = true) : c.toNat < 128 := by
  simp only [isWordChar, Bool.or_eq_true, beq_iff_eq] at word
  rcases word with (((alphanum | rfl) | rfl) | rfl) | rfl
  · exact toNat_lt_of_isAlphanum alphanum
  all_goals decide

/-- What holds of the ASCII characters of a kind, looked at one by one. -/
theorem forall_ascii {kind : Char → Bool} (P : Char → Bool)
    (each : ∀ n < 128, kind (Char.ofNat n) = true → P (Char.ofNat n) = true) {c : Char}
    (ascii : c.toNat < 128) (of_kind : kind c = true) : P c = true := by
  have same : Char.ofNat c.toNat = c := Char.ofNat_toNat c
  have here := each c.toNat ascii
  rw [same] at here
  exact here of_kind

theorem isInline_of_isWordChar {c : Char} (word : isWordChar c = true) : isInline c = true :=
  forall_ascii isInline (by decide) (toNat_lt_of_isWordChar word) word

/-- A character of a word has no other meaning inside a plain text. -/
theorem ordinary_of_isWordChar {c : Char} (word : isWordChar c = true) :
    c ≠ ' ' ∧ c ≠ ':' ∧ c ≠ '#' ∧ openingMarks.contains c = false := by
  have all := forall_ascii
    (fun c => c != ' ' && c != ':' && c != '#' && !openingMarks.contains c) (by decide)
    (toNat_lt_of_isWordChar word) word
  simp only [Bool.and_eq_true, bne_iff_ne, Bool.not_eq_true'] at all
  exact ⟨all.1.1.1, all.1.1.2, all.1.2, all.2⟩

/-- A letter or digit can begin a text by itself. -/
theorem ne_mark_of_isAlphanum {c : Char} (alphanum : c.isAlphanum = true) :
    c ≠ '?' ∧ c ≠ ':' ∧ c ≠ '-' ∧ c ≠ '.' := by
  have all := forall_ascii (fun c => c != '?' && c != ':' && c != '-' && c != '.') (by decide)
    (toNat_lt_of_isAlphanum alphanum) alphanum
  simp only [Bool.and_eq_true, bne_iff_ne] at all
  exact ⟨all.1.1.1, all.1.1.2, all.1.2, all.2⟩

theorem anyNeighbours_eq_false {p : Char → Char → Bool} {cs : List Char}
    (none_related : ∀ a ∈ cs, ∀ b ∈ cs, p a b = false) : anyNeighbours p cs = false := by
  induction cs with
  | nil => rfl
  | cons a cs ih =>
      cases cs with
      | nil => rfl
      | cons b cs =>
          rw [anyNeighbours, none_related a List.mem_cons_self b (by simp)]
          exact ih fun c mem d mem' =>
            none_related c (List.mem_cons_of_mem _ mem) d (List.mem_cons_of_mem _ mem')

theorem IsWord.beginsPlain {cs : List Char} (word : IsWord cs) : beginsPlain cs = true := by
  obtain ⟨chars, c, rest, rfl, begins⟩ := word
  have opening := (ordinary_of_isWordChar (chars c List.mem_cons_self)).2.2.2
  unfold Yaml.beginsPlain
  dsimp only
  rcases begins with alphanum | ⟨rfl, d, others, rfl, alphanum⟩
  · obtain ⟨question, colon, hyphen, point⟩ := ne_mark_of_isAlphanum alphanum
    have mark : (c == '?' || c == ':' || c == '-') = false := by simp [question, colon, hyphen]
    have hyphens : ((c :: rest).take 3 != ['-', '-', '-']) = true := by simp [hyphen]
    have points : ((c :: rest).take 3 != ['.', '.', '.']) = true := by simp [point]
    rw [opening, mark, hyphens, points]
    rfl
  · obtain ⟨-, -, hyphen, -⟩ := ne_mark_of_isAlphanum alphanum
    have word_d := chars d (by simp)
    have alone : (d :: others).head?.all isWhite = false := by
      have space := (ordinary_of_isWordChar word_d).1
      simp [isWhite_of_inline (isInline_of_isWordChar word_d), space]
    have hyphens : (('-' :: d :: others).take 3 != ['-', '-', '-']) = true := by simp [hyphen]
    have points : (('-' :: d :: others).take 3 != ['.', '.', '.']) = true := by simp
    rw [opening, alone, hyphens, points]
    rfl

theorem Plain.of_word {cs : List Char} (word : IsWord cs) : Plain cs := by
  have begins := word.beginsPlain
  obtain ⟨chars, c, rest, rfl, -⟩ := word
  have ordinary := fun d mem => ordinary_of_isWordChar (chars d mem)
  constructor
  · exact fun d mem => isInline_of_isWordChar (chars d mem)
  · exact List.cons_ne_nil c rest
  · exact begins
  · apply anyNeighbours_eq_false
    intro a mem_a b mem_b
    simp [endsBetween, (ordinary a mem_a).2.1, (ordinary b mem_b).2.2.1]
  · exact fun d mem => (ordinary d (List.mem_of_mem_head? mem)).1
  · exact fun d mem =>
      ⟨(ordinary d (List.mem_of_getLast? mem)).1, (ordinary d (List.mem_of_getLast? mem)).2.1⟩

section Key

variable {margin : Int} {text cs tail : List Char} {p : Place}

/-- The rest of a word, and the colon behind it. -/
theorem takePlain_colon (chars : ∀ c ∈ cs, isWordChar c = true) (gap : atGap tail = true)
    (begun : p.fresh = false) :
    takePlain false margin .word text [] 0 (cs ++ ':' :: tail) p =
      some (.ofReversed (cs.reverse ++ text) (':' :: tail) (p.marks cs.length)) := by
  induction cs generalizing text p with
  | nil =>
      have here : p.marks 0 = p := by
        cases p
        cases begun
        rfl
      have ends : isPlainChar false ':' tail = false := by simp [isPlainChar, gap]
      rw [List.nil_append, takePlain, List.length_nil, here]
      simp [isBlank, ends]
  | cons c cs ih =>
      have word_c := chars c List.mem_cons_self
      obtain ⟨space, colon, -, -⟩ := ordinary_of_isWordChar word_c
      have char : isPlainChar false c (cs ++ ':' :: tail) = true :=
        isPlainChar_of fun same => absurd same colon
      rw [List.cons_append, takePlain_word (isInline_of_isWordChar word_c) space char (.inr rfl),
        ih (fun d mem => chars d (List.mem_cons_of_mem _ mem)) rfl, Place.marks_marks]
      simp [Nat.add_comm 1]

/-- A word in front of a colon. -/
theorem takePlain_key (word : IsWord cs) (gap : atGap tail = true) :
    takePlain false margin .start [] [] 0 (cs ++ ':' :: tail) p =
      some ⟨cs, ':' :: tail, p.marks cs.length⟩ := by
  obtain ⟨chars, c, rest, rfl, -⟩ := word
  have word_c := chars c List.mem_cons_self
  obtain ⟨space, colon, -, -⟩ := ordinary_of_isWordChar word_c
  have char : isPlainChar false c (rest ++ ':' :: tail) = true :=
    isPlainChar_of fun same => absurd same colon
  rw [List.cons_append, takePlain_word (isInline_of_isWordChar word_c) space char (.inl rfl),
    takePlain_colon (fun d mem => chars d (List.mem_cons_of_mem _ mem)) gap rfl,
    Place.marks_marks]
  simp [Taken.ofReversed, Nat.add_comm 1]

end Key

end Voicing.Yaml
