import Voicing.Proofs.Yaml.QuotedText

/-!
Literal blocks, read back.

A text with line breaks is written as a literal block, one indented line for each of its own.
The head of the block tells the indentation where the first line does not show it, and what
becomes of the line breaks at the end. While the reader is between two lines, the line breaks
behind the last one are counted and not yet part of the text.

* `takeBlockLines_text`: the lines of a block, one character of the text after the other, inside
  a line and between two of them.
* `takeBlock_literal`: a whole block, up to what is further left.
-/

namespace Voicing.Yaml

/-- A character of a literal block. -/
def IsLiteralChar (c : Char) : Prop := c = '\n' ∨ isInline c = true

theorem isLineBreak_iff {c : Char} (literal : IsLiteralChar c) :
    isLineBreak c = true ↔ c = '\n' := by
  constructor
  · intro breaks
    rcases literal with newline | inline
    · exact newline
    · exact absurd breaks (by rw [isLineBreak_of_inline inline]; exact Bool.false_ne_true)
  · rintro rfl
    rfl

theorem inline_of_ne {c : Char} (literal : IsLiteralChar c) (word : c ≠ '\n') :
    isInline c = true :=
  literal.resolve_left word

/-! ### Lines -/

/-- The text so far, last character first, with the line breaks behind it. -/
def BlockState.whole (s : BlockState) : List Char :=
  List.replicate (s.empty + if s.ended then 1 else 0) '\n' ++ s.text

/-- The text so far does not end in a line break that is not counted. -/
def BlockState.Counted (s : BlockState) : Prop := ∀ c ∈ s.text.head?, c ≠ '\n'

section Lines

variable {indent : Nat} {s : BlockState} {rest : List Char} {p : Place}

theorem takeBlockLines_spaces (n : Nat) (narrow : p.column + n ≤ indent) :
    takeBlockLines true indent false s (spaces n ++ rest) p =
      takeBlockLines true indent false s rest (p.blanks n) := by
  induction n generalizing p with
  | zero => rfl
  | succ n ih =>
      have cons : spaces (n + 1) ++ rest = ' ' :: (spaces n ++ rest) := rfl
      have inside : p.column < indent := by omega
      have next : (p.blanks 1).blanks n = p.blanks (n + 1) := by
        unfold Place.blanks
        simp [Nat.add_assoc, Nat.add_comm 1]
      rw [cons, takeBlockLines, if_pos ⟨rfl, inside⟩, ih, next]
      change p.column + 1 + n ≤ indent
      omega

/-- What is further left ends the block. -/
theorem takeBlockLines_left (begins : BeginsToken rest) (left : p.column < indent) :
    takeBlockLines true indent false s rest p = (s, rest, p) := by
  cases rest with
  | nil => rw [takeBlockLines]
  | cons c cs =>
      obtain ⟨space, -, newline, -⟩ := begins c rfl
      rw [takeBlockLines]
      simp [space, newline, Nat.ne_of_lt left]

/-- A line begins with any character but a line break. -/
theorem takeBlockLines_begin {c : Char} (word : c ≠ '\n') (pos : 0 < indent)
    (here : p.column = indent) :
    takeBlockLines true indent false s (c :: rest) p =
      takeBlockLines true indent true ⟨c :: s.whole, false, 0, isBlank c⟩ rest (p.after c) := by
  have outside : ¬ p.column < indent := by omega
  rw [takeBlockLines]
  simp [word, here, Nat.ne_of_gt pos, BlockState.joint, BlockState.whole]

end Lines

/-- What a block comes to when its text `cs` is read on from a state, and what is further left
follows at the column `j`. -/
structure BlockEnds (j : Nat) (rest cs : List Char) (s : BlockState)
    (read : BlockState × List Char × Place) : Prop where
  rest : read.2.1 = rest
  column : read.2.2.column = j
  whole : read.1.whole = cs.reverse ++ s.whole
  ended : read.1.ended = true
  counted : read.1.Counted

/-- Reading one more character before it. -/
theorem BlockEnds.cons {j : Nat} {c : Char} {rest cs : List Char} {s s' : BlockState}
    {read : BlockState × List Char × Place} (next : BlockEnds j rest cs s' read)
    (one : s'.whole = c :: s.whole) : BlockEnds j rest (c :: cs) s read := by
  have whole : read.1.whole = (c :: cs).reverse ++ s.whole := by
    rw [next.whole, one, List.reverse_cons, List.append_assoc, List.singleton_append]
  exact ⟨next.rest, next.column, whole, next.ended, next.counted⟩

theorem getLast?_tail {c : Char} {cs : List Char} (last : (c :: cs).getLast? = some '\n') :
    cs = [] ∧ c = '\n' ∨ cs.getLast? = some '\n' := by
  cases cs with
  | nil => exact .inl ⟨rfl, Option.some.inj last⟩
  | cons d cs => exact .inr last

section Text

variable {indent j : Nat} {rest : List Char}

/-- The rest of a text, inside a line of its block and between two of them. -/
theorem takeBlockLines_text (pos : 0 < indent) (left : j < indent) (begins : BeginsToken rest)
    {cs : List Char} (literal : ∀ c ∈ cs, IsLiteralChar c) :
    (∀ s p, s.ended = false → s.empty = 0 → s.Counted → cs.getLast? = some '\n' →
      BlockEnds j rest cs s (takeBlockLines true indent true s
        (indented indent false cs ++ (spaces j ++ rest)) p)) ∧
    (∀ s p, s.ended = true → s.Counted → p.column = 0 → cs = [] ∨ cs.getLast? = some '\n' →
      BlockEnds j rest cs s (takeBlockLines true indent false s
        (indented indent true cs ++ (spaces j ++ rest)) p)) := by
  induction cs with
  | nil =>
      constructor
      · intro s p _ _ _ last
        cases last
      · intro s p ended counted start _
        have narrow : p.column + j ≤ indent := by omega
        have further : (p.blanks j).column < indent := by
          change p.column + j < indent
          omega
        rw [indented, List.nil_append, takeBlockLines_spaces j narrow,
          takeBlockLines_left begins further]
        exact ⟨rfl, by change p.column + j = j; omega, rfl, ended, counted⟩
  | cons c cs ih =>
      obtain ⟨inside, between⟩ := ih fun d mem => literal d (List.mem_cons_of_mem _ mem)
      have literal_c := literal c List.mem_cons_self
      by_cases newline : c = '\n'
      · subst newline
        constructor
        · intro s p ended empty counted last
          have rest_last : cs = [] ∨ cs.getLast? = some '\n' :=
            (getLast?_tail last).imp And.left id
          have next := between { s with ended := true, empty := 0 } p.newline rfl counted rfl
            rest_last
          have break_ : indented indent false ('\n' :: cs) = '\n' :: indented indent true cs := rfl
          rw [break_, List.cons_append, takeBlockLines, if_pos rfl]
          exact next.cons (by simp [BlockState.whole, ended, empty])
        · intro s p ended counted start last
          have rest_last : cs = [] ∨ cs.getLast? = some '\n' := by
            rcases last with nothing | last
            · cases nothing
            · exact (getLast?_tail last).imp And.left id
          have next := between { s with empty := s.empty + 1 } p.newline ended counted rfl rest_last
          have break_ : indented indent true ('\n' :: cs) = '\n' :: indented indent true cs := rfl
          have blank : ¬ ('\n' = ' ' ∧ p.column < indent) := fun both => absurd both.1 (by decide)
          rw [break_, List.cons_append, takeBlockLines, if_neg blank, if_pos rfl]
          exact next.cons (by simp [BlockState.whole, ended, List.replicate_succ])
      · have unbroken : isLineBreak c = false :=
          isLineBreak_of_inline (inline_of_ne literal_c newline)
        have rest_last (last : (c :: cs).getLast? = some '\n') : cs.getLast? = some '\n' :=
          (getLast?_tail last).resolve_left fun both => newline both.2
        constructor
        · intro s p ended empty counted last
          have next := inside { s with text := c :: s.text } (p.after c) ended empty
            (by rintro d ⟨⟩; exact newline) (rest_last last)
          have char : indented indent false (c :: cs) = c :: indented indent false cs := by
            rw [indented, unbroken]
            rfl
          rw [char, List.cons_append, takeBlockLines, if_neg newline]
          exact next.cons (by simp [BlockState.whole, ended, empty])
        · intro s p ended counted start last
          have last : (c :: cs).getLast? = some '\n' := last.resolve_left (List.cons_ne_nil _ _)
          have char : indented indent true (c :: cs) =
              spaces indent ++ c :: indented indent false cs := by
            rw [indented, unbroken]
            rfl
          have begun : (⟨c :: s.whole, false, 0, isBlank c⟩ : BlockState).Counted := by
            rintro d ⟨⟩
            exact newline
          have next := inside ⟨c :: s.whole, false, 0, isBlank c⟩ ((p.blanks indent).after c) rfl
            rfl begun (rest_last last)
          rw [char, List.append_assoc, takeBlockLines_spaces indent (by omega), List.cons_append,
            takeBlockLines_begin newline pos (by change p.column + indent = indent; omega)]
          exact next.cons (by simp [BlockState.whole])

end Text

/-! ### The head -/

/-- What a text asks to become of the line breaks at its end. -/
def Chomping.of (cs : List Char) : Chomping :=
  let ends := cs.reverse.takeWhile isLineBreak
  if ends.isEmpty then .strip
  else if ends.length = 1 ∧ ends.length < cs.length then .clip
  else .keep

/-- The mark of a chomping in the head of a block. -/
def Chomping.mark : Chomping → List Char
  | .clip => []
  | .strip => ['-']
  | .keep => ['+']

/-- The first line of a text does not show the indentation. -/
def isHinted (cs : List Char) : Bool := cs.head?.any isSpaceOrBreak

theorem literalHead_eq (cs : List Char) :
    literalHead cs = '|' :: ((if isHinted cs then ['2'] else []) ++ (Chomping.of cs).mark) := by
  unfold literalHead Chomping.of isHinted
  dsimp only
  by_cases none_ends : (cs.reverse.takeWhile isLineBreak).isEmpty = true
  · rw [if_pos none_ends, if_pos none_ends]
    split <;> rfl
  · rw [if_neg none_ends, if_neg none_ends]
    split <;> split <;> rfl

theorem takeBlockHead?_eq (hinted : Bool) (chomping : Chomping) (body : List Char) :
    takeBlockHead? ((if hinted then ['2'] else []) ++ (chomping.mark ++ '\n' :: body)) =
      some (⟨chomping, if hinted then 2 else 0⟩, '\n' :: body) := by
  cases hinted <;> cases chomping <;> rfl

/-! ### In front of the first line -/

section Lead

variable {given : Option Nat} {breaks widest : Nat} {rest : List Char} {p : Place}

theorem skipBlockLead_spaces (n : Nat) (narrow : ∀ indent ∈ given, p.column + n ≤ indent) :
    skipBlockLead given breaks widest (spaces n ++ rest) p =
      skipBlockLead given breaks widest rest (p.blanks n) := by
  induction n generalizing p with
  | zero => rfl
  | succ n ih =>
      have cons : spaces (n + 1) ++ rest = ' ' :: (spaces n ++ rest) := rfl
      have inside : given.all (p.column < ·) = true := by
        cases given with
        | none => rfl
        | some indent =>
            have := narrow indent rfl
            simp only [Option.all_some, decide_eq_true_eq]
            omega
      have next : (p.blanks 1).blanks n = p.blanks (n + 1) := by
        unfold Place.blanks
        simp [Nat.add_assoc, Nat.add_comm 1]
      rw [cons, skipBlockLead, if_pos ⟨rfl, inside⟩, ih, next]
      intro indent mem
      have := narrow indent mem
      change p.column + 1 + n ≤ indent
      omega

theorem skipBlockLead_breaks (k : Nat) (start : p.column = 0) :
    ∃ widest' p', p'.column = 0 ∧ (k = 0 → widest' = widest) ∧
      skipBlockLead given breaks widest (List.replicate k '\n' ++ rest) p =
        skipBlockLead given (breaks + k) widest' rest p' := by
  induction k generalizing breaks widest p with
  | zero => exact ⟨widest, p, start, fun _ => rfl, rfl⟩
  | succ k ih =>
      obtain ⟨widest', p', start', -, same⟩ := @ih (breaks + 1) (max widest p.column) p.newline rfl
      refine ⟨widest', p', start', fun none => absurd none (by omega), ?_⟩
      rw [List.replicate_succ, List.cons_append, skipBlockLead]
      have blank : ¬ ('\n' = ' ' ∧ given.all (p.column < ·) = true) :=
        fun both => absurd both.1 (by decide)
      rw [if_neg blank, if_pos rfl, same, Nat.add_assoc, Nat.add_comm 1]

theorem skipBlockLead_stop {c : Char} (newline : c ≠ '\n')
    (blank : c = ' ' → ∃ indent, given = some indent ∧ indent ≤ p.column) :
    skipBlockLead given breaks widest (c :: rest) p =
      ⟨c :: rest, p, breaks, max widest p.column⟩ := by
  have stays : ¬ (c = ' ' ∧ given.all (p.column < ·) = true) := by
    rintro ⟨space, inside⟩
    obtain ⟨indent, rfl, beyond⟩ := blank space
    simp only [Option.all_some, decide_eq_true_eq] at inside
    omega
  rw [skipBlockLead, if_neg stays, if_neg newline]

end Lead

/-! ### Whole blocks -/

/-- The line break behind a text that does not end in one. -/
def closing (cs : List Char) : List Char := if cs.getLast?.any isLineBreak then [] else ['\n']

theorem indented_append_newline (indent : Nat) (fresh : Bool) (cs : List Char) :
    indented indent fresh (cs ++ ['\n']) = indented indent fresh cs ++ ['\n'] := by
  induction cs generalizing fresh with
  | nil => rfl
  | cons c cs ih =>
      rw [List.cons_append, indented, indented]
      split
      · rw [ih, List.cons_append]
      · rw [ih, List.append_assoc, List.cons_append]

theorem indented_append_closing (indent : Nat) (cs : List Char) :
    indented indent true cs ++ closing cs = indented indent true (cs ++ closing cs) := by
  unfold closing
  split
  · rw [List.append_nil, List.append_nil]
  · exact (indented_append_newline indent true cs).symm

/-- The line breaks in front of the first line of a text that is not empty. -/
theorem exists_leading (cs : List Char) :
    ∃ k tl, cs = List.replicate k '\n' ++ tl ∧ ∀ c ∈ tl.head?, c ≠ '\n' := by
  induction cs with
  | nil => exact ⟨0, [], rfl, by simp⟩
  | cons c cs ih =>
      by_cases newline : c = '\n'
      · obtain ⟨k, tl, rfl, first⟩ := ih
        exact ⟨k + 1, tl, by rw [newline]; rfl, first⟩
      · refine ⟨0, c :: cs, rfl, ?_⟩
        rintro d ⟨⟩
        exact newline

theorem indented_leading (indent k : Nat) (tl : List Char) :
    indented indent true (List.replicate k '\n' ++ tl) =
      List.replicate k '\n' ++ indented indent true tl := by
  induction k with
  | zero => rfl
  | succ k ih =>
      rw [List.replicate_succ, List.cons_append, indented, ih]
      rfl

/-- A text that does not end in a line break asks for none. -/
theorem Chomping.of_unbroken {cs : List Char} (none_ends : cs.reverse.takeWhile isLineBreak = []) :
    Chomping.of cs = .strip := by
  rw [Chomping.of, none_ends]
  rfl

/-- A block that ends as its text does keeps all its line breaks. -/
theorem BlockState.tail_of_broken {cs : List Char} {s : BlockState} (ended : s.ended = true)
    (trailing : cs.reverse.takeWhile isLineBreak = List.replicate (s.empty + 1) '\n')
    (longer : s.empty + 1 < cs.length) :
    s.tail (Chomping.of cs) false = List.replicate (s.empty + 1) '\n' := by
  have some_end : (List.replicate (s.empty + 1) '\n').isEmpty = false := rfl
  unfold Chomping.of
  dsimp only
  rw [trailing, some_end, List.length_replicate, if_neg Bool.false_ne_true]
  cases empty : s.empty with
  | zero =>
      rw [empty] at longer
      rw [if_pos ⟨rfl, longer⟩]
      simp [BlockState.tail, ended]
  | succ n =>
      rw [if_neg fun one => absurd one.1 (by omega)]
      simp [BlockState.tail, ended, empty, Nat.add_comm]

section Tail

variable {cs text : List Char} {s : BlockState} {e : Char}

/-- The break that was added to a text is the only one, and is taken off again. -/
theorem reverse_tail_of_unclosed (unclosed : cs.getLast?.any isLineBreak = false)
    (lines : s.text = e :: text) (inline : e ∈ cs → isLineBreak e = false)
    (whole : List.replicate s.empty '\n' ++ s.text = cs.reverse) :
    (s.tail (Chomping.of cs) false ++ s.text).reverse = cs := by
  have none_empty : s.empty = 0 := by
    cases empty : s.empty with
    | zero => rfl
    | succ n =>
        have last : cs.getLast? = some '\n' := by
          rw [List.getLast?_eq_head?_reverse, ← whole, empty]
          rfl
        rw [last] at unclosed
        exact absurd unclosed (by decide)
  have same : s.text = cs.reverse := by
    rw [none_empty] at whole
    exact whole
  have member : e ∈ cs := by
    rw [← List.mem_reverse, ← same, lines]
    exact List.mem_cons_self
  have none_ends : cs.reverse.takeWhile isLineBreak = [] := by
    rw [← same, lines, List.takeWhile_cons, inline member]
    rfl
  rw [Chomping.of_unbroken none_ends, BlockState.tail, List.nil_append, same, List.reverse_reverse]

/-- The breaks at the end of a text are behind the last line of its block. -/
theorem reverse_tail_of_closed (ended : s.ended = true) (lines : s.text = e :: text)
    (inline : e ∈ cs → isLineBreak e = false)
    (whole : List.replicate (s.empty + 1) '\n' ++ s.text = cs.reverse) :
    (s.tail (Chomping.of cs) false ++ s.text).reverse = cs := by
  have member : e ∈ cs := by
    rw [← List.mem_reverse, ← whole, lines]
    exact List.mem_append_right _ List.mem_cons_self
  have trailing : cs.reverse.takeWhile isLineBreak = List.replicate (s.empty + 1) '\n' := by
    rw [← whole, List.takeWhile_append_of_pos, lines, List.takeWhile_cons, inline member]
    · exact List.append_nil _
    · intro c mem
      rw [List.eq_of_mem_replicate mem]
      rfl
  have longer : s.empty + 1 < cs.length := by
    rw [← List.length_reverse, ← whole, lines]
    simp
  rw [BlockState.tail_of_broken ended trailing longer, whole, List.reverse_reverse]

/-- The line breaks at the end of a block are those at the end of the text. -/
theorem reverse_tail (literal : ∀ c ∈ cs, IsLiteralChar c) (ended : s.ended = true)
    (counted : s.Counted) (some_line : s.text ≠ [])
    (whole : s.whole = (cs ++ closing cs).reverse) :
    (s.tail (Chomping.of cs) false ++ s.text).reverse = cs := by
  obtain ⟨e, text, lines⟩ := List.exists_cons_of_ne_nil some_line
  have word : e ≠ '\n' := counted e (by rw [lines]; rfl)
  have inline (mem : e ∈ cs) : isLineBreak e = false :=
    isLineBreak_of_inline (inline_of_ne (literal e mem) word)
  have breaks : s.whole = List.replicate (s.empty + 1) '\n' ++ s.text := by
    rw [BlockState.whole, ended]
    rfl
  rw [breaks] at whole
  cases ends : cs.getLast?.any isLineBreak with
  | false =>
      have added : closing cs = ['\n'] := by rw [closing, ends]; rfl
      rw [added, List.reverse_append, List.replicate_succ] at whole
      exact reverse_tail_of_unclosed ends lines inline (List.cons.inj whole).2
  | true =>
      have added : closing cs = [] := by rw [closing, ends]; rfl
      rw [added, List.append_nil] at whole
      exact reverse_tail_of_closed ended lines inline whole

end Tail

theorem literal_closing {cs : List Char} (literal : ∀ c ∈ cs, IsLiteralChar c) :
    ∀ c ∈ cs ++ closing cs, IsLiteralChar c := by
  intro c mem
  rcases List.mem_append.mp mem with mem | mem
  · exact literal c mem
  · unfold closing at mem
    split at mem
    · cases mem
    · exact .inl (List.mem_singleton.mp mem)

theorem getLast?_closing {cs : List Char} (literal : ∀ c ∈ cs, IsLiteralChar c) :
    (cs ++ closing cs).getLast? = some '\n' := by
  unfold closing
  split
  · next breaks =>
    rw [Option.any_eq_true] at breaks
    obtain ⟨c, last, breaks⟩ := breaks
    rw [List.append_nil, last, (isLineBreak_iff (literal c (List.mem_of_getLast? last))).mp breaks]
  · simp

/-- A text that a line break at most is added to is nothing but line breaks. -/
theorem eq_breaks {cs : List Char} {k : Nat} (some_char : cs ≠ [])
    (full : cs ++ closing cs = List.replicate k '\n') : cs = List.replicate k '\n' ∧ 0 < k := by
  have last : cs.getLast? = some '\n' := by
    have last := List.getLast?_eq_some_getLast some_char
    have mem : cs.getLast some_char ∈ cs ++ closing cs :=
      List.mem_append_left _ (List.getLast_mem some_char)
    rw [full] at mem
    rw [last, List.eq_of_mem_replicate mem]
  have nothing : closing cs = [] := by
    rw [closing, last]
    rfl
  rw [nothing, List.append_nil] at full
  refine ⟨full, Nat.pos_of_ne_zero ?_⟩
  rintro rfl
  exact some_char full

theorem Chomping.of_breaks {k : Nat} (pos : 0 < k) :
    Chomping.of (List.replicate k '\n') = .keep := by
  have all : (List.replicate k '\n').reverse.takeWhile isLineBreak = List.replicate k '\n' := by
    rw [List.reverse_replicate, List.takeWhile_replicate]
    rfl
  have some_end : (List.replicate k '\n').isEmpty = false := by
    rw [← Nat.succ_pred_eq_of_pos pos]
    rfl
  rw [Chomping.of, all, some_end, if_neg Bool.false_ne_true,
    if_neg fun both => Nat.lt_irrefl _ both.2]

section Block

variable {i j : Nat} {cs rest : List Char} {p : Place}

/-- The indentation of a block is the one that is told in its head, or that of its first
line. -/
theorem skipBlockLead_literal (k : Nat) {c : Char} (tl : List Char) {given : Option Nat}
    (newline : c ≠ '\n') (told : given = some (i + 2) ∨ given = none ∧ k = 0 ∧ c ≠ ' ')
    (start : p.column = 0) :
    ∃ lead,
      skipBlockLead given 0 0 (List.replicate k '\n' ++ (spaces (i + 2) ++ c :: tl)) p = lead ∧
      lead.rest = c :: tl ∧ lead.place.column = i + 2 ∧ lead.breaks = k ∧
      given.getD (max lead.widest (i + 1)) = i + 2 := by
  obtain ⟨widest, p', start', none_wide, breaks⟩ :=
    @skipBlockLead_breaks given 0 0 (spaces (i + 2) ++ c :: tl) p k start
  have narrow : ∀ indent ∈ given, p'.column + (i + 2) ≤ indent := by
    rintro indent mem
    rcases told with rfl | ⟨rfl, -⟩
    · cases mem
      omega
    · cases mem
  have column : (p'.blanks (i + 2)).column = i + 2 := by
    change p'.column + (i + 2) = i + 2
    omega
  have blank : c = ' ' → ∃ indent, given = some indent ∧ indent ≤ (p'.blanks (i + 2)).column := by
    intro space
    rcases told with rfl | ⟨-, -, word⟩
    · exact ⟨i + 2, rfl, by omega⟩
    · exact absurd space word
  refine ⟨_, rfl, ?_⟩
  rw [breaks, skipBlockLead_spaces (i + 2) narrow, skipBlockLead_stop newline blank]
  refine ⟨rfl, column, Nat.zero_add k, ?_⟩
  rcases told with rfl | ⟨rfl, none_leading, -⟩
  · rfl
  · rw [none_wide none_leading, column]
    change max (max 0 (i + 2)) (i + 1) = i + 2
    omega

/-- The indentation that the head of a block tells. -/
def toldIndent? (i : Nat) (hinted : Bool) : Option Nat := if hinted then some (i + 2) else none

/-- A block behind its head. -/
def takeBody (i : Nat) (hinted : Bool) (chomping : Chomping) (body : List Char) (p : Place) :
    Option Taken :=
  let lead := skipBlockLead (toldIndent? i hinted) 0 0 body p
  let indent := (toldIndent? i hinted).getD (max lead.widest (i + 1))
  if lead.rest.isEmpty then some ⟨emptyBlock chomping true lead.breaks, [], lead.place⟩
  else if lead.place.column < indent ∧ i < lead.place.column then none
  else
    let read := takeBlockLines true indent false ⟨[], false, lead.breaks, false⟩ lead.rest
      lead.place
    let cut := read.2.1.isEmpty && decide (max indent 1 ≤ read.2.2.column)
    some ⟨(read.1.tail chomping cut ++ read.1.text).reverse, read.2.1, read.2.2⟩

theorem takeBlock_eq (hinted : Bool) (chomping : Chomping) {body : List Char}
    (tab : body.head? ≠ some '\t') :
    ∃ p', p'.column = 0 ∧
      takeBlock true i ((if hinted then ['2'] else []) ++ (chomping.mark ++ '\n' :: body)) p =
        takeBody i hinted chomping body p' := by
  rw [takeBlock, takeBlockHead?_eq, Option.bind_some]
  dsimp only
  generalize List.length _ - _ = count
  refine ⟨((p.marks count).blanks 0).newline, rfl, ?_⟩
  rw [List.head?_eq_getElem?] at tab
  cases hinted <;> simp [takeBody, toldIndent?, skipToLineEnd?, isBlank, atLineEnd, tab]

theorem skipBlockLead_end (given : Option Nat) (k : Nat) (begins : BeginsToken rest)
    (narrow : ∀ indent ∈ given, j ≤ indent) (start : p.column = 0) :
    ∃ widest p', p'.column = j ∧
      skipBlockLead given 0 0 (List.replicate k '\n' ++ (spaces j ++ rest)) p =
        ⟨rest, p', k, widest⟩ := by
  obtain ⟨widest, p', start', -, breaks⟩ :=
    @skipBlockLead_breaks given 0 0 (spaces j ++ rest) p k start
  have column : (p'.blanks j).column = j := by
    change p'.column + j = j
    omega
  rw [breaks, skipBlockLead_spaces j (by rwa [start', Nat.zero_add])]
  refine ⟨max widest (p'.blanks j).column, p'.blanks j, column, ?_⟩
  rw [Nat.zero_add]
  cases rest with
  | nil => rw [skipBlockLead]
  | cons c rest =>
      obtain ⟨space, -, newline, -⟩ := begins c rfl
      exact skipBlockLead_stop newline fun same => absurd same space

/-- A block that is nothing but line breaks. -/
theorem takeBody_breaks {k : Nat} (pos : 0 < k) (left : j ≤ i) (begins : BeginsToken rest)
    (start : p.column = 0) :
    ∃ p', p'.column = j ∧
      takeBody i true .keep (List.replicate k '\n' ++ (spaces j ++ rest)) p =
        some ⟨List.replicate k '\n', rest, p'⟩ := by
  have narrow : ∀ indent ∈ toldIndent? i true, j ≤ indent := by
    rintro indent mem
    cases mem
    omega
  obtain ⟨widest, p', column, lead⟩ := skipBlockLead_end (toldIndent? i true) k begins narrow start
  refine ⟨p', column, ?_⟩
  have further :
      ¬ (p'.column < (toldIndent? i true).getD (max widest (i + 1)) ∧ i < p'.column) := by
    omega
  have lines : takeBlockLines true ((toldIndent? i true).getD (max widest (i + 1))) false
      ⟨[], false, k, false⟩ rest p' = (⟨[], false, k, false⟩, rest, p') := by
    apply takeBlockLines_left begins
    change p'.column < i + 2
    omega
  rw [takeBody, lead]
  dsimp only
  rw [if_neg further, lines]
  cases rest with
  | nil => simp [emptyBlock, Nat.ne_of_gt pos]
  | cons c rest => simp [BlockState.tail]

/-- A block with lines of its own. -/
theorem takeBody_lines {hinted : Bool} {k : Nat} {c : Char} {tl : List Char}
    (literal : ∀ c ∈ cs, IsLiteralChar c)
    (full : cs ++ closing cs = List.replicate k '\n' ++ c :: tl) (word : c ≠ '\n')
    (told : hinted = true ∨ k = 0 ∧ c ≠ ' ') (left : j ≤ i) (begins : BeginsToken rest)
    (start : p.column = 0) :
    ∃ p', p'.column = j ∧
      takeBody i hinted (Chomping.of cs) (List.replicate k '\n' ++
        (spaces (i + 2) ++ c :: (indented (i + 2) false tl ++ (spaces j ++ rest)))) p =
          some ⟨cs, rest, p'⟩ := by
  have told : toldIndent? i hinted = some (i + 2) ∨
      toldIndent? i hinted = none ∧ k = 0 ∧ c ≠ ' ' := by
    cases hinted with
    | true => exact .inl rfl
    | false => exact .inr ⟨rfl, told.resolve_left Bool.false_ne_true⟩
  obtain ⟨lead, lead_eq, rest_eq, column, breaks, indent⟩ :=
    skipBlockLead_literal k (indented (i + 2) false tl ++ (spaces j ++ rest)) word told start
  have ends : tl.getLast? = some '\n' := by
    have last := getLast?_closing literal
    rw [full, List.getLast?_append, Option.or_of_isSome (by simp)] at last
    exact (getLast?_tail last).resolve_left fun both => word both.2
  have tl_literal : ∀ d ∈ tl, IsLiteralChar d := by
    intro d mem
    apply literal_closing literal
    rw [full]
    exact List.mem_append_right _ (List.mem_cons_of_mem c mem)
  have begun : (⟨c :: List.replicate k '\n', false, 0, isBlank c⟩ : BlockState).Counted := by
    rintro d ⟨⟩
    exact word
  have read := (takeBlockLines_text (by omega : 0 < i + 2) (by omega : j < i + 2) begins
    tl_literal).1 _ (lead.place.after c) rfl rfl begun ends
  have first : takeBlockLines true (i + 2) false ⟨[], false, k, false⟩ lead.rest lead.place =
      takeBlockLines true (i + 2) true ⟨c :: List.replicate k '\n', false, 0, isBlank c⟩
        (indented (i + 2) false tl ++ (spaces j ++ rest)) (lead.place.after c) := by
    rw [rest_eq, takeBlockLines_begin word (by omega) column]
    simp [BlockState.whole]
  have inside : ¬ (lead.place.column < i + 2 ∧ i < lead.place.column) := by omega
  have some_rest : lead.rest.isEmpty = false := by rw [rest_eq]; rfl
  rw [takeBody, lead_eq]
  dsimp only
  rw [indent, some_rest, if_neg Bool.false_ne_true, if_neg inside, breaks, first]
  generalize takeBlockLines true (i + 2) true _ _ _ = state at read
  obtain ⟨state, after, p'⟩ := state
  obtain ⟨rest_eq, column, whole, ended, counted⟩ := read
  dsimp only at rest_eq column whole ended counted ⊢
  have left_of : ¬ max (i + 2) 1 ≤ p'.column := by omega
  have cut : (after.isEmpty && decide (max (i + 2) 1 ≤ p'.column)) = false := by
    rw [decide_eq_false left_of, Bool.and_false]
  have whole : state.whole = (cs ++ closing cs).reverse := by
    rw [full, whole]
    simp [BlockState.whole]
  have lines : state.text ≠ [] := by
    intro nothing
    have member : c ∈ state.whole := by
      rw [whole, full]
      simp
    rw [BlockState.whole, nothing, List.append_nil] at member
    exact word (List.eq_of_mem_replicate member)
  rw [cut, reverse_tail literal ended counted lines whole]
  exact ⟨p', column, by rw [rest_eq]⟩

/-- A block whose first line does not show the indentation tells it. -/
theorem isHinted_or {k : Nat} {c : Char} {tl : List Char} (some_char : cs ≠ [])
    (full : cs ++ closing cs = List.replicate k '\n' ++ c :: tl) :
    isHinted cs = true ∨ k = 0 ∧ c ≠ ' ' := by
  obtain ⟨first, others, rfl⟩ := List.exists_cons_of_ne_nil some_char
  rw [List.cons_append] at full
  cases k with
  | zero =>
      obtain ⟨rfl, -⟩ := List.cons.inj full
      by_cases space : first = ' '
      · exact .inl (by rw [space]; rfl)
      · exact .inr ⟨rfl, space⟩
  | succ k =>
      obtain ⟨rfl, -⟩ := List.cons.inj full
      exact .inl rfl

/-- The scanner takes a literal block off the text behind its mark, and goes on with what follows
further left. -/
theorem takeBlock_literal (literal : ∀ c ∈ cs, IsLiteralChar c) (lines : '\n' ∈ cs)
    (left : j ≤ i) (begins : BeginsToken rest) :
    ∃ p', p'.column = j ∧
      takeBlock true i ((Yaml.literal (i + 2) cs).drop 1 ++ (spaces j ++ rest)) p =
        some ⟨cs, rest, p'⟩ := by
  have text : (Yaml.literal (i + 2) cs).drop 1 ++ (spaces j ++ rest) =
      (if isHinted cs then ['2'] else []) ++ ((Chomping.of cs).mark ++
        '\n' :: (indented (i + 2) true (cs ++ closing cs) ++ (spaces j ++ rest))) := by
    rw [← indented_append_closing]
    change (literalHead cs ++ '\n' :: indented (i + 2) true cs ++ closing cs).drop 1 ++ _ = _
    rw [literalHead_eq]
    simp
  obtain ⟨k, tl, full, word⟩ := exists_leading (cs ++ closing cs)
  rw [full, indented_leading] at text
  cases tl with
  | nil =>
      rw [List.append_nil] at full
      obtain ⟨breaks, pos⟩ := eq_breaks (List.ne_nil_of_mem lines) full
      have hinted : isHinted cs = true := by
        rw [breaks, ← Nat.succ_pred_eq_of_pos pos]
        rfl
      have keep : Chomping.of cs = .keep := by rw [breaks, Chomping.of_breaks pos]
      have none_left : indented (i + 2) true [] = [] := rfl
      have tab : (List.replicate k '\n' ++ (spaces j ++ rest)).head? ≠ some '\t' := by
        cases k with
        | zero => omega
        | succ k => simp [List.replicate_succ]
      obtain ⟨p', start, block⟩ := takeBlock_eq (i := i) (p := p) true .keep tab
      obtain ⟨p', column, body⟩ := takeBody_breaks (p := p') pos left begins start
      refine ⟨p', column, ?_⟩
      rw [text, hinted, keep, none_left, List.append_nil, block, body, ← breaks]
  | cons c tl =>
      have word : c ≠ '\n' := word c rfl
      have told := isHinted_or (List.ne_nil_of_mem lines) full
      have literal_c : IsLiteralChar c := by
        apply literal_closing literal
        rw [full]
        exact List.mem_append_right _ List.mem_cons_self
      have char : indented (i + 2) true (c :: tl) =
          spaces (i + 2) ++ c :: indented (i + 2) false tl := by
        rw [indented, isLineBreak_of_inline (inline_of_ne literal_c word)]
        rfl
      rw [char] at text
      simp only [List.append_assoc, List.cons_append] at text
      have tab : (List.replicate k '\n' ++
          (spaces (i + 2) ++ c :: (indented (i + 2) false tl ++ (spaces j ++ rest)))).head? ≠
            some '\t' := by
        cases k <;> simp [spaces, List.replicate_succ]
      obtain ⟨p', start, block⟩ := takeBlock_eq (i := i) (p := p) (isHinted cs) (Chomping.of cs) tab
      rw [text, block]
      exact takeBody_lines literal full word told left begins start

end Block

/-! ### Which texts are blocks -/

/-- Why a text is written as a block. -/
theorem form_eq_literal {cs : List Char} (form : TextForm.of cs = .literal) :
    '\n' ∈ cs ∧ hasHidden cs = false := by
  unfold TextForm.of at form
  dsimp only at form
  split at form
  · next newline =>
    refine ⟨by simpa using newline, ?_⟩
    cases hidden : hasHidden cs with
    | false => rfl
    | true =>
        rw [hidden] at form
        cases form
  · split at form
    · split at form <;> cases form
    · split at form
      · split at form <;> cases form
      · cases form

theorem literal_of_form {cs : List Char} (form : TextForm.of cs = .literal)
    (unseparated : Unseparated cs) : ∀ c ∈ cs, IsLiteralChar c := by
  intro c mem
  have shown : isShown c = true := by
    simpa using List.any_eq_false.mp (form_eq_literal form).2 c mem
  by_cases newline : c = '\n'
  · exact .inl newline
  · exact .inr (inline_of_unseparated shown newline (unseparated c mem))

end Voicing.Yaml
