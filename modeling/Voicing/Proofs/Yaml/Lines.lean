import Voicing.Proofs.Yaml.LiteralText
import Voicing.Yaml.Token

/-!
From token to token.

In front of every token the scanner passes over the gap, gives up a key that has become
impossible and leaves the blocks that the next line is not part of. Two states that come to the
same in this way are as good as each other, so the states between two tokens are brought into
one form: *at a token*, with its column and the blocks around it, or *behind a colon*.

* `Reaches`: the scanner gets from one state to another, and takes a character off the text for
  every token at least, so that it never runs out of fuel.
* `AtToken.key`, `AtToken.nextKey`, `AtToken.entry`, `AtToken.word`: a key and its colon, the
  hyphen of an item, and an item that is a word.
* `BehindColon.plain` and so on: the values behind a colon, in each of their forms.
* `AtToken.close`, `AtToken.run?_end`: the ends of blocks and of the text.
-/

namespace Voicing.Yaml

namespace Scan

/-! ### Between two tokens -/

/-- What is done in front of a token. -/
def settle? (s : Scan) : Option Scan :=
  s.skipGap?.bind fun s => s.dropStale?.map fun s => s.leaveTo s.column

variable {s t u : Scan} {fuel : Nat}

theorem run?_eq (fuel : Nat) (s : Scan) :
    run? (fuel + 1) s =
      s.settle?.bind fun s =>
        if s.rest = [] then s.finish?
        else (s.token? (s.rest.headD ' ') s.rest.tail).bind (run? fuel) := by
  rw [run?, settle?]
  cases s.skipGap? with
  | none => rfl
  | some s =>
      change (s.dropStale?.bind fun s => _) = (s.dropStale?.map _).bind _
      cases s.dropStale? with
      | none => rfl
      | some s =>
          dsimp only [Option.bind_some, Option.map_some]
          split
          · next nothing => rw [if_pos nothing]
          · next c next rest => rw [rest, if_neg (List.cons_ne_nil c next)]; rfl

/-- The scanner gets from one state to another, with a character at least for every token. -/
def Reaches (s t : Scan) : Prop :=
  ∃ n, n + t.rest.length ≤ s.rest.length ∧ ∀ fuel, run? (n + fuel + 1) s = run? (fuel + 1) t

theorem Reaches.refl (s : Scan) : Reaches s s := ⟨0, by omega, fun _ => by rw [Nat.zero_add]⟩

theorem Reaches.trans (first : Reaches s t) (second : Reaches t u) : Reaches s u := by
  obtain ⟨m, shorter, same⟩ := first
  obtain ⟨n, shorter', same'⟩ := second
  refine ⟨m + n, by omega, fun fuel => ?_⟩
  rw [Nat.add_assoc m n, same, same']

/-- States that settle alike lead to the same tokens. -/
theorem Reaches.of_settle (shorter : t.rest.length ≤ s.rest.length)
    (same : s.settle? = t.settle?) : Reaches s t := by
  refine ⟨0, by omega, fun fuel => ?_⟩
  rw [Nat.zero_add, run?_eq, run?_eq, same]

/-- One token. -/
theorem Reaches.of_token {c : Char} {next : List Char} (shorter : u.rest.length < s.rest.length)
    (settled : s.settle? = some t) (rest : t.rest = c :: next)
    (token : t.token? c next = some u) : Reaches s u := by
  refine ⟨1, by omega, fun fuel => ?_⟩
  rw [Nat.add_comm 1, run?_eq, settled, Option.bind_some, rest, if_neg (List.cons_ne_nil c next)]
  change (t.token? c next).bind _ = _
  rw [token, Option.bind_some]

/-! ### At a token, behind a colon -/

/-- A state outside of flow collections in which no key has begun. -/
def stand (keyAllowed : Bool) (adjacent : Option Nat) (place : Place) (rest : List Char)
    (tokens : List Token) (indent : Int) (levels : List Level) : Scan where
  rest := rest
  place := place
  tokens := tokens.reverse
  count := tokens.length
  indent := indent
  levels := levels
  keyAllowed := keyAllowed
  candidate := none
  flows := []
  mapped := false
  paired := false
  adjacent := adjacent

/-- The scanner is at a token, or in front of one, where a key may begin. -/
def AtToken (s : Scan) (rest : List Char) (column : Nat) (tokens : List Token) (indent : Int)
    (levels : List Level) : Prop :=
  ∃ adjacent place, place.column = column ∧
    s = stand true adjacent place rest tokens indent levels

/-- The scanner is behind the colon of a key in a mapping at a column. -/
def BehindColon (s : Scan) (rest : List Char) (tokens : List Token) (column : Nat)
    (levels : List Level) : Prop :=
  ∃ adjacent place, column < place.column ∧ place.fresh = false ∧
    s = stand false adjacent place rest tokens (column + 1) (⟨column, false⟩ :: levels)

theorem AtToken.start (text : List Char) : AtToken (Scan.start text) text 0 [] (-1) [] :=
  ⟨none, .start, rfl, rfl⟩

section Gap

variable {keyAllowed : Bool} {adjacent : Option Nat} {p : Place} {rest : List Char}
  {tokens : List Token} {indent : Int} {levels : List Level}

theorem skipGap_begins (begins : BeginsToken rest) (margin : Option Int) (broken : Bool)
    (p : Place) :
    skipGap margin .blanks broken rest p = some (rest, p, broken) := by
  cases rest with
  | nil => rw [skipGap]
  | cons c rest =>
      obtain ⟨space, tab, newline, comment⟩ := begins c rfl
      rw [skipGap]
      simp [space, tab, newline, comment]

theorem skipGap_spaces (margin : Option Int) (broken : Bool) (j : Nat) (p : Place) :
    skipGap margin .blanks broken (spaces j ++ rest) p =
      skipGap margin .blanks broken rest (p.blanks j) := by
  induction j generalizing p with
  | zero => rfl
  | succ j ih =>
      have cons : spaces (j + 1) ++ rest = ' ' :: (spaces j ++ rest) := rfl
      have next : (p.blanks 1).blanks j = p.blanks (j + 1) := by
        unfold Place.blanks
        simp [Nat.add_assoc, Nat.add_comm 1]
      rw [cons, skipGap, ← next, ← ih]
      simp

theorem skipGap_newline (margin : Option Int) (broken : Bool) (p : Place) :
    skipGap margin .blanks broken ('\n' :: rest) p =
      skipGap margin .blanks true rest p.newline := by
  rw [skipGap, if_pos rfl]

/-- At a token only the blocks further right are left. -/
theorem settle?_stand (begins : BeginsToken rest) :
    (stand keyAllowed adjacent p rest tokens indent levels).settle? =
      some ((stand keyAllowed adjacent p rest tokens indent levels).leaveTo p.column) := by
  rw [settle?, skipGap?]
  simp [stand, skipGap_begins begins, dropStale?, column]

theorem leaveTo_stand (right : indent ≤ p.column) :
    (stand keyAllowed adjacent p rest tokens indent levels).leaveTo p.column =
      stand keyAllowed adjacent p rest tokens indent levels := by
  have inside : ¬ (p.column : Int) < indent := by omega
  unfold leaveTo
  cases levels <;> simp [stand, inFlow, leave, inside]

/-- At a token that is not further left nothing changes. -/
theorem settle?_here (begins : BeginsToken rest) (right : indent ≤ p.column) :
    (stand keyAllowed adjacent p rest tokens indent levels).settle? =
      some (stand keyAllowed adjacent p rest tokens indent levels) := by
  rw [settle?_stand begins, leaveTo_stand right]

/-- What asks for indentation is left without a token. -/
theorem leaveTo_inner {i : Int} (left : (p.column : Int) < i + 1) :
    (stand keyAllowed adjacent p rest tokens (i + 1) (⟨i, false⟩ :: levels)).leaveTo p.column =
      (stand keyAllowed adjacent p rest tokens i levels).leaveTo p.column := by
  unfold leaveTo
  simp [stand, inFlow, leave, left]

/-- A block is left with the token of its end. -/
theorem leaveTo_block {i o : Int} (left : (p.column : Int) < i) :
    (stand keyAllowed adjacent p rest tokens i (⟨o, true⟩ :: levels)).leaveTo p.column =
      (stand keyAllowed adjacent p rest (tokens ++ [.blockEnd]) o levels).leaveTo p.column := by
  unfold leaveTo
  simp only [stand, inFlow, leave, left, if_true]
  simp only [List.isEmpty_nil, Bool.not_true, Bool.false_eq_true, if_false, List.reverse_append,
    List.reverse_singleton, List.singleton_append, List.length_append, List.length_singleton,
    List.replicate_succ', List.append_assoc]
  simp [Nat.add_assoc, Nat.add_comm 1]

end Gap

section Steps

variable {s : Scan} {rest : List Char} {tokens : List Token} {levels : List Level} {i j : Nat}

/-- A block ends in front of what is further left. -/
theorem AtToken.close {i o : Int} (at_ : AtToken s rest j tokens i (⟨o, true⟩ :: levels))
    (left : (j : Int) < i) (begins : BeginsToken rest) :
    ∃ t, Reaches s t ∧ AtToken t rest j (tokens ++ [.blockEnd]) o levels := by
  obtain ⟨adjacent, p, rfl, rfl⟩ := at_
  refine ⟨stand true adjacent p rest (tokens ++ [.blockEnd]) o levels,
    .of_settle (Nat.le_refl _) ?_, adjacent, p, rfl, rfl⟩
  rw [settle?_stand begins, settle?_stand begins, leaveTo_block left]

/-- At the end of the text the last block ends. -/
theorem AtToken.run?_end (at_ : AtToken s [] 0 tokens 0 [⟨-1, true⟩]) (fuel : Nat) :
    run? (fuel + 1) s = some (tokens ++ [.blockEnd]) := by
  obtain ⟨adjacent, p, column, rfl⟩ := at_
  rw [run?_eq, settle?_stand (by rintro c ⟨⟩), leaveTo_stand (by omega), Option.bind_some,
    if_pos (by rfl)]
  simp [finish?, stand, leaveTo, inFlow, leave]

/-- What asks for indentation ends in front of what is further left. -/
theorem AtToken.outdent (at_ : AtToken s rest j tokens (i + 1) (⟨i, false⟩ :: levels))
    (left : j ≤ i) (begins : BeginsToken rest) :
    ∃ t, Reaches s t ∧ AtToken t rest j tokens i levels := by
  obtain ⟨adjacent, p, rfl, rfl⟩ := at_
  refine ⟨stand true adjacent p rest tokens i levels, .of_settle (Nat.le_refl _) ?_, adjacent, p,
    rfl, rfl⟩
  rw [settle?_stand begins, settle?_stand begins, leaveTo_inner (by omega)]

/-- A line break in front of what is no further right than the key. -/
theorem BehindColon.newline (behind : BehindColon s ('\n' :: (spaces j ++ rest)) tokens i levels)
    (left : j ≤ i) (begins : BeginsToken rest) :
    ∃ t, Reaches s t ∧ AtToken t rest j tokens i levels := by
  obtain ⟨adjacent, p, -, -, rfl⟩ := behind
  have at_ : AtToken (stand true adjacent (p.newline.blanks j) rest tokens (i + 1)
      (⟨i, false⟩ :: levels)) rest j tokens (i + 1) (⟨i, false⟩ :: levels) :=
    ⟨adjacent, p.newline.blanks j, Nat.zero_add j, rfl⟩
  obtain ⟨t, reaches, at_t⟩ := at_.outdent left begins
  refine ⟨t, Reaches.trans (.of_settle ?_ ?_) reaches, at_t⟩
  · simp [stand]
    omega
  · rw [settle?_stand begins, settle?, skipGap?]
    simp [stand, skipGap_newline, skipGap_spaces, skipGap_begins begins, dropStale?,
      inFlow, Scan.column]

/-! ### Plain scalars -/

/-- A text that begins like a plain scalar is taken as one. -/
theorem token?_plain {s : Scan} {c : Char} {next : List Char} (flat : s.inFlow = false)
    (right : s.indent ≤ s.column) (normal : openingMarks.contains c = false)
    (alone : c = '?' ∨ c = ':' ∨ c = '-' → atGap next = false)
    (inside : s.place.column = 0 → atDocumentMark s.rest = false) :
    s.token? c next = s.plain? := by
  have marks : ∀ d ∈ openingMarks, c ≠ d := by
    rintro d mem rfl
    rw [List.contains_iff_mem.mpr mem] at normal
    cases normal
  have percent : c ≠ '%' := marks '%' (by decide)
  have triple : s.place.column = 0 → atTriple '-' s.rest = false ∧ atTriple '.' s.rest = false := by
    intro start
    simpa [atDocumentMark] using inside start
  have left : ¬ s.column < s.indent := by omega
  have hyphens : ¬ (s.place.column = 0 ∧ atTriple '-' s.rest = true) := by
    rintro ⟨start, marks⟩
    rw [(triple start).1] at marks
    cases marks
  have points : ¬ (s.place.column = 0 ∧ atTriple '.' s.rest = true) := by
    rintro ⟨start, marks⟩
    rw [(triple start).2] at marks
    cases marks
  have gap {mark : Char} (special : mark = '?' ∨ mark = ':' ∨ mark = '-') :
      ¬ (c = mark ∧ atGap next = true) := by
    rintro ⟨rfl, gap⟩
    rw [alone special] at gap
    cases gap
  have colon : ¬ (c = ':' ∧ (atGap next = true ∨ s.inFlow = true ∧
      (atFlowMark next = true ∨ s.adjacent = some s.place.index))) := by
    rintro ⟨same, gap_next | ⟨flow, -⟩⟩
    · exact gap (.inr (.inl rfl)) ⟨same, gap_next⟩
    · rw [flat] at flow
      cases flow
  have block : ¬ ((c = '|' ∨ c = '>') ∧ (!s.inFlow) = true) := by
    rintro ⟨rfl | rfl, -⟩ <;> exact absurd rfl (marks _ (by decide))
  rw [token?, if_neg fun both => percent both.2, if_neg hyphens, if_neg points, if_neg left]
  · rw [if_neg (gap (.inr (.inr rfl))), if_neg (gap (.inl rfl)), if_neg colon, if_neg block]
  all_goals exact marks _ (by decide)

/-- A plain text begins like a plain scalar, whatever follows it. -/
theorem begins_of_plain {c : Char} {cs : List Char} (plain : Plain (c :: cs)) (tail : List Char) :
    openingMarks.contains c = false ∧
      (c = '?' ∨ c = ':' ∨ c = '-' → atGap (cs ++ tail) = false) ∧
      BeginsToken (c :: cs ++ tail) := by
  have begins := plain.begins
  unfold beginsPlain at begins
  simp only [Bool.and_eq_true, Bool.not_eq_true'] at begins
  obtain ⟨⟨⟨normal, alone⟩, -⟩, -⟩ := begins
  refine ⟨normal, fun mark => ?_, ?_⟩
  · have marked : (c == '?' || c == ':' || c == '-') = true := by
      rcases mark with rfl | rfl | rfl <;> rfl
    rw [marked, Bool.true_and] at alone
    cases cs with
    | nil => cases alone
    | cons d cs =>
        have inline := plain.inline d (by simp)
        have dark : isWhite d = false := by simpa using alone
        rw [isWhite_of_inline inline] at dark
        have newline : (d == '\n') = false := beq_eq_false_iff_ne.mpr (ne_newline_of_inline inline)
        change (isBlank d || d == '\n') = false
        rw [isBlank_of_inline inline, dark, newline]
        rfl
  · rintro d ⟨⟩
    have inline := plain.inline c List.mem_cons_self
    refine ⟨plain.first c rfl, ne_tab_of_inline inline, ne_newline_of_inline inline, ?_⟩
    rintro rfl
    exact absurd normal (by decide)

/-- No word begins or ends a document. -/
theorem atDocumentMark_of_word {cs : List Char} (word : IsWord cs) (tail : List Char) :
    atDocumentMark (cs ++ tail) = false := by
  obtain ⟨-, c, rest, rfl, begins⟩ := word
  have triple {mark d : Char} {others : List Char} (ne : d ≠ mark) :
      atTriple mark (c :: d :: others) = false := by
    cases others with
    | nil => rfl
    | cons e others => simp [atTriple, ne]
  have first {mark : Char} (ne : c ≠ mark) : atTriple mark (c :: (rest ++ tail)) = false := by
    cases rest ++ tail with
    | nil => rfl
    | cons d others =>
        cases others with
        | nil => rfl
        | cons e others => simp [atTriple, ne]
  rw [atDocumentMark, Bool.or_eq_false_iff]
  rcases begins with alphanum | ⟨rfl, d, others, rfl, alphanum⟩
  · obtain ⟨-, -, hyphen, point⟩ := ne_mark_of_isAlphanum alphanum
    exact ⟨first hyphen, first point⟩
  · obtain ⟨-, -, hyphen, -⟩ := ne_mark_of_isAlphanum alphanum
    exact ⟨triple hyphen, first (by decide)⟩

section Plain

variable {keyAllowed : Bool} {adjacent : Option Nat} {p p' : Place} {rest rest' text : List Char}
  {tokens : List Token} {indent o : Int} {levels outer : List Level}

/-- A plain scalar, in front of which a key may begin. -/
theorem plain?_stand (inner : leaveInner indent levels = (o, outer))
    (taken : takePlain false (o + 1) .start [] [] 0 rest p = some ⟨text, rest', p'⟩) :
    (stand keyAllowed adjacent p rest tokens indent levels).plain? =
      some { stand p'.fresh adjacent p' rest' (tokens ++ [.scalar true (String.ofList text)]) o
          outer with
        candidate :=
          if keyAllowed then
            some ⟨tokens.length, p, indent == p.column && levels.head?.any (·.block)⟩
          else none } := by
  cases keyAllowed <;>
    simp [plain?, stand, saveKey, allowKey, leaveInnerLevels, inner, taken, inFlow, Scan.taken,
      push, Scan.column]

/-- A plain scalar is one token. -/
theorem Reaches.plain {cs tail : List Char} (plain : Plain cs) (right : indent ≤ p.column)
    (inside : p.column = 0 → atDocumentMark (cs ++ tail) = false)
    (shorter : rest'.length < (cs ++ tail).length)
    (inner : leaveInner indent levels = (o, outer))
    (taken : takePlain false (o + 1) .start [] [] 0 (cs ++ tail) p = some ⟨cs, rest', p'⟩) :
    Reaches (stand keyAllowed adjacent p (cs ++ tail) tokens indent levels)
      { stand p'.fresh adjacent p' rest' (tokens ++ [.scalar true (String.ofList cs)]) o
          outer with
        candidate :=
          if keyAllowed then
            some ⟨tokens.length, p, indent == p.column && levels.head?.any (·.block)⟩
          else none } := by
  obtain ⟨c, cs, rfl⟩ := List.exists_cons_of_ne_nil plain.nonempty
  obtain ⟨normal, alone, first⟩ := begins_of_plain plain tail
  exact .of_token shorter (settle?_here first right) rfl
    ((token?_plain rfl right normal alone inside).trans (plain?_stand inner taken))

end Plain

/-- A key that may begin at a word and does not is given up on the next line. -/
theorem settle?_stale {adjacent : Option Nat} {p q : Place} {indent : Int} {token : Nat}
    (begins : BeginsToken rest) (later : q.line < p.line) :
    ({ stand true adjacent p rest tokens indent levels with
      candidate := some ⟨token, q, false⟩ } : Scan).settle? =
      (stand true adjacent p rest tokens indent levels).settle? := by
  rw [settle?, settle?, skipGap?, skipGap?]
  simp [stand, skipGap_begins begins, dropStale?, inFlow, isStale, later, dropKey?]

theorem leaveInner_block {indent : Int} {outer : Level} (block : outer.block = true) :
    leaveInner indent (outer :: levels) = (indent, outer :: levels) := by
  rw [leaveInner, if_pos block]

/-- An item that is a word. -/
theorem AtToken.word {w : List Char} {outer : Level}
    (at_ : AtToken s (w ++ '\n' :: (spaces j ++ rest)) (i + 2) tokens i (outer :: levels))
    (block : outer.block = true) (word : IsWord w) (left : j ≤ i) (begins : BeginsToken rest) :
    ∃ t, Reaches s t ∧
      AtToken t rest j (tokens ++ [.scalar true (String.ofList w)]) i (outer :: levels) := by
  obtain ⟨adjacent, p, column, rfl⟩ := at_
  have taken := takePlain_text (.of_word word) (by omega : (i : Int) + 1 ≤ p.column)
    (by omega : (j : Int) < i + 1) begins
  have token : Reaches (stand true adjacent p (w ++ '\n' :: (spaces j ++ rest)) tokens i
      (outer :: levels)) _ :=
    .plain (.of_word word) (by omega) (fun start => by omega) (by simp; omega)
      (leaveInner_block block) taken
  have optional : ((i : Int) == p.column) = false := by
    rw [beq_eq_false_iff_ne]
    omega
  rw [optional, Bool.false_and, if_pos rfl] at token
  have later : p.line < p.line + 1 := Nat.lt_succ_self _
  refine ⟨stand true adjacent ⟨p.line + 1, j, p.index + w.length + 1 + j, true⟩ rest
    (tokens ++ [.scalar true (String.ofList w)]) i (outer :: levels), token.trans ?_, adjacent, _,
    rfl, rfl⟩
  exact .of_settle (Nat.le_refl _) (settle?_stale begins later)

/-- A blank behind a colon. -/
theorem BehindColon.blank (behind : BehindColon s (' ' :: rest) tokens i levels)
    (begins : BeginsToken rest) : ∃ t, Reaches s t ∧ BehindColon t rest tokens i levels := by
  obtain ⟨adjacent, p, right, begun, rfl⟩ := behind
  refine ⟨stand false adjacent (p.blanks 1) rest tokens (i + 1) (⟨i, false⟩ :: levels),
    .of_settle (by simp [stand]) ?_, adjacent, p.blanks 1, ?_, begun, rfl⟩
  · rw [settle?_stand begins, settle?, skipGap?]
    have blank : ' ' :: rest = spaces 1 ++ rest := rfl
    simp only [stand, blank, skipGap_spaces, skipGap_begins begins]
    simp [dropStale?, inFlow, Scan.column]
  · change i < p.column + 1
    omega

/-- A plain value. -/
theorem BehindColon.plain {cs : List Char} {outer : Level}
    (behind : BehindColon s (cs ++ '\n' :: (spaces j ++ rest)) tokens i (outer :: levels))
    (block : outer.block = true) (plain : Plain cs) (left : j ≤ i) (begins : BeginsToken rest) :
    ∃ t, Reaches s t ∧
      AtToken t rest j (tokens ++ [.scalar true (String.ofList cs)]) i (outer :: levels) := by
  obtain ⟨adjacent, p, right, -, rfl⟩ := behind
  have taken := takePlain_text plain (by omega : (i : Int) + 1 ≤ p.column)
    (by omega : (j : Int) < i + 1) begins
  have inner :
      leaveInner ((i : Int) + 1) (⟨i, false⟩ :: outer :: levels) = (↑i, outer :: levels) := by
    rw [leaveInner, if_neg Bool.false_ne_true, leaveInner_block block]
  exact ⟨_, Reaches.plain plain (by omega) (fun start => by omega) (by simp; omega) inner taken,
    adjacent, _, rfl, rfl⟩

/-! ### Keys -/

/-- A name that can be a key. -/
structure IsKey (cs : List Char) : Prop where
  word : IsWord cs
  short : cs.length ≤ longestKey

section Keys

variable {adjacent : Option Nat} {p q : Place} {name tail : List Char} {k : Token} {c : Nat}
  {indent o : Int} {outer : List Level} {required : Bool}

/-- The scanner is at the colon of a key that begins at a place. -/
def atColon (required : Bool) (adjacent : Option Nat) (p q : Place) (tail : List Char)
    (tokens : List Token) (k : Token) (indent : Int) (levels : List Level) : Scan :=
  { stand false adjacent q (':' :: tail) (tokens ++ [k]) indent levels with
    candidate := some ⟨tokens.length, p, required⟩ }

/-- A key on its line is not out of date at its colon. -/
theorem settle?_colon (line : q.line = p.line) (short : q.index ≤ p.index + longestKey)
    (right : indent ≤ q.column) :
    (atColon required adjacent p q tail tokens k indent outer).settle? =
      some (atColon required adjacent p q tail tokens k indent outer) := by
  have begins : BeginsToken (':' :: tail) := by
    rintro d ⟨⟩
    decide
  have inside : ¬ (q.column : Int) < indent := by omega
  have on_line : ¬ p.line < q.line := by omega
  have near : ¬ p.index + longestKey < q.index := by omega
  rw [settle?, skipGap?]
  simp only [atColon, stand, skipGap_begins begins]
  cases outer <;>
    simp [dropStale?, inFlow, isStale, on_line, near, leaveTo, leave, inside, Scan.column]

theorem token?_colon (inside : 0 < q.column) (right : indent ≤ q.column) (gap : atGap tail = true) :
    (atColon required adjacent p q tail tokens k indent outer).token? ':' tail =
      (atColon required adjacent p q tail tokens k indent outer).value? := by
  have left : ¬ (q.column : Int) < indent := by omega
  rw [token?] <;> simp [atColon, stand, Scan.column, Nat.ne_of_gt inside, left, gap]

/-- The colon of a key. -/
theorem Reaches.value {keyAllowed : Bool} {r : Place} {tokens' : List Token} {indent' : Int}
    {levels' : List Level} (line : q.line = p.line) (short : q.index ≤ p.index + longestKey)
    (right : indent ≤ q.column) (inside : 0 < q.column) (gap : atGap tail = true)
    (value : (atColon required adjacent p q tail tokens k indent outer).value? =
      some (stand keyAllowed adjacent r tail tokens' indent' levels')) :
    Reaches (atColon required adjacent p q tail tokens k indent outer)
      (stand keyAllowed adjacent r tail tokens' indent' levels') :=
  .of_token (Nat.lt_succ_self _) (settle?_colon line short right) rfl
    ((token?_colon inside right gap).trans value)

/-- No tab stands between a colon and its value. -/
theorem untabbed (tab : tail.head? ≠ some '\t') :
    ((tail.takeWhile isBlank).head? == some '\t') = false := by
  cases tail with
  | nil => rfl
  | cons d tail =>
      rw [List.takeWhile_cons]
      split
      · simpa using tab
      · rfl

/-- The first key of a mapping begins a block. -/
theorem value?_deeper (tab : tail.head? ≠ some '\t') (deeper : o < p.column)
    (block : outer.head?.all (·.block) = true) :
    (atColon required adjacent p q tail tokens k o outer).value? =
      some (stand false adjacent (q.marks 1) tail (tokens ++ [.blockMapping, .key, k, .value])
        (p.column + 1) (⟨p.column, false⟩ :: ⟨o, true⟩ :: outer)) := by
  have two : tokens.length + 1 + 1 - tokens.length = 2 := by omega
  cases outer with
  | nil =>
      simp [value?, atColon, stand, inFlow, skip, untabbed tab, insert, enter, deeper, indentByOne,
        allowKey, push, two]
  | cons level outer =>
      have block : level.block = true := block
      simp [value?, atColon, stand, inFlow, skip, untabbed tab, insert, enter, deeper, block,
        indentByOne, allowKey, push, two]

/-- A further key of a mapping. -/
theorem value?_same (tab : tail.head? ≠ some '\t') (same : o = p.column) {level : Level}
    (block : level.block = true) :
    (atColon required adjacent p q tail tokens k o (level :: outer)).value? =
      some (stand false adjacent (q.marks 1) tail (tokens ++ [.key, k, .value])
        (p.column + 1) (⟨p.column, false⟩ :: level :: outer)) := by
  simp [value?, atColon, stand, inFlow, skip, untabbed tab, insert, enter, same, block,
    indentByOne, allowKey, push]

/-- A word in front of a colon, and the state at the colon. -/
theorem Reaches.colon (adjacent : Option Nat) (tokens : List Token) (key : IsKey name)
    (gap : atGap tail = true) (right : indent ≤ p.column)
    (inner : leaveInner indent levels = (o, outer)) :
    ∃ q : Place, q.line = p.line ∧ q.index ≤ p.index + longestKey ∧ p.column < q.column ∧
      q.fresh = false ∧
      Reaches (stand true adjacent p (name ++ ':' :: tail) tokens indent levels)
        (atColon (indent == p.column && levels.head?.any (·.block)) adjacent p q tail tokens
          (.scalar true (String.ofList name)) o outer) := by
  have word := key.word
  have some_char : 0 < name.length := List.length_pos_iff.mpr (Plain.of_word word).nonempty
  have short := key.short
  refine ⟨p.marks name.length, rfl, ?_, ?_, rfl, ?_⟩
  · change p.index + name.length ≤ _
    omega
  · change p.column < p.column + name.length
    omega
  · exact Reaches.plain (.of_word word) right (fun _ => atDocumentMark_of_word word _)
      (by simp; omega) inner (takePlain_key word gap)

/-- The first key of a mapping, with its colon. -/
theorem AtToken.key (at_ : AtToken s (name ++ ':' :: tail) c tokens indent levels)
    (key : IsKey name) (gap : atGap tail = true) (tab : tail.head? ≠ some '\t')
    (deeper : indent < c) (block : levels.head?.all (·.block) = true) :
    ∃ t, Reaches s t ∧ BehindColon t tail
      (tokens ++ [.blockMapping, .key, .scalar true (String.ofList name), .value]) c
      (⟨indent, true⟩ :: levels) := by
  obtain ⟨adjacent, p, rfl, rfl⟩ := at_
  have inner : leaveInner indent levels = (indent, levels) := by
    cases levels with
    | nil => rfl
    | cons level levels => exact leaveInner_block block
  obtain ⟨q, line, short, right, begun, reaches⟩ := Reaches.colon (p := p) adjacent
    tokens key gap (Int.le_of_lt deeper) inner
  have inside : 0 < q.column := by omega
  have right_q : indent ≤ q.column := by omega
  refine ⟨_, reaches.trans (.value line short right_q inside gap (value?_deeper tab deeper block)),
    adjacent, q.marks 1, ?_, rfl, rfl⟩
  change p.column < q.column + 1
  omega

/-- A further key of a mapping, with its colon. -/
theorem AtToken.nextKey {level : Level} {levels : List Level}
    (at_ : AtToken s (name ++ ':' :: tail) c tokens c (level :: levels))
    (key : IsKey name) (gap : atGap tail = true) (tab : tail.head? ≠ some '\t')
    (block : level.block = true) :
    ∃ t, Reaches s t ∧ BehindColon t tail
      (tokens ++ [.key, .scalar true (String.ofList name), .value]) c (level :: levels) := by
  obtain ⟨adjacent, p, rfl, rfl⟩ := at_
  obtain ⟨q, line, short, right, begun, reaches⟩ := Reaches.colon (p := p) adjacent
    tokens key gap (Int.le_refl _) (leaveInner_block block)
  have inside : 0 < q.column := by omega
  have right_q : (p.column : Int) ≤ q.column := by omega
  refine ⟨_, reaches.trans (.value line short right_q inside gap (value?_same tab rfl block)),
    adjacent, q.marks 1, ?_, rfl, rfl⟩
  change p.column < q.column + 1
  omega

end Keys

/-! ### Items -/

theorem skipToLineEnd?_spaces (n : Nat) {p : Place}
    (word : ∀ c ∈ rest.head?, c ≠ ' ' ∧ c ≠ '\t' ∧ c ≠ '#') :
    skipToLineEnd? (spaces n ++ rest) p = some (spaces n, rest, p.blanks n) := by
  have blanks : (spaces n ++ rest).takeWhile isBlank = spaces n := by
    have none_more : rest.takeWhile isBlank = [] := by
      cases rest with
      | nil => rfl
      | cons c rest =>
          obtain ⟨space, tab, -⟩ := word c rfl
          simp [isBlank, space, tab]
    rw [List.takeWhile_append_of_pos, none_more, List.append_nil]
    intro c mem
    rw [List.eq_of_mem_replicate mem]
    rfl
  have length : (spaces n).length = n := List.length_replicate
  have after : (spaces n ++ rest).drop n = rest := List.drop_left' length
  rw [skipToLineEnd?]
  dsimp only
  rw [blanks, length, after]
  split
  · next comment => exact absurd rfl (word '#' rfl).2.2
  · rfl

/-- The hyphen of an item, no deeper than the mapping around it. -/
theorem AtToken.entry {level : Level}
    (at_ : AtToken s ('-' :: ' ' :: rest) i tokens i (level :: levels)) (block : level.block = true)
    (begins : BeginsToken rest) (flat : atFlowMark rest = false) :
    ∃ t, Reaches s t ∧ AtToken t rest (i + 2) (tokens ++ [.entry]) i (level :: levels) := by
  obtain ⟨adjacent, p, column, rfl⟩ := at_
  have first : BeginsToken ('-' :: ' ' :: rest) := by
    rintro d ⟨⟩
    decide
  have blank : skipToLineEnd? (' ' :: rest) (p.marks 1) =
      some ([' '], rest, (p.marks 1).blanks 1) :=
    skipToLineEnd?_spaces 1 fun c mem =>
      ⟨(begins c mem).1, (begins c mem).2.1, (begins c mem).2.2.2⟩
  have newline : rest.head? ≠ some '\n' := fun same => (begins _ same).2.2.1 rfl
  have hyphens : atTriple '-' ('-' :: ' ' :: rest) = false := by cases rest <;> rfl
  have points : atTriple '.' ('-' :: ' ' :: rest) = false := by cases rest <;> rfl
  have gap : atGap (' ' :: rest) = true := rfl
  have token : (stand true adjacent p ('-' :: ' ' :: rest) tokens i (level :: levels)).token? '-'
      (' ' :: rest) = some (stand true adjacent ((p.marks 1).blanks 1) rest (tokens ++ [.entry]) i
        (level :: levels)) := by
    rw [token?]
    · simp [stand, Scan.column, column, hyphens, points, gap, entry?, inFlow, skip, enter, block,
        skipBlanks?, blank, newline, flat, dropKey?, allowKey, push]
    all_goals decide
  refine ⟨_, .of_token ?_ (settle?_here first (by omega)) rfl token, adjacent,
    (p.marks 1).blanks 1, ?_, rfl⟩
  · change rest.length < rest.length + 1 + 1
    omega
  · change p.column + 1 + 1 = i + 2
    omega

/-! ### Values -/

/-- The mark of a text in quotes. -/
def quoteMark (single : Bool) : Char := if single then '\'' else '"'

/-- A value in quotes. -/
theorem BehindColon.quoted {single : Bool} {quoted : List Char} (cs : List Char)
    (behind : BehindColon s (quoteMark single :: (quoted ++ '\n' :: (spaces j ++ rest))) tokens i
      levels)
    (taken : ∀ p : Place, p.fresh = false → (i : Int) + 1 ≤ p.column → 0 < p.column →
      takeQuoted single (i + 1) .word [] (quoted ++ '\n' :: (spaces j ++ rest)) p =
        some ⟨cs, '\n' :: (spaces j ++ rest), p.marks quoted.length⟩)
    (left : j ≤ i) (begins : BeginsToken rest) :
    ∃ t, Reaches s t ∧
      AtToken t rest j (tokens ++ [.scalar false (String.ofList cs)]) i levels := by
  obtain ⟨adjacent, p, right, -, rfl⟩ := behind
  have column : (p.marks 1).column = p.column + 1 := rfl
  have taken := taken (p.marks 1) rfl (by omega) (by omega)
  generalize (p.marks 1).marks quoted.length = q at taken
  have first : BeginsToken (quoteMark single :: (quoted ++ '\n' :: (spaces j ++ rest))) := by
    rintro d ⟨⟩
    cases single <;> decide
  have blanks : skipToLineEnd? ('\n' :: (spaces j ++ rest)) q =
      some ([], '\n' :: (spaces j ++ rest), q) :=
    skipToLineEnd?_spaces 0 (by rintro d ⟨⟩; decide)
  have inside : p.column ≠ 0 := by omega
  have inner : ¬ (p.column : Int) < i + 1 := by omega
  have token : (stand false adjacent p (quoteMark single ::
      (quoted ++ '\n' :: (spaces j ++ rest))) tokens (i + 1) (⟨i, false⟩ :: levels)).token?
        (quoteMark single) (quoted ++ '\n' :: (spaces j ++ rest)) =
      some (stand true (some (q.newline.blanks j).index) (q.newline.blanks j) rest
        (tokens ++ [.scalar false (String.ofList cs)]) (i + 1) (⟨i, false⟩ :: levels)) := by
    have single_mark : quoteMark true = '\'' := rfl
    have double_mark : quoteMark false = '"' := rfl
    cases single <;> first | rw [single_mark, token?] | rw [double_mark, token?]
    all_goals
      simp [stand, Scan.column, inside, inner, quoted?, saveKey, allowKey, taken, Scan.taken,
        skipBlanks?, blanks, skipGap?, skipGap_newline, skipGap_spaces, skipGap_begins begins,
        inFlow, push]
  have at_ : AtToken (stand true (some (q.newline.blanks j).index) (q.newline.blanks j) rest
      (tokens ++ [.scalar false (String.ofList cs)]) (i + 1) (⟨i, false⟩ :: levels)) rest j
        (tokens ++ [.scalar false (String.ofList cs)]) (i + 1) (⟨i, false⟩ :: levels) :=
    ⟨_, q.newline.blanks j, Nat.zero_add j, rfl⟩
  obtain ⟨t, reaches, at_t⟩ := at_.outdent left begins
  refine ⟨t, Reaches.trans (.of_token ?_ (settle?_here first (by omega)) rfl token) reaches, at_t⟩
  simp [stand]
  omega

/-- A value in a literal block. -/
theorem BehindColon.literal {cs : List Char} {outer : Level}
    (behind : BehindColon s (Yaml.literal (i + 2) cs ++ (spaces j ++ rest)) tokens i
      (outer :: levels))
    (block : outer.block = true) (literal : ∀ c ∈ cs, IsLiteralChar c) (lines : '\n' ∈ cs)
    (left : j ≤ i) (begins : BeginsToken rest) :
    ∃ t, Reaches s t ∧
      AtToken t rest j (tokens ++ [.scalar false (String.ofList cs)]) i (outer :: levels) := by
  obtain ⟨adjacent, p, right, -, rfl⟩ := behind
  obtain ⟨p', column, taken⟩ := takeBlock_literal (p := p.marks 1) literal lines left begins
  have text : Yaml.literal (i + 2) cs = '|' :: (Yaml.literal (i + 2) cs).drop 1 := rfl
  rw [text, List.cons_append]
  generalize body_eq : (Yaml.literal (i + 2) cs).drop 1 ++ (spaces j ++ rest) = body at taken
  have first : BeginsToken ('|' :: body) := by
    rintro d ⟨⟩
    decide
  have inside : p.column ≠ 0 := by omega
  have inner : ¬ (p.column : Int) < i + 1 := by omega
  have token : (stand false adjacent p ('|' :: body) tokens (i + 1)
      (⟨i, false⟩ :: outer :: levels)).token? '|' body =
        some (stand true adjacent p' rest (tokens ++ [.scalar false (String.ofList cs)]) i
          (outer :: levels)) := by
    rw [token?]
    · simp [stand, Scan.column, inside, inner, block?, saveKey, allowKey, leaveInnerLevels,
        leaveInner, block, taken, Scan.taken, inFlow, push]
    all_goals decide
  refine ⟨_, .of_token ?_ (settle?_here first (by omega)) rfl token, adjacent, p', column, rfl⟩
  simp [stand, ← body_eq]
  omega

/-- A value that is an empty sequence. -/
theorem BehindColon.empty
    (behind : BehindColon s ('[' :: ']' :: '\n' :: (spaces j ++ rest)) tokens i levels)
    (left : j ≤ i) (begins : BeginsToken rest) :
    ∃ t, Reaches s t ∧ AtToken t rest j (tokens ++ [.flowSequence, .flowSequenceEnd]) i levels := by
  obtain ⟨adjacent, p, right, -, rfl⟩ := behind
  have inside : p.column ≠ 0 := by omega
  have inner : ¬ (p.column : Int) < i + 1 := by omega
  have first {mark : Char} {body : List Char} (bracket : mark = '[' ∨ mark = ']') :
      BeginsToken (mark :: body) := by
    rintro d ⟨⟩
    rcases bracket with rfl | rfl <;> decide
  have none_between (p : Place) : skipToLineEnd? (']' :: '\n' :: (spaces j ++ rest)) p =
      some ([], ']' :: '\n' :: (spaces j ++ rest), p) :=
    skipToLineEnd?_spaces 0 (by rintro d ⟨⟩; decide)
  have none_behind (p : Place) : skipToLineEnd? ('\n' :: (spaces j ++ rest)) p =
      some ([], '\n' :: (spaces j ++ rest), p) :=
    skipToLineEnd?_spaces 0 (by rintro d ⟨⟩; decide)
  have opened : (stand false adjacent p ('[' :: ']' :: '\n' :: (spaces j ++ rest)) tokens (i + 1)
      (⟨i, false⟩ :: levels)).token? '[' (']' :: '\n' :: (spaces j ++ rest)) =
        some { stand true adjacent (p.marks 1) (']' :: '\n' :: (spaces j ++ rest))
          (tokens ++ [.flowSequence]) (i + 1) (⟨i, false⟩ :: levels) with flows := [none] } := by
    rw [token?]
    simp [stand, Scan.column, inside, inner, openFlow?, deepest, saveKey, indentByOne, inFlow, skip,
      skipBlanks?, none_between, allowKey, push]
  have settled_inside : ({ stand true adjacent (p.marks 1) (']' :: '\n' :: (spaces j ++ rest))
      (tokens ++ [.flowSequence]) (i + 1) (⟨i, false⟩ :: levels) with flows := [none] } :
        Scan).settle? = some { stand true adjacent (p.marks 1) (']' :: '\n' :: (spaces j ++ rest))
          (tokens ++ [.flowSequence]) (i + 1) (⟨i, false⟩ :: levels) with flows := [none] } := by
    rw [settle?, skipGap?]
    simp [stand, skipGap_begins (first (.inr rfl)), dropStale?, inFlow, leaveTo]
  have inside_closed : (p.marks 1).column ≠ 0 := Nat.succ_ne_zero _
  have inner_closed : ¬ ((p.marks 1).column : Int) < i + 1 := by
    change ¬ ((p.column + 1 : Nat) : Int) < i + 1
    omega
  have closed : ({ stand true adjacent (p.marks 1) (']' :: '\n' :: (spaces j ++ rest))
      (tokens ++ [.flowSequence]) (i + 1) (⟨i, false⟩ :: levels) with flows := [none] } :
        Scan).token? ']' ('\n' :: (spaces j ++ rest)) =
          some (stand false adjacent ((p.marks 1).marks 1) ('\n' :: (spaces j ++ rest))
            (tokens ++ [.flowSequence, .flowSequenceEnd]) (i + 1) (⟨i, false⟩ :: levels)) := by
    rw [token?]
    simp [stand, Scan.column, inside_closed, inner_closed, closeFlow?, dropKey?, endPair, inFlow,
      skip, skipBlanks?, none_behind, allowKey, push]
  have behind : BehindColon (stand false adjacent ((p.marks 1).marks 1) ('\n' :: (spaces j ++ rest))
      (tokens ++ [.flowSequence, .flowSequenceEnd]) (i + 1) (⟨i, false⟩ :: levels))
        ('\n' :: (spaces j ++ rest)) (tokens ++ [.flowSequence, .flowSequenceEnd]) i levels := by
    refine ⟨adjacent, (p.marks 1).marks 1, ?_, rfl, rfl⟩
    change i < p.column + 1 + 1
    omega
  obtain ⟨t, reaches, at_t⟩ := behind.newline left begins
  refine ⟨t, Reaches.trans (.of_token ?_ (settle?_here (first (.inl rfl)) (by omega)) rfl opened)
    (Reaches.trans (.of_token ?_ settled_inside rfl closed) reaches), at_t⟩ <;> simp [stand]

end Steps

end Scan

end Voicing.Yaml
