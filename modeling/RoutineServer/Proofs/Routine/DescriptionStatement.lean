import RoutineServer.Proofs.Routine.CodeWords
import RoutineServer.Proofs.Text.Matches
import RoutineServer.Routine.Description

namespace RoutineServer

/-!
# Where a description comes from

A statement about a name is a sequence of pieces: its words, the blanks between
them, an argument list and the quoted description. The reader of statements
leaves exactly the texts behind such sequences. The description that is found
for a name is therefore that of the first statement about it that starts in
code, and a statement is passed over only where another one, which starts in a
comment or in a string, reaches over its first word.
-/

namespace Description

/-- A text of one piece for each shape. -/
inductive Pieces : List (Text → Prop) → Text → Prop where
  | nil :
      Pieces [] []
  | cons
      {shape : Text → Prop}
      {shapes : List (Text → Prop)}
      {piece rest : Text} :
      shape piece →
      Pieces shapes rest →
      Pieces (shape :: shapes) (piece ++ rest)

/-- One or more blanks. -/
def IsBreak (blanks : Text) : Prop :=
  blanks ≠ [] ∧ IsGap blanks

/-- The word for a kind of routine. -/
def IsKind (word : Text) : Prop :=
  Text.Spells "function".toList word ∨ Text.Spells "procedure".toList word

/-- An argument list in parentheses, or none. -/
inductive IsArguments : Text → Prop where
  | none :
      IsArguments []
  | list
      {inside : Text} :
      ')' ∉ inside →
      IsArguments ('(' :: (inside ++ [')']))

/-- A description between quotes of either kind. -/
inductive IsQuoted (description : Text) : Text → Prop where
  | intro
      {opening closing : Char} :
      isQuote opening = true →
      (∀ char ∈ description, isQuote char = false) →
      isQuote closing = true →
      IsQuoted description (opening :: (description ++ [closing]))

/-- The pieces of a statement about a name in front of its description. -/
def headShapes (name : Text) : List (Text → Prop) :=
  [Text.Spells "comment".toList, IsBreak, Text.Spells "on".toList, IsBreak, IsKind, IsBreak,
    Text.Spells name, IsGap, IsArguments, IsBreak, Text.Spells "is".toList, IsBreak]

/-- A statement that describes a routine, up to the quote behind its description. -/
def Statement (name description : Text) : Text → Prop :=
  Pieces (headShapes name ++ [IsQuoted description])

theorem pieces_singleton_iff
    {shape : Text → Prop}
    {text : Text} :
    Pieces [shape] text ↔ shape text := by
  constructor
  · rintro (_ | ⟨holds, ⟨⟩⟩)
    simpa using holds
  · intro holds
    simpa using Pieces.cons holds .nil

theorem pieces_concat_iff
    {shapes : List (Text → Prop)}
    {shape : Text → Prop}
    {text : Text} :
    Pieces (shapes ++ [shape]) text ↔
      ∃ front piece, text = front ++ piece ∧ Pieces shapes front ∧ shape piece := by
  induction shapes generalizing text with
  | nil =>
      rw [List.nil_append, pieces_singleton_iff]
      constructor
      · intro holds
        exact ⟨[], text, rfl, .nil, holds⟩
      · rintro ⟨_, piece, rfl, ⟨⟩, holds⟩
        exact holds
  | cons first shapes inductionHypothesis =>
      constructor
      · rintro (_ | ⟨isFirst, pieces⟩)
        obtain ⟨front, piece, rfl, pieces, holds⟩ := inductionHypothesis.mp pieces
        exact ⟨_, piece, (List.append_assoc _ _ _).symm, .cons isFirst pieces, holds⟩
      · rintro ⟨_, piece, rfl, _ | ⟨isFirst, pieces⟩, holds⟩
        rw [List.append_assoc]
        exact .cons isFirst (inductionHypothesis.mpr ⟨_, piece, rfl, pieces, holds⟩)

/-- A step of the reader leaves exactly the texts behind a piece of a shape. -/
def Reads (step : Text → List Text) (shape : Text → Prop) : Prop :=
  ∀ text rest, rest ∈ step text ↔ ∃ piece, text = piece ++ rest ∧ shape piece

/-- One more step reads one more piece. -/
theorem Reads.flatMap
    {first second : Text → List Text}
    {shapes : List (Text → Prop)}
    {shape : Text → Prop}
    (readsFirst : Reads first (Pieces shapes))
    (readsSecond : Reads second shape) :
    Reads (fun text => (first text).flatMap second) (Pieces (shapes ++ [shape])) := by
  intro text rest
  rw [List.mem_flatMap]
  constructor
  · rintro ⟨middle, isMiddle, isRest⟩
    obtain ⟨front, rfl, pieces⟩ := (readsFirst _ _).mp isMiddle
    obtain ⟨piece, rfl, holds⟩ := (readsSecond _ _).mp isRest
    exact ⟨front ++ piece, (List.append_assoc _ _ _).symm,
      pieces_concat_iff.mpr ⟨front, piece, rfl, pieces, holds⟩⟩
  · rintro ⟨_, rfl, pieces⟩
    obtain ⟨front, piece, rfl, pieces, holds⟩ := pieces_concat_iff.mp pieces
    exact ⟨piece ++ rest, (readsFirst _ _).mpr ⟨front, List.append_assoc _ _ _, pieces⟩,
      (readsSecond _ _).mpr ⟨piece, rfl, holds⟩⟩

theorem Reads.pieces
    {step : Text → List Text}
    {shape : Text → Prop}
    (reads : Reads step shape) :
    Reads step (Pieces [shape]) := by
  simpa only [Reads, pieces_singleton_iff] using reads

theorem reads_afterWord
    (word : Text) :
    Reads (afterWord word) (Text.Spells word) := by
  intro text rest
  rw [afterWord, Option.mem_toList, Text.dropFolded?_eq_some_iff]

theorem reads_afterKind :
    Reads afterKind IsKind := by
  intro text rest
  rw [afterKind, List.mem_append, reads_afterWord, reads_afterWord, ← exists_or]
  simp only [IsKind, and_or_left]

theorem reads_afterBlanks :
    Reads afterBlanks IsGap := by
  intro text rest
  induction text with
  | nil =>
      rw [afterBlanks, List.mem_singleton]
      constructor
      · rintro rfl
        exact ⟨[], rfl, nofun⟩
      · rintro ⟨blanks, whole, -⟩
        exact (List.append_eq_nil_iff.mp whole.symm).2
  | cons char more inductionHypothesis =>
      rw [afterBlanks]
      constructor
      · intro member
        split at member
        case isTrue blank =>
          rcases List.mem_append.mp member with later | here
          · obtain ⟨blanks, rfl, isGap⟩ := inductionHypothesis.mp later
            exact ⟨char :: blanks, rfl, List.forall_mem_cons.mpr ⟨blank, isGap⟩⟩
          · exact ⟨[], (List.mem_singleton.mp here).symm, nofun⟩
        case isFalse =>
          exact ⟨[], (List.mem_singleton.mp member).symm, nofun⟩
      · rintro ⟨blanks, whole, isGap⟩
        cases blanks with
        | nil =>
            rw [whole, List.nil_append]
            split <;> simp
        | cons first blanks =>
            obtain ⟨rfl, rfl⟩ := List.cons.inj whole
            obtain ⟨blank, isGap⟩ := List.forall_mem_cons.mp isGap
            rw [if_pos blank]
            exact List.mem_append_left _ (inductionHypothesis.mpr ⟨blanks, rfl, isGap⟩)

theorem reads_afterSomeBlanks :
    Reads afterSomeBlanks IsBreak := by
  intro text rest
  cases text with
  | nil =>
      constructor
      · nofun
      · rintro ⟨blanks, whole, nonempty, -⟩
        exact absurd (List.append_eq_nil_iff.mp whole.symm).1 nonempty
  | cons char more =>
      rw [afterSomeBlanks, List.mem_ite_nil_right, reads_afterBlanks]
      constructor
      · rintro ⟨blank, blanks, rfl, isGap⟩
        exact ⟨char :: blanks, rfl, List.cons_ne_nil _ _, List.forall_mem_cons.mpr ⟨blank, isGap⟩⟩
      · rintro ⟨_ | ⟨first, blanks⟩, whole, nonempty, isGap⟩
        · exact absurd rfl nonempty
        · obtain ⟨rfl, rfl⟩ := List.cons.inj whole
          obtain ⟨blank, isGap⟩ := List.forall_mem_cons.mp isGap
          exact ⟨blank, blanks, rfl, isGap⟩

/-- An argument list ends at the first closing parenthesis. -/
theorem afterArguments_list
    {inside : Text}
    (flat : ')' ∉ inside)
    (rest : Text) :
    afterArguments ('(' :: (inside ++ ')' :: rest)) = [rest, '(' :: (inside ++ ')' :: rest)] := by
  have passes : ∀ char ∈ inside, (char != ')') = true := by
    intro char member
    exact bne_iff_ne.mpr fun same => flat (same ▸ member)
  rw [afterArguments, List.dropWhile_append_of_pos passes]
  rfl

theorem afterArguments_of_head
    {text : Text}
    (other : text.head? ≠ some '(') :
    afterArguments text = [text] := by
  unfold afterArguments
  split
  case h_1 =>
    exact absurd rfl other
  case h_2 =>
    rfl

theorem afterArguments_cases
    (text : Text) :
    afterArguments text = [text] ∨
      ∃ inside rest,
        text = '(' :: (inside ++ ')' :: rest) ∧ ')' ∉ inside ∧
          afterArguments text = [rest, text] := by
  by_cases opens : text.head? = some '('
  · obtain ⟨inner, rfl⟩ := List.head?_eq_some_iff.mp opens
    by_cases closes : ')' ∈ inner
    · obtain ⟨inside, rest, rfl, flat⟩ := List.eq_append_cons_of_mem closes
      exact .inr ⟨inside, rest, rfl, flat, afterArguments_list flat rest⟩
    · have passes : ∀ char ∈ inner, (char != ')') = true := by
        intro char member
        exact bne_iff_ne.mpr fun same => closes (same ▸ member)
      rw [afterArguments, List.dropWhile_eq_nil_iff.mpr passes]
      exact .inl rfl
  · exact .inl (afterArguments_of_head opens)

theorem reads_afterArguments :
    Reads afterArguments IsArguments := by
  intro text rest
  constructor
  · intro member
    rcases afterArguments_cases text with unread | ⟨inside, following, rfl, flat, read⟩
    · rw [unread, List.mem_singleton] at member
      exact ⟨[], member.symm, .none⟩
    · rw [read, List.mem_pair] at member
      rcases member with rfl | rfl
      · exact ⟨'(' :: (inside ++ [')']), by simp, .list flat⟩
      · exact ⟨[], rfl, .none⟩
  · rintro ⟨_, rfl, _ | @⟨inside, flat⟩⟩
    · rw [List.nil_append]
      rcases afterArguments_cases rest with unread | ⟨_, _, -, -, read⟩
      · rw [unread]
        exact List.mem_singleton_self rest
      · rw [read]
        exact List.mem_pair.mpr (.inr rfl)
    · rw [List.cons_append, List.append_assoc, List.singleton_append, afterArguments_list flat]
      exact List.mem_cons_self

/-- The reader leaves what stands behind the head of a statement. -/
theorem reads_afterHead
    (name : Text) :
    Reads (afterHead name) (Pieces (headShapes name)) := by
  have subject :=
    (((reads_afterWord "comment".toList).pieces.flatMap reads_afterSomeBlanks).flatMap
      (reads_afterWord "on".toList)).flatMap reads_afterSomeBlanks |>.flatMap reads_afterKind
  have named :=
    ((subject.flatMap reads_afterSomeBlanks).flatMap (reads_afterWord name)).flatMap
      reads_afterBlanks
  have head :=
    ((named.flatMap reads_afterArguments).flatMap reads_afterSomeBlanks).flatMap
      (reads_afterWord "is".toList) |>.flatMap reads_afterSomeBlanks
  simp only [List.cons_append, List.nil_append] at head
  exact head

/-- A description ends at the first quote. -/
theorem quoted?_append
    {description : Text}
    {opening closing : Char}
    (opens : isQuote opening = true)
    (unquoted : ∀ char ∈ description, isQuote char = false)
    (closes : isQuote closing = true)
    (rest : Text) :
    quoted? (opening :: (description ++ closing :: rest)) = some (description, rest) := by
  have passes : ∀ char ∈ description, (!isQuote char) = true := by
    intro char member
    rw [unquoted char member]
    rfl
  rw [quoted?, if_pos opens, List.dropWhile_append_of_pos passes,
    List.takeWhile_append_of_pos passes]
  simp [closes]

theorem quoted?_eq_some_iff
    {text description rest : Text} :
    quoted? text = some (description, rest) ↔
      ∃ literal, text = literal ++ rest ∧ IsQuoted description literal := by
  constructor
  · intro found
    cases text with
    | nil =>
        cases found
    | cons opening inner =>
        simp only [quoted?, Option.ite_none_right_eq_some] at found
        obtain ⟨opens, found⟩ := found
        split at found
        case h_1 =>
          cases found
        case h_2 closing following ends =>
          obtain ⟨rfl, rfl⟩ := Prod.mk.inj (Option.some.inj found)
          have parts := List.takeWhile_append_dropWhile (p := (!isQuote ·)) (l := inner)
          have closes := List.head?_dropWhile_not (!isQuote ·) inner
          rw [ends] at parts closes
          refine ⟨opening :: (inner.takeWhile (!isQuote ·) ++ [closing]), by simpa using parts.symm,
            .intro opens (fun char member => ?_) (by simpa using closes)⟩
          simpa using List.mem_takeWhile_imp member
  · rintro ⟨_, rfl, @⟨opening, closing, opens, unquoted, closes⟩⟩
    rw [List.cons_append, List.append_assoc]
    exact quoted?_append opens unquoted closes rest

/-- What is read as a description is the rest of a statement. -/
theorem exists_statement_iff
    {name text description rest : Text} :
    (description, rest) ∈ (afterHead name text).filterMap quoted? ↔
      ∃ statement, text = statement ++ rest ∧ Statement name description statement := by
  simp only [List.mem_filterMap, reads_afterHead name text, quoted?_eq_some_iff, Statement,
    pieces_concat_iff]
  constructor
  · rintro ⟨_, ⟨head, rfl, isHead⟩, literal, rfl, isLiteral⟩
    exact ⟨head ++ literal, (List.append_assoc _ _ _).symm, head, literal, rfl, isHead, isLiteral⟩
  · rintro ⟨_, rfl, head, literal, rfl, isHead, isLiteral⟩
    exact ⟨literal ++ rest, ⟨head, List.append_assoc _ _ _, isHead⟩, literal, rfl, isLiteral⟩

/-- A statement is read with its length and its description. -/
theorem exists_of_describedAt?
    {name text description : Text}
    {length : Nat}
    (found : describedAt? name text = some (length, description)) :
    ∃ statement rest,
      text = statement ++ rest ∧ length = statement.length ∧ description ≠ [] ∧
        Statement name description statement := by
  simp only [describedAt?, Option.map_eq_some_iff, Prod.mk.injEq] at found
  obtain ⟨⟨description, rest⟩, isBody, rfl, rfl⟩ := found
  obtain ⟨statement, rfl, isStatement⟩ :=
    exists_statement_iff.mp (List.mem_of_find?_eq_some isBody)
  have described := List.find?_some isBody
  exact ⟨statement, rest, rfl, by simp, by simpa using described, isStatement⟩

/-- At a statement with a description something is read. -/
theorem isSome_describedAt?
    {name description statement : Text}
    (described : description ≠ [])
    (isStatement : Statement name description statement)
    (rest : Text) :
    (describedAt? name (statement ++ rest)).isSome = true := by
  have member :
      (description, rest) ∈ (afterHead name (statement ++ rest)).filterMap quoted? :=
    exists_statement_iff.mpr ⟨statement, rfl, isStatement⟩
  rw [describedAt?, Option.isSome_map, List.find?_isSome]
  exact ⟨_, member, by simpa using described⟩

theorem Statement.ne_nil
    {name description statement : Text}
    (isStatement : Statement name description statement) :
    statement ≠ [] := by
  rintro rfl
  obtain ⟨front, literal, empty, -, isLiteral⟩ := pieces_concat_iff.mp isStatement
  cases isLiteral
  exact List.cons_ne_nil _ _ (List.append_eq_nil_iff.mp empty.symm).2

/-- A statement in a document that gives a description of a name. -/
structure GivenAt (text name description : Text) (span : Span) : Prop where
  described : description ≠ []
  stands :
    ∃ front statement back,
      text = front ++ (statement ++ back) ∧
        span = ⟨Text.byteLength front, Text.byteLength front + Text.byteLength statement⟩ ∧
          Statement name description statement

theorem GivenAt.start_le_stop
    {text name description : Text}
    {span : Span}
    (given : GivenAt text name description span) :
    span.start ≤ span.stop := by
  obtain ⟨-, front, statement, -, -, rfl, -⟩ := given
  exact Nat.le_add_right _ _

/-- A statement that starts in a comment or in a string reaches over an offset. -/
def Overrun (text name : Text) (offset : Nat) : Prop :=
  ∃ description span,
    GivenAt text name description span ∧ isCodeAt text span.start = false ∧
      span.start < offset ∧ offset < span.stop

/-- The description of a name in a document is that of the first statement in code, if any. -/
inductive Describes (text name : Text) : Option Text → Prop where
  | first
      {description : Text}
      {span : Span} :
      GivenAt text name description span →
      isCodeAt text span.start = true →
      (∀ other earlier, GivenAt text name other earlier → isCodeAt text earlier.start = true →
        earlier.start < span.start → Overrun text name earlier.start) →
      Describes text name (some description)
  | none :
      (∀ other span, GivenAt text name other span → isCodeAt text span.start = true →
        Overrun text name span.start) →
      Describes text name none

section Find

variable {text name : Text}

theorem givenAt_of_mem_findMatches
    {found : Span × Text}
    (member : found ∈ Text.findMatches (describedAt? name) text) :
    GivenAt text name found.2 found.1 := by
  obtain ⟨front, later, length, rfl, isMatch, place⟩ := Text.exists_of_mem_findMatches member
  obtain ⟨statement, rest, rfl, rfl, described, isStatement⟩ := exists_of_describedAt? isMatch
  rw [List.take_left] at place
  exact ⟨described, front, statement, rest, rfl, place, isStatement⟩

/-- Where no match in code starts up to a statement, one that does not start in code covers it. -/
theorem overrun_of_givenAt
    {description : Text}
    {span : Span}
    (given : GivenAt text name description span)
    (inCode : isCodeAt text span.start = true)
    (skipped :
      ∀ found ∈ Text.findMatches (describedAt? name) text,
        found.1.start ≤ span.start → isCodeAt text found.1.start = false) :
    Overrun text name span.start := by
  obtain ⟨described, front, statement, rest, rfl, rfl, isStatement⟩ := given
  obtain ⟨found, member, here | ⟨before, reaches⟩⟩ :=
    Text.exists_mem_findMatches front
      (List.append_ne_nil_of_left_ne_nil isStatement.ne_nil rest)
      (isSome_describedAt? described isStatement rest)
  · have outside := skipped found member (Nat.le_of_eq here)
    rw [here, inCode] at outside
    cases outside
  · exact ⟨found.2, found.1, givenAt_of_mem_findMatches member,
      skipped found member (Nat.le_of_lt before), before, reaches⟩

/-- The description that is found is the one that the document gives. -/
theorem describes_find?
    (named : name ≠ []) :
    Describes text name (find? text name) := by
  have isNamed : name.isEmpty = false := by simpa using named
  rw [find?, isNamed]
  cases isFound :
      (Text.findMatches (describedAt? name) text).find? (isCodeAt text ·.1.start) with
  | none =>
      have outside := List.find?_eq_none.mp isFound
      refine .none fun _ _ given inCode => overrun_of_givenAt given inCode fun found member _ => ?_
      exact Bool.eq_false_iff.mpr (outside found member)
  | some found =>
      obtain ⟨inCode, before, behind, listed, outside⟩ :=
        List.find?_eq_some_iff_append.mp isFound
      have isGiven := givenAt_of_mem_findMatches (List.mem_of_find?_eq_some isFound)
      refine .first isGiven inCode ?_
      intro _ earlier given earlierInCode isEarlier
      refine overrun_of_givenAt given earlierInCode fun other member upTo => ?_
      -- A match that starts before the one that is found comes before it in the list.
      have ordered := Text.pairwise_findMatches (describedAt? name) text
      rw [listed] at ordered member
      rcases List.mem_append.mp member with isBefore | isLater
      · simpa using outside other isBefore
      · rcases List.mem_cons.mp isLater with rfl | isBehind
        · omega
        · have fromFound := (List.pairwise_append.mp ordered).2.1
          have apart := (List.pairwise_cons.mp fromFound).1 other isBehind
          have reaches := isGiven.start_le_stop
          omega

end Find

end Description

end RoutineServer
