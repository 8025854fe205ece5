import RoutineServer.Command.Move
import RoutineServer.Proofs.Service.Editing
import RoutineServer.Proofs.Text.Matches

namespace RoutineServer

/-!
# What a move carries along

A move takes whole lines out of the source. Of the declaration it inserts these
lines, but of a statement that describes it only the statement itself. So no
visible character is lost exactly if each of these statements stands alone on
its lines.
-/

namespace Text

/-- The characters of a text that are not blank. -/
def visible (text : Text) : Text :=
  text.filter (!isBlank ·)

@[simp] theorem visible_nil : visible [] = [] := rfl

@[simp] theorem visible_append
    (first second : Text) :
    visible (first ++ second) = visible first ++ visible second :=
  List.filter_append first second

theorem visible_eq_nil_iff
    {text : Text} :
    visible text = [] ↔ ∀ char ∈ text, isBlank char = true := by
  simp [visible]

theorem visible_flatMap
    (pieces : List α)
    (text : α → Text) :
    visible (pieces.flatMap text) = pieces.flatMap fun piece => visible (text piece) := by
  induction pieces with
  | nil =>
      rfl
  | cons piece rest inductionHypothesis =>
      rw [List.flatMap_cons, visible_append, inductionHypothesis, List.flatMap_cons]

theorem visible_trimStart
    (text : Text) :
    visible (trimStart text) = visible text := by
  have split : text.takeWhile isBlank ++ trimStart text = text :=
    List.takeWhile_append_dropWhile
  have blank : visible (text.takeWhile isBlank) = [] :=
    visible_eq_nil_iff.mpr fun char member => List.mem_takeWhile_imp member
  have whole := congrArg visible split
  rwa [visible_append, blank, List.nil_append] at whole

theorem visible_trim
    (text : Text) :
    visible (trim text) = visible text := by
  have reversed := visible_trimStart (trimStart text).reverse
  rw [visible, visible, trimStart, List.filter_reverse] at reversed
  rw [trim, trimEnd, visible, List.filter_reverse, reversed, List.reverse_reverse]
  exact visible_trimStart text

/-- What a span of a line says about the line. -/
theorem exists_of_lineSpan?
    {text : Text}
    {line : Nat}
    {span : Span}
    (found : lineSpan? text line = some span) :
    ∃ place : Place text,
      place.above.length = line ∧ place.left = [] ∧
        span =
          ⟨byteLength (ended place.above),
            byteLength (ended place.above ++ dropReturn place.line)⟩ := by
  obtain ⟨content, isLine, -⟩ := Option.map_eq_some_iff.mp found
  obtain ⟨within, -⟩ := List.getElem?_eq_some_iff.mp isLine
  obtain ⟨place, rfl, start⟩ := Place.exists_of_lt within
  rw [place.lineSpan?_eq, Option.some.injEq] at found
  exact ⟨place, rfl, start, by rw [← found, byteLength_append]⟩

theorem getLast?_ended_ne
    (above : List Text) :
    (ended above).getLast? ≠ some '\r' := by
  rcases getLast?_ended above with isEmpty | isNewline
  · rw [isEmpty]
    simp
  · rw [isNewline]
    decide

/-- The text around the end of a line: up to its terminator, and from there on. -/
theorem Place.exists_lineStop
    {text : Text}
    (place : Place text) :
    ∃ returns,
      place.line = dropReturn place.line ++ returns ∧
        text = (ended place.above ++ dropReturn place.line) ++ (returns ++ started place.below) ∧
          (∀ char ∈ returns, char = '\r') ∧
            settled (ended place.above ++ dropReturn place.line)
              (returns ++ started place.below) := by
  obtain ⟨returns, isLine, returned, otherwise⟩ := exists_returns place.line
  refine ⟨returns, isLine, ?_, returned, ?_⟩
  · calc
      text = ended place.above ++ (place.line ++ started place.below) := by
        rw [Place.line, List.append_assoc, ← List.append_assoc]
        exact place.text_eq
      _ = _ := by
        rw [List.append_assoc, ← List.append_assoc (dropReturn _), ← isLine]
  · intro isReturn
    cases returns with
    | cons char rest =>
        refine ⟨char, rest ++ started place.below, rfl, ?_⟩
        rw [returned char List.mem_cons_self]
        decide
    | nil =>
        rw [List.append_nil] at isLine
        rw [← isLine, List.getLast?_append, Option.or_eq_some_iff] at isReturn
        rcases isReturn with onLine | ⟨-, above⟩
        · exact absurd onLine (otherwise rfl)
        · exact absurd above (getLast?_ended_ne place.above)

/-- The ends of a line are named by their positions. -/
theorem offsetOf?_lineSpan
    {text : Text}
    {line : Nat}
    {span : Span}
    (found : lineSpan? text line = some span) :
    offsetOf? text (positionOf text span.start) = some span.start ∧
      offsetOf? text (positionOf text span.stop) = some span.stop := by
  obtain ⟨place, -, start, rfl⟩ := exists_of_lineSpan? found
  constructor
  · have whole : text = ended place.above ++ (place.right ++ started place.below) := by
      have whole := place.text_eq
      rwa [start, List.append_nil] at whole
    refine offsetOf?_positionOf whole rfl fun isReturn => ?_
    exact absurd isReturn (getLast?_ended_ne place.above)
  · obtain ⟨returns, -, whole, -, settles⟩ := place.exists_lineStop
    exact offsetOf?_positionOf whole rfl settles

end Text

namespace Move

open Text

/-- Whole lines are named by their range. -/
theorem spanOf?_linesSpan
    {text : Text}
    {first last : Nat}
    {span : Span}
    (found : linesSpan? text first last = some span) :
    spanOf? text (rangeOf text span) = some span := by
  simp only [linesSpan?, Option.bind_eq_bind, Option.bind_eq_some_iff, Option.some.injEq] at found
  obtain ⟨firstSpan, isFirst, lastSpan, isLast, rfl⟩ := found
  obtain ⟨start, -⟩ := offsetOf?_lineSpan isFirst
  obtain ⟨-, stop⟩ := offsetOf?_lineSpan isLast
  simp only [spanOf?, rangeOf, start, stop]
  rfl

/-- The lines above a later place begin with those above an earlier one. -/
theorem ended_prefix
    {text : Text}
    {first second : Place text}
    (ordered : first.above.length ≤ second.above.length) :
    ended first.above <+: ended second.above := by
  have isFirst : (lines text).take first.above.length = first.above := by
    rw [first.lines_eq, List.take_left]
  have isSecond : (lines text).take second.above.length = second.above := by
    rw [second.lines_eq, List.take_left]
  obtain ⟨between, isBetween⟩ : first.above <+: second.above := by
    rw [← isFirst, ← isSecond]
    exact List.take_prefix_take_left ordered
  refine ⟨ended between, ?_⟩
  rw [← isBetween, ended, ended, ended, List.flatMap_append]

/-- A carriage return and a newline that end a line are blanks. -/
theorem blank_of_terminator
    {returns tail back : Text}
    {below : List Text}
    (returned : ∀ char ∈ returns, char = '\r')
    (shape : tail ++ back = returns ++ started below)
    (short : tail.length ≤ returns.length + 1) :
    ∀ char ∈ tail, isBlank char = true := by
  have blankReturn : ∀ char ∈ returns, isBlank char = true := by
    intro char member
    rw [returned char member]
    decide
  intro char member
  rcases mem_returns_or_newline shape with inReturns | ⟨others, rfl⟩
  · exact blankReturn char (inReturns char member)
  · have nothing : others = [] := by
      rw [List.length_append, List.length_cons] at short
      exact List.length_eq_zero_iff.mp (by omega)
    rw [nothing] at member
    rcases List.mem_append.mp member with inReturns | isNewline
    · exact blankReturn char inReturns
    · rw [List.mem_singleton.mp isNewline]
      decide

/--
The lines of a piece start in front of the piece. They end behind it, unless
the piece ends with a part of a terminator.
-/
theorem exists_lines_of_piece
    {text front middle back : Text}
    {span : Span}
    (whole : text = front ++ (middle ++ back))
    (found :
      linesSpan? text (lineOf text (byteLength front))
          (lineOf text (max (byteLength (front ++ middle) - 1) (byteLength front))) =
        some span) :
    ∃ lead left content rest,
      front = lead ++ left ∧ text = lead ++ (content ++ rest) ∧
        span = ⟨byteLength lead, byteLength (lead ++ content)⟩ ∧
          ((∃ tail, content = left ++ (middle ++ tail)) ∨
            ∃ tail, content ++ tail = left ++ middle ∧ ∀ char ∈ tail, isBlank char = true) := by
  obtain ⟨place, isFront, -⟩ := Place.exists_of_append whole
  have wholeLast :
      text = (front ++ middle.dropLast) ++ (middle.drop (middle.length - 1) ++ back) := by
    rw [whole, List.dropLast_eq_take, List.append_assoc, ← List.append_assoc (middle.take _),
      List.take_append_drop]
  obtain ⟨lastPlace, isLastFront, -⟩ := Place.exists_of_append wholeLast
  have lastLine :
      lineOf text (max (byteLength (front ++ middle) - 1) (byteLength front)) =
        lastPlace.above.length := by
    rw [lineOf_last whole, ← isLastFront, lastPlace.count_front]
  have firstLine : lineOf text (byteLength front) = place.above.length := by
    rw [← isFront, place.lineOf_eq]
  have ordered : place.above.length ≤ lastPlace.above.length := by
    rw [← place.count_front, ← lastPlace.count_front, isFront, isLastFront, List.count_append]
    exact Nat.le_add_right _ _
  obtain ⟨between, isBetween⟩ := ended_prefix ordered
  obtain ⟨returns, isLine, wholeStop, returned, -⟩ := lastPlace.exists_lineStop
  rw [firstLine, lastLine] at found
  simp only [linesSpan?, place.lineSpan?_eq, lastPlace.lineSpan?_eq, Option.bind_eq_bind,
    Option.bind_some, Option.some.injEq] at found
  have shape :
      text =
        (ended place.above ++ (between ++ dropReturn lastPlace.line)) ++
          (returns ++ started lastPlace.below) := by
    rw [← isBetween] at wholeStop
    simpa using wholeStop
  refine ⟨ended place.above, place.left, between ++ dropReturn lastPlace.line,
    returns ++ started lastPlace.below, isFront.symm, ?_, ?_, ?_⟩
  · rw [← List.append_assoc]
    exact shape
  · rw [← found, ← List.append_assoc, isBetween, byteLength_append]
  · have wholePiece : text = (front ++ middle) ++ back := by
      rw [whole, List.append_assoc]
    have isLead : front = ended place.above ++ place.left := isFront.symm
    rcases List.append_eq_append_iff.mp (shape.symm.trans wholePiece) with
      ⟨tail, isPiece, isRest⟩ | ⟨tail, isContent, -⟩
    · right
      refine ⟨tail, ?_, blank_of_terminator returned isRest.symm ?_⟩
      · rw [isLead, List.append_assoc, List.append_assoc, List.append_cancel_left_eq] at isPiece
        exact isPiece.symm
      · -- The last character of the piece lies on the last line or ends it.
        have pieceSize := congrArg List.length isPiece
        have lastSize := congrArg List.length isLastFront
        have lineSize := congrArg List.length isLine
        have betweenSize := congrArg List.length isBetween
        simp only [Place.front, Place.line, List.length_append, List.length_dropLast]
          at pieceSize lastSize lineSize betweenSize
        omega
    · left
      refine ⟨tail, ?_⟩
      rw [isLead, List.append_assoc, List.append_assoc, List.append_cancel_left_eq] at isContent
      exact isContent

/--
The lines of a piece show what is in front of the piece, the piece and what is
behind it. A terminator that ends the piece is not part of the lines, but it
shows nothing.
-/
theorem visible_lines
    {text front middle back : Text}
    {span : Span}
    (whole : text = front ++ (middle ++ back))
    (found :
      linesSpan? text (lineOf text (byteLength front))
          (lineOf text (max (byteLength (front ++ middle) - 1) (byteLength front))) =
        some span) :
    visible (slice span text) =
      visible (slice ⟨span.start, byteLength front⟩ text) ++
        (visible middle ++ visible (slice ⟨byteLength (front ++ middle), span.stop⟩ text)) := by
  obtain ⟨lead, left, content, rest, isFront, shape, rfl, ends⟩ :=
    exists_lines_of_piece whole found
  have isContent : slice ⟨byteLength lead, byteLength (lead ++ content)⟩ text = content :=
    slice_eq shape rfl (byteLength_append _ _)
  have isLeft : slice ⟨byteLength lead, byteLength front⟩ text = left := by
    have around : text = lead ++ (left ++ (middle ++ back)) := by
      rw [whole, isFront, List.append_assoc]
    exact slice_eq around rfl (by rw [isFront, byteLength_append])
  rw [isContent, isLeft]
  rcases ends with ⟨tail, rfl⟩ | ⟨tail, isTail, blank⟩
  · have isBehind :
        slice ⟨byteLength (front ++ middle), byteLength (lead ++ (left ++ (middle ++ tail)))⟩ text =
          tail := by
      have around : text = (front ++ middle) ++ (tail ++ rest) := by
        rw [shape, isFront]
        simp
      refine slice_eq around rfl ?_
      rw [isFront]
      simp [Nat.add_assoc]
    rw [isBehind]
    simp
  · -- The piece reaches beyond the lines, and nothing is left behind it.
    have isBehind :
        slice ⟨byteLength (front ++ middle), byteLength (lead ++ content)⟩ text = [] := by
      have upTo : before (byteLength (lead ++ content)) text = lead ++ content :=
        before_eq (by rw [shape, List.append_assoc]) rfl
      have start : index (byteLength (front ++ middle)) text = (front ++ middle).length :=
        index_eq (by rw [whole, List.append_assoc]) rfl
      rw [slice, upTo, start]
      apply List.drop_eq_nil_of_le
      rw [isFront, List.append_assoc, ← isTail]
      simp
    have shown := congrArg visible isTail
    rw [visible_append, visible_append, visible_eq_nil_iff.mpr blank, List.append_nil] at shown
    rw [isBehind, shown]
    simp

/-- The lines that a statement takes up. -/
def statementLines? (text : Text) (statement : Span) : Option Span :=
  linesSpan? text (lineOf text statement.start)
    (lineOf text (max (statement.stop - 1) statement.start))

/-- A statement that is moved along, and the lines that are taken out for it. -/
structure Carried where
  statement : Span
  lines : Span
  deriving Repr, DecidableEq

/-- Whether a statement has nothing beside it on its lines but blanks. -/
def Carried.standsAlone (text : Text) (carried : Carried) : Bool :=
  (slice ⟨carried.lines.start, carried.statement.start⟩ text).all isBlank &&
    (slice ⟨carried.statement.stop, carried.lines.stop⟩ text).all isBlank

/--
Of some statements, those that are moved along: they reach out of the lines
from `first` to `last`, and their lines share no byte with what is taken out
already.
-/
def carriedFrom (text : Text) (first last : Nat) : List Span → List Span → List Carried
  | _, [] => []
  | taken, statement :: rest =>
      let firstOwn := lineOf text statement.start
      let lastOwn := lineOf text (max (statement.stop - 1) statement.start)
      match statementLines? text statement with
      | none => carriedFrom text first last taken rest
      | some lines =>
          if (first ≤ firstOwn && lastOwn ≤ last) || taken.any (·.overlaps lines) then
            carriedFrom text first last taken rest
          else
            ⟨statement, lines⟩ :: carriedFrom text first last (taken ++ [lines]) rest

/-- The statements that are moved along with a declaration. -/
def carried (layout : Layout) (declaration : Declaration) : List Carried :=
  let (first, last) := declarationLines layout declaration
  carriedFrom layout.text first last (linesSpan? layout.text first last).toList
    (Description.statements layout.text declaration.spelling)

/-- What is cut out for descriptions are the lines of the statements that are moved along. -/
theorem foldl_cutDescription
    (text : Text)
    (first last : Nat)
    (cuts : Cuts)
    (statements : List Span) :
    statements.foldl (cutDescription text first last) cuts =
      ⟨cuts.deletions ++
          (carriedFrom text first last cuts.deletions statements).map (·.lines),
        cuts.descriptions ++
          (carriedFrom text first last cuts.deletions statements).map
            fun carried => trim (slice carried.statement text)⟩ := by
  induction statements generalizing cuts with
  | nil =>
      simp [carriedFrom]
  | cons statement rest inductionHypothesis =>
      rw [List.foldl_cons, inductionHypothesis]
      simp only [cutDescription, carriedFrom, statementLines?]
      cases linesSpan? text (lineOf text statement.start)
          (lineOf text (max (statement.stop - 1) statement.start)) with
      | none =>
          rfl
      | some lines =>
          simp only
          split
          · rfl
          · simp

/-- A statement that is moved along is one of those given, with its lines. -/
theorem of_mem_carriedFrom
    {text : Text}
    {first last : Nat}
    {taken statements : List Span}
    {carried : Carried}
    (member : carried ∈ carriedFrom text first last taken statements) :
    carried.statement ∈ statements ∧
      statementLines? text carried.statement = some carried.lines := by
  induction statements generalizing taken with
  | nil =>
      cases member
  | cons statement rest inductionHypothesis =>
      have later {taken : List Span} (inRest : carried ∈ carriedFrom text first last taken rest) :
          carried.statement ∈ statement :: rest ∧
            statementLines? text carried.statement = some carried.lines := by
        obtain ⟨isStatement, isLines⟩ := inductionHypothesis inRest
        exact ⟨List.mem_cons_of_mem _ isStatement, isLines⟩
      rw [carriedFrom] at member
      cases found : statementLines? text statement with
      | none =>
          simp only [found] at member
          exact later member
      | some lines =>
          simp only [found] at member
          split at member
          · exact later member
          · rcases List.mem_cons.mp member with isFirst | inRest
            · rw [isFirst]
              exact ⟨List.mem_cons_self, found⟩
            · exact later inRest

/-- The lines of a statement show what stands beside it and the statement. -/
theorem visible_carried
    {text name : Text}
    {carried : Carried}
    (isStatement : carried.statement ∈ Description.statements text name)
    (isLines : statementLines? text carried.statement = some carried.lines) :
    visible (slice carried.lines text) =
      visible (slice ⟨carried.lines.start, carried.statement.start⟩ text) ++
        (visible (slice carried.statement text) ++
          visible (slice ⟨carried.statement.stop, carried.lines.stop⟩ text)) := by
  obtain ⟨found, isMatch, isSpan⟩ := List.mem_map.mp (List.mem_filter.mp isStatement).1
  obtain ⟨front, rest, length, whole, -, span⟩ := exists_of_mem_findMatches isMatch
  have shape : text = front ++ (rest.take length ++ rest.drop length) := by
    rw [List.take_append_drop]
    exact whole
  have isPiece :
      carried.statement = ⟨byteLength front, byteLength (front ++ rest.take length)⟩ := by
    rw [← isSpan, span, byteLength_append]
  have middle : slice carried.statement text = rest.take length := by
    rw [isPiece]
    exact slice_eq shape rfl (byteLength_append _ _)
  rw [middle]
  rw [statementLines?, isPiece] at isLines
  rw [isPiece]
  exact visible_lines shape isLines

theorem Carried.standsAlone_iff
    {text : Text}
    {carried : Carried} :
    carried.standsAlone text = true ↔
      visible (slice ⟨carried.lines.start, carried.statement.start⟩ text) = [] ∧
        visible (slice ⟨carried.statement.stop, carried.lines.stop⟩ text) = [] := by
  simp only [standsAlone, Bool.and_eq_true, List.all_eq_true, visible_eq_nil_iff]

end Move

section

variable {items : List α} {part whole before after : α → List β}

theorem length_flatMap_le
    (shape : ∀ item ∈ items, whole item = before item ++ (part item ++ after item)) :
    (items.flatMap part).length ≤ (items.flatMap whole).length := by
  induction items with
  | nil =>
      exact Nat.le_refl _
  | cons item rest inductionHypothesis =>
      have here := congrArg List.length (shape item List.mem_cons_self)
      have later := inductionHypothesis fun other member =>
        shape other (List.mem_cons_of_mem _ member)
      simp only [List.flatMap_cons, List.length_append] at here ⊢
      omega

/-- Parts put together make up the wholes exactly if there is nothing beside the parts. -/
theorem flatMap_eq_iff
    (shape : ∀ item ∈ items, whole item = before item ++ (part item ++ after item)) :
    items.flatMap part = items.flatMap whole ↔
      ∀ item ∈ items, before item = [] ∧ after item = [] := by
  induction items with
  | nil =>
      simp
  | cons item rest inductionHypothesis =>
      have here := shape item List.mem_cons_self
      have restShape : ∀ other ∈ rest, whole other = before other ++ (part other ++ after other) :=
        fun other member => shape other (List.mem_cons_of_mem _ member)
      rw [List.flatMap_cons, List.flatMap_cons, List.forall_mem_cons,
        ← inductionHypothesis restShape]
      constructor
      · intro same
        -- The wholes are nowhere shorter, so that nothing is left for what is beside this part.
        have later := length_flatMap_le restShape
        have size := congrArg List.length same
        rw [here] at size
        simp only [List.length_append] at size
        have nothingBefore : before item = [] := List.length_eq_zero_iff.mp (by omega)
        have nothingAfter : after item = [] := List.length_eq_zero_iff.mp (by omega)
        refine ⟨⟨nothingBefore, nothingAfter⟩, ?_⟩
        rw [here, nothingBefore, nothingAfter, List.nil_append, List.append_nil,
          List.append_cancel_left_eq] at same
        exact same
      · rintro ⟨⟨nothingBefore, nothingAfter⟩, same⟩
        rw [here, nothingBefore, nothingAfter, same, List.nil_append, List.append_nil]

end

namespace Move

open Text

/-- What a move that succeeds has found and what it answers. -/
theorem exists_cuts_of_changes
    {sourceUri destinationUri : Uri}
    {sourceText name destinationText : Text}
    {moved : Changes}
    (succeeds :
      changes sourceUri sourceText name destinationUri destinationText = .ok moved) :
    sourceUri ≠ destinationUri ∧
      ∃ declaration cuts gap,
        Declaration.find? (Declaration.parse sourceText) name = some declaration ∧
          cuts? (.of sourceText) declaration = some cuts ∧
            visible gap = [] ∧
              moved =
                [(sourceUri, cuts.deletions.map fun span => ⟨rangeOf sourceText span, []⟩),
                  (destinationUri,
                    [⟨rangeOf destinationText
                        ⟨byteLength destinationText, byteLength destinationText⟩,
                      gap ++ movedText sourceText cuts ++ ['\n']⟩])] := by
  rw [changes] at succeeds
  split at succeeds
  · cases succeeds
  case isFalse different =>
    refine ⟨by simpa using different, ?_⟩
    simp only at succeeds
    cases found :
        (Declaration.find? (Layout.of sourceText).declarations name).bind
          (cuts? (Layout.of sourceText)) with
    | none =>
        rw [found] at succeeds
        cases succeeds
    | some cuts =>
        obtain ⟨declaration, isDeclaration, isCuts⟩ := Option.bind_eq_some_iff.mp found
        rw [found] at succeeds
        have shape := Except.ok.inj succeeds
        refine ⟨declaration, cuts, _, isDeclaration, isCuts, ?_, shape.symm⟩
        split
        · rfl
        · decide

/-- What is cut out are the lines of the declaration and of the statements moved along. -/
theorem of_cuts?_eq_some
    {text : Text}
    {declaration : Declaration}
    {cuts : Cuts}
    (found : cuts? (.of text) declaration = some cuts) :
    ∃ own,
      spanOf? text (rangeOf text own) = some own ∧
        cuts =
          ⟨own :: (carried (.of text) declaration).map (·.lines),
            (carried (.of text) declaration).map fun carried =>
              trim (slice carried.statement text)⟩ := by
  simp only [cuts?, Option.bind_eq_bind, Option.bind_eq_some_iff, Option.some.injEq] at found
  obtain ⟨own, isOwn, rfl⟩ := found
  refine ⟨own, spanOf?_linesSpan isOwn, ?_⟩
  rw [foldl_cutDescription, carried]
  simp only [isOwn, Option.toList_some]
  rfl

/--
A move deletes the lines of the declaration and those of the statements moved
along. It loses no visible character exactly if each of these statements stands
alone on its lines.
-/
theorem changes_keep_text_iff
    {sourceUri destinationUri : Uri}
    {sourceText name destinationText : Text}
    {moved : Changes}
    (succeeds :
      changes sourceUri sourceText name destinationUri destinationText = .ok moved) :
    ∃ declaration deletions insertion deleted,
      Declaration.find? (Declaration.parse sourceText) name = some declaration ∧
        moved = [(sourceUri, deletions), (destinationUri, [insertion])] ∧
          (∀ edit ∈ deletions, edit.newText = []) ∧
            deletions.mapM (fun edit => textIn? sourceText edit.range) = some deleted ∧
              (visible insertion.newText = deleted.flatMap visible ↔
                ∀ statement ∈ carried (.of sourceText) declaration,
                  statement.standsAlone sourceText = true) := by
  obtain ⟨-, declaration, cuts, gap, isDeclaration, isCuts, blankGap, isMoved⟩ :=
    exists_cuts_of_changes succeeds
  obtain ⟨own, ownNamed, rfl⟩ := of_cuts?_eq_some isCuts
  have isCarried : ∀ statement ∈ carried (.of sourceText) declaration,
      statement.statement ∈ Description.statements sourceText declaration.spelling ∧
        statementLines? sourceText statement.statement = some statement.lines :=
    fun statement member => of_mem_carriedFrom member
  refine ⟨declaration, _, _,
    (own :: (carried (.of sourceText) declaration).map (·.lines)).map (slice · sourceText),
    isDeclaration, isMoved, ?_, ?_, ?_⟩
  · intro edit member
    obtain ⟨span, -, rfl⟩ := List.mem_map.mp member
    rfl
  · apply mapM_map_eq_some
    intro span member
    have named : spanOf? sourceText (rangeOf sourceText span) = some span := by
      rcases List.mem_cons.mp member with isOwn | isLines
      · rw [isOwn]
        exact ownNamed
      · obtain ⟨statement, inCarried, rfl⟩ := List.mem_map.mp isLines
        exact spanOf?_linesSpan (isCarried statement inCarried).2
    rw [textIn?, named]
    rfl
  · have separator : visible "\n\n".toList = [] := by decide
    have ending : visible ['\n'] = [] := by decide
    simp only [movedText, visible_append, blankGap, ending, visible_flatMap, List.flatMap_map,
      visible_trim, separator, List.head?_cons, Option.map_some, Option.getD_some,
      List.nil_append, List.append_nil, List.map_cons, List.map_map, List.flatMap_cons,
      List.append_cancel_left_eq, Function.comp_def]
    rw [flatMap_eq_iff fun statement member =>
      visible_carried (isCarried statement member).1 (isCarried statement member).2]
    simp only [Carried.standsAlone_iff]

/-- Statements that stand alone, one over two lines and without a semicolon. -/
private def describedTwice : Text :=
  ("-- adds one\ncreate function f(x int) as 'y';\r\n" ++
    "comment on function f(int)\r\n  is 'one'\n \n" ++
      "select 1;\n  comment on function f is \"two\" ; \n").toList

theorem changes_keep_text_iff_describedTwice :
    ∃ deletions insertion deleted,
      changes (.ofFilePath ["a.sql".toList]) describedTwice "F".toList
            (.ofFilePath ["b.sql".toList]) "select 2;".toList =
          .ok
            [(.ofFilePath ["a.sql".toList], deletions),
              (.ofFilePath ["b.sql".toList], [insertion])] ∧
        deletions.length = 3 ∧
          deletions.mapM (fun edit => textIn? describedTwice edit.range) = some deleted ∧
            visible insertion.newText = deleted.flatMap visible := by
  have succeeds :
      (changes (.ofFilePath ["a.sql".toList]) describedTwice "F".toList
          (.ofFilePath ["b.sql".toList]) "select 2;".toList).toOption.any
        (fun moved => moved.map (·.2.length) == [3, 1]) = true := by
    decide +kernel
  have alone :
      (Declaration.find? (Declaration.parse describedTwice) "F".toList).all (fun declaration =>
        (carried (.of describedTwice) declaration).all (·.standsAlone describedTwice)) = true := by
    decide +kernel
  cases isMoved :
      changes (.ofFilePath ["a.sql".toList]) describedTwice "F".toList
        (.ofFilePath ["b.sql".toList]) "select 2;".toList with
  | error reason =>
      rw [isMoved] at succeeds
      cases succeeds
  | ok moved =>
      obtain ⟨declaration, deletions, insertion, deleted, isDeclaration, rfl, -, isDeleted,
        keeps⟩ := changes_keep_text_iff isMoved
      rw [isDeclaration, Option.all_some, List.all_eq_true] at alone
      rw [isMoved] at succeeds
      refine ⟨deletions, insertion, deleted, rfl, ?_, isDeleted, keeps.mpr alone⟩
      simpa [Except.toOption] using succeeds

/-- A description with a doubled quote, of which the search sees only the first half. -/
private def quoteInside : Text :=
  "create function f() as 'x';\ncomment on function f() is 'it''s';\n".toList

/-- A move takes out the lines of such a description and brings only their beginning along. -/
theorem changes_lose_text :
    ∃ deletions insertion deleted,
      changes (.ofFilePath ["a.sql".toList]) quoteInside "f".toList
            (.ofFilePath ["b.sql".toList]) [] =
          .ok
            [(.ofFilePath ["a.sql".toList], deletions),
              (.ofFilePath ["b.sql".toList], [insertion])] ∧
        deletions.mapM (fun edit => textIn? quoteInside edit.range) = some deleted ∧
          visible insertion.newText ++ "'s';".toList = deleted.flatMap visible := by
  refine ⟨[⟨⟨⟨0, 0⟩, ⟨0, 27⟩⟩, []⟩, ⟨⟨⟨1, 0⟩, ⟨1, 35⟩⟩, []⟩],
    ⟨⟨⟨0, 0⟩, ⟨0, 0⟩⟩,
      "create function f() as 'x';\n\ncomment on function f() is 'it'\n".toList⟩,
    ["create function f() as 'x';".toList, "comment on function f() is 'it''s';".toList],
    ?_, ?_, ?_⟩
  · decide +kernel
  · decide +kernel
  · decide +kernel

end Move

end RoutineServer
