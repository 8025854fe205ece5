import RoutineServer.Proofs.Command.MovedText
import RoutineServer.Proofs.Service.References
import RoutineServer.Proofs.Service.RenameRanges
import RoutineServer.Proofs.Service.RenameScope

namespace RoutineServer

/-!
# The edits of a move

A move changes two documents. In the source it takes out runs of whole lines
that share no byte, the first of them around the start of the declaration, and
in the destination it inserts at the end.

The lines of the declaration reach from the comments above it to the end of the
first declaration on its line, or further, so its start lies on them. A
statement that describes it starts with a letter. So no run is empty, and the
edits can be applied together, whatever the order in which they were found.
-/

namespace Span

/-- Spans that share no byte. -/
def Apart (first second : Span) : Prop :=
  first.stop ≤ second.start ∨ second.stop ≤ first.start

theorem apart_of_overlaps_eq_false
    {first second : Span}
    (separate : first.overlaps second = false) :
    first.Apart second := by
  simp only [overlaps, Bool.and_eq_false_iff, decide_eq_false_iff_not, Nat.not_lt] at separate
  exact separate.symm

end Span

theorem Position.Precedes.asymm
    {first second : Position}
    (precedes : first.Precedes second) :
    ¬ second.Precedes first := by
  simp only [Precedes] at precedes ⊢
  omega

namespace Text

/-- Behind the last line there is no newline. -/
theorem IsLine.final_eq
    {text above line final : Text}
    {number : Nat}
    (isLine : IsLine text number above line final)
    (last : text.count '\n' = number) :
    final = [] ∨ final = ['\r'] := by
  have counted := congrArg (List.count '\n') isLine.whole
  rw [last, List.count_append, List.count_append, isLine.numbered] at counted
  have nothing : final.count '\n' = 0 := by omega
  cases isLine.ends with
  | returnNewline => simp at nothing
  | newline => simp at nothing
  | finalReturn => exact .inr rfl
  | finish => exact .inl rfl

/-- A run of whole lines, from the start of one to the end of another without its terminator. -/
inductive WholeLines (text : Text) : Span → Prop where
  | run
      {first last : Nat}
      {above top behind lead bottom below : Text} :
      IsLine text first above top behind →
      IsLine text last lead bottom below →
      first ≤ last →
      WholeLines text ⟨byteLength above, byteLength (lead ++ bottom)⟩

/-- A letter of ASCII stands at an offset. -/
def LetterAt (text : Text) (offset : Nat) : Prop :=
  ∃ front char back,
    text = front ++ char :: back ∧ byteLength front = offset ∧ char.isAlpha = true

namespace LetterAt

variable {text : Text} {offset : Nat}

/-- A letter belongs to no terminator, so it stands in front of the end of its line. -/
theorem lt_lineStop
    (letter : LetterAt text offset) :
    offset < lineStop text (lineOf text offset) := by
  obtain ⟨front, char, back, whole, rfl, isLetter⟩ := letter
  have noReturn : char ≠ '\r' := by
    rintro rfl
    cases isLetter
  have noNewline : char ≠ '\n' := by
    rintro rfl
    cases isLetter
  have shape : text = (front ++ [char]) ++ back := by
    rw [whole, List.append_assoc]
    rfl
  have settles : settled (front ++ [char]) back := by
    intro returns
    rw [List.getLast?_concat, Option.some.injEq] at returns
    exact absurd returns noReturn
  have sameLine :
      lineOf text (byteLength (front ++ [char])) = lineOf text (byteLength front) := by
    rw [lineOf_eq_count, lineOf_eq_count, before_eq shape rfl, before_eq whole rfl,
      List.count_append, List.count_singleton, beq_false_of_ne noNewline]
    rfl
  have ends := le_lineStop_lineOf shape settles
  rw [sameLine, byteLength_append] at ends
  have size : 0 < byteLength [char] := by
    simpa using char.utf8Size_pos
  omega

theorem lineStart_le
    (letter : LetterAt text offset) :
    lineStart text (lineOf text offset) ≤ offset := by
  obtain ⟨front, char, back, whole, rfl, -⟩ := letter
  exact lineStart_lineOf_le whole

theorem lineOf_lt
    (letter : LetterAt text offset) :
    lineOf text offset < lineCount text := by
  obtain ⟨front, char, back, whole, rfl, -⟩ := letter
  exact lineOf_lt_lineCount whole rfl

end LetterAt

end Text

open Text in
/-- Edits of ranges that share no byte are valid in any order. -/
theorem TextEdit.applyAll?_of_apart
    {text : Text}
    {spans : List Span}
    (named : ∀ span ∈ spans, spanOf? text (rangeOf text span) = some span)
    (nonempty : ∀ span ∈ spans, span.start < span.stop)
    (apart : spans.Pairwise Span.Apart)
    (replacement : Text) :
    applyAll? text (spans.map fun span => ⟨rangeOf text span, replacement⟩) =
      some (replaceSpans text (spans.mergeSort (·.start ≤ ·.start)) replacement) := by
  have resolved :
      (spans.map fun span => (⟨rangeOf text span, replacement⟩ : TextEdit)).mapM
          (fun edit => (spanOf? text edit.range).map (·, edit.newText)) =
        some (spans.map (·, replacement)) := by
    apply mapM_map_eq_some
    intro span member
    rw [named span member]
    rfl
  have sorted :
      (spans.map (·, replacement)).mergeSort (·.1.start ≤ ·.1.start) =
        (spans.mergeSort (·.start ≤ ·.start)).map (·, replacement) :=
    (@List.map_mergeSort _ _ (·.start ≤ ·.start) (·.1.start ≤ ·.1.start) (·, replacement) spans
      fun _ _ _ _ => rfl).symm
  have ordered :=
    (separate_mergeSort nonempty apart).inOrderFrom (fun _ _ => Nat.zero_le _) replacement
  simp only [applyAll?, resolved, sorted, ordered, Option.bind_eq_bind, Option.bind_some,
    ↓reduceIte, replaceSpans]

open Text in
/-- An edit of an empty range inserts its text. -/
theorem TextEdit.applyAll?_insertion
    {text front back : Text}
    {position : Position}
    (whole : text = front ++ back)
    (named : offsetOf? text position = some (byteLength front))
    (newText : Text) :
    applyAll? text [⟨⟨position, position⟩, newText⟩] = some (front ++ (newText ++ back)) := by
  have resolved :
      spanOf? text ⟨position, position⟩ = some ⟨byteLength front, byteLength front⟩ := by
    simp only [spanOf?, named]
    rfl
  have inFront : slice ⟨0, byteLength front⟩ text = front :=
    @slice_eq text [] front back 0 (byteLength front) whole rfl (Nat.zero_add _).symm
  have behind : after (byteLength front) text = back := after_eq whole rfl
  simp [applyAll?, resolved, inOrderFrom, spliceFrom, inFront, behind]

/-- A declaration starts with the first letter of its anchor. -/
theorem Declaration.letterAt_start
    {text : Text}
    {declaration : Declaration}
    (declared : declaration ∈ parse text) :
    Text.LetterAt text declaration.start := by
  obtain ⟨segment, isSegment, isStart⟩ :=
    Segment.startsAt_maskedText_iff.mp (placed_of_mem_parse declared).anchored
  obtain ⟨front, back, anchor, shape, start, found, -⟩ := Segment.exists_anchor_of_mem isSegment
  obtain ⟨-, first, inner, rest, shown, -, words⟩ := Anchor.at?_eq_some found
  obtain ⟨glyph, others, rfl, isFirst, -⟩ := List.map_eq_cons_iff.mp shown
  have isLetter : first.isAlpha = true := Text.isAlpha_of_sameFolded (by decide) words.starts
  have isChar : glyph.char = first := by
    rw [Glyph.shown] at isFirst
    split at isFirst
    · exact isFirst
    · rw [← isFirst] at isLetter
      cases isLetter
  refine ⟨Glyph.chars front, glyph.char, Glyph.chars others, ?_, ?_, ?_⟩
  · rw [← Glyph.chars_scan text, shape]
    simp [Glyph.chars]
  · rw [← isStart, start, Nat.zero_add]
    rfl
  · rw [isChar]
    exact isLetter

/-- A statement that describes a routine starts with the first letter of `comment`. -/
theorem Description.letterAt_start
    {text name : Text}
    {statement : Span}
    (isStatement : statement ∈ statements text name) :
    Text.LetterAt text statement.start := by
  obtain ⟨found, isMatch, rfl⟩ := List.mem_map.mp (List.mem_filter.mp isStatement).1
  obtain ⟨front, rest, length, whole, matched, span⟩ := Text.exists_of_mem_findMatches isMatch
  obtain ⟨⟨_, _⟩, quoted, -⟩ := Option.map_eq_some_iff.mp matched
  obtain ⟨tail, isTail, -⟩ := List.exists_of_findSome?_eq_some quoted
  have opened : afterWord "comment".toList rest ≠ [] := by
    intro nothing
    delta afterHead at isTail
    simp only [nothing, List.flatMap_nil, List.not_mem_nil] at isTail
  obtain ⟨following, isFollowing⟩ := List.exists_mem_of_ne_nil _ opened
  rw [afterWord, Option.mem_toList] at isFollowing
  obtain ⟨spelling, rfl, spelled⟩ := Text.dropFolded?_eq_some_iff.mp isFollowing
  have letters := spelled.isAlpha (by decide)
  obtain ⟨char, more, rfl⟩ := List.exists_cons_of_ne_nil (spelled.ne_nil (by decide))
  exact ⟨front, char, more ++ following, whole, by rw [span], letters char List.mem_cons_self⟩

namespace Move

open Text

/-- What the span of some lines says about the first and the last of them. -/
theorem exists_places_of_linesSpan?
    {text : Text}
    {first last : Nat}
    {span : Span}
    (found : linesSpan? text first last = some span) :
    ∃ top bottom : Place text,
      top.above.length = first ∧ bottom.above.length = last ∧
        span =
          ⟨byteLength (ended top.above),
            byteLength (ended bottom.above ++ dropReturn bottom.line)⟩ := by
  simp only [linesSpan?, Option.bind_eq_bind, Option.bind_eq_some_iff, Option.some.injEq] at found
  obtain ⟨firstSpan, isFirst, lastSpan, isLast, rfl⟩ := found
  obtain ⟨top, isTop, -, rfl⟩ := exists_of_lineSpan? isFirst
  obtain ⟨bottom, isBottom, -, rfl⟩ := exists_of_lineSpan? isLast
  exact ⟨top, bottom, isTop, isBottom, rfl⟩

/-- The lines from one to another are a run of whole lines. -/
theorem wholeLines_of_linesSpan?
    {text : Text}
    {first last : Nat}
    {span : Span}
    (found : linesSpan? text first last = some span)
    (ordered : first ≤ last) :
    WholeLines text span := by
  obtain ⟨top, bottom, rfl, rfl, rfl⟩ := exists_places_of_linesSpan? found
  obtain ⟨behind, isTop⟩ := top.exists_isLine
  obtain ⟨below, isBottom⟩ := bottom.exists_isLine
  exact .run isTop isBottom ordered

/-- The lines around the line of a letter contain the letter. -/
theorem contains_of_linesSpan?
    {text : Text}
    {first last offset : Nat}
    {span : Span}
    (found : linesSpan? text first last = some span)
    (letter : LetterAt text offset)
    (starts : first ≤ lineOf text offset)
    (stops : lineOf text offset ≤ last) :
    span.contains offset = true := by
  have isSpan : span = ⟨lineStart text first, lineStop text last⟩ := by
    obtain ⟨top, bottom, rfl, rfl, rfl⟩ := exists_places_of_linesSpan? found
    rw [top.lineStart_eq, lineStop, bottom.lineStart_eq, bottom.lineText_eq, byteLength_append]
  rw [isSpan]
  simp only [Span.contains, Bool.and_eq_true, decide_eq_true_eq]
  constructor
  · calc
      lineStart text first ≤ lineStart text (lineOf text offset) := lineStart_mono starts
      _ ≤ offset := letter.lineStart_le
  · calc
      offset < lineStop text (lineOf text offset) := letter.lt_lineStop
      _ ≤ lineStop text last := lineStop_mono letter.lineOf_lt stops

/-- What belongs to a declaration starts on its line or above. -/
theorem firstLine_le
    (text : Text)
    (line : Nat) :
    firstLine text line ≤ line := by
  induction line with
  | zero =>
      exact Nat.le_refl _
  | succ line inductionHypothesis =>
      simp only [firstLine]
      split
      · exact Nat.le_succ_of_le inductionHypothesis
      · split
        · -- The block comment is opened on a line above, or the search finds nothing.
          cases opened : (List.range (line + 1)).reverse.find? fun number =>
              containsText (lineText text number) "/*".toList with
          | none =>
              exact Nat.le_succ line
          | some number =>
              have member := List.mem_of_find?_eq_some opened
              rw [List.mem_reverse, List.mem_range] at member
              exact Nat.le_of_lt member
        · exact Nat.le_refl _

end Move

namespace Layout

/-- A declaration ends on the line that it starts on or below. -/
theorem lineOf_le_endLine
    {text : Text}
    {declaration : Declaration}
    (declared : declaration ∈ Declaration.parse text) :
    Text.lineOf text declaration.start ≤
      (of text).endLine (Text.lineOf text declaration.start) := by
  rw [endLine]
  cases found : (of text).declarationOn? (Text.lineOf text declaration.start) with
  | none =>
      have nothing := List.find?_eq_none.mp found declaration declared
      simp [of] at nothing
  | some other =>
      have sameLine : Text.lineOf text other.start = Text.lineOf text declaration.start := by
        simpa [of] using List.find?_some found
      rw [← sameLine]
      exact Text.lineOf_mono (Nat.le_max_right _ _) text

end Layout

namespace Move

open Text

/-- The line of a declaration is among those that are moved for it. -/
theorem declarationLines_around
    {text : Text}
    {declaration : Declaration}
    (declared : declaration ∈ Declaration.parse text) :
    (declarationLines (.of text) declaration).1 ≤ lineOf text declaration.start ∧
      lineOf text declaration.start ≤ (declarationLines (.of text) declaration).2 := by
  have ends := Layout.lineOf_le_endLine declared
  refine ⟨firstLine_le _ _, ?_⟩
  simp only [declarationLines]
  split
  · exact Nat.le_trans ends (Nat.le_max_left _ _)
  · exact ends

/-- The lines of the statements moved along share no byte with what is taken out already. -/
theorem pairwise_carriedFrom
    {text : Text}
    {first last : Nat}
    {taken statements : List Span}
    (apart : taken.Pairwise Span.Apart) :
    (taken ++ (carriedFrom text first last taken statements).map (·.lines)).Pairwise
      Span.Apart := by
  induction statements generalizing taken with
  | nil =>
      simpa [carriedFrom] using apart
  | cons statement rest inductionHypothesis =>
      rw [carriedFrom]
      cases found : statementLines? text statement with
      | none =>
          exact inductionHypothesis apart
      | some lines =>
          simp only
          split
          case isTrue =>
            exact inductionHypothesis apart
          case isFalse kept =>
            simp only [Bool.or_eq_true, not_or, Bool.not_eq_true, List.any_eq_false] at kept
            have longer : (taken ++ [lines]).Pairwise Span.Apart := by
              refine List.pairwise_append.mpr ⟨apart, List.pairwise_singleton _ _, ?_⟩
              intro span member other isLines
              rw [List.mem_singleton.mp isLines]
              exact Span.apart_of_overlaps_eq_false (by simpa using kept.2 span member)
            simpa using inductionHypothesis longer

/-- Edits that take runs of whole lines out of a text, given by their spans. -/
structure TakesOut (text : Text) (spans : List Span) (edits : List TextEdit) : Prop where
  deletes : edits = spans.map fun span => ⟨rangeOf text span, []⟩
  whole : ∀ span ∈ spans, WholeLines text span
  apart : spans.Pairwise Span.Apart
  /-- An editor can apply the edits together. -/
  applies :
    TextEdit.applyAll? text edits =
      some (replaceSpans text (spans.mergeSort (·.start ≤ ·.start)) [])

/-- An edit that inserts at the end of a text. -/
structure InsertsAtEnd (text : Text) (edit : TextEdit) : Prop where
  range_eq : edit.range = rangeOf text ⟨byteLength text, byteLength text⟩
  last :
    ∀ offset, isBoundary offset text = true →
      ¬ edit.range.start.Precedes (positionOf text offset)
  /-- A carriage return that ends the text is the terminator of the last line. -/
  applies :
    ∃ number above line final,
      IsLine text number above line final ∧ (final = [] ∨ final = ['\r']) ∧
        TextEdit.applyAll? text [edit] = some (above ++ (line ++ (edit.newText ++ final)))

/-- Everything that is cut out for a declaration can be taken out together. -/
theorem takesOut_of_cuts?
    {text : Text}
    {declaration : Declaration}
    {cuts : Cuts}
    (declared : declaration ∈ Declaration.parse text)
    (found : cuts? (.of text) declaration = some cuts) :
    ∃ own others,
      cuts.deletions = own :: others ∧ own.contains declaration.start = true ∧
        TakesOut text (own :: others)
          ((own :: others).map fun span => ⟨rangeOf text span, []⟩) := by
  simp only [cuts?, Option.bind_eq_bind, Option.bind_eq_some_iff, Option.some.injEq] at found
  obtain ⟨own, isOwn, rfl⟩ := found
  rw [foldl_cutDescription]
  obtain ⟨starts, stops⟩ := declarationLines_around declared
  have ownLetter := Declaration.letterAt_start declared
  generalize declarationLines (.of text) declaration = lines at isOwn starts stops ⊢
  let carried := carriedFrom text lines.1 lines.2 [own]
    (Description.statements text declaration.spelling)
  -- Each span is that of the lines around a letter, so it is not empty.
  have around : ∀ span ∈ own :: carried.map (·.lines),
      ∃ first last offset,
        linesSpan? text first last = some span ∧ LetterAt text offset ∧
          first ≤ lineOf text offset ∧ lineOf text offset ≤ last := by
    intro span member
    rcases List.mem_cons.mp member with rfl | isLines
    · exact ⟨lines.1, lines.2, declaration.start, isOwn, ownLetter, starts, stops⟩
    · obtain ⟨statement, inCarried, rfl⟩ := List.mem_map.mp isLines
      obtain ⟨isStatement, found⟩ := of_mem_carriedFrom inCarried
      exact ⟨_, _, statement.statement.start, found, Description.letterAt_start isStatement,
        Nat.le_refl _, lineOf_mono (Nat.le_max_right _ _) text⟩
  have apart : (own :: carried.map (·.lines)).Pairwise Span.Apart :=
    pairwise_carriedFrom (List.pairwise_singleton _ own)
  refine ⟨own, carried.map (·.lines), rfl,
    contains_of_linesSpan? isOwn ownLetter starts stops, rfl, ?_, apart, ?_⟩
  · intro span member
    obtain ⟨first, last, offset, isLines, -, before, behind⟩ := around span member
    exact wholeLines_of_linesSpan? isLines (Nat.le_trans before behind)
  · refine TextEdit.applyAll?_of_apart ?_ ?_ apart []
    · intro span member
      obtain ⟨first, last, offset, isLines, -⟩ := around span member
      exact spanOf?_linesSpan isLines
    · intro span member
      obtain ⟨first, last, offset, isLines, letter, before, behind⟩ := around span member
      have contained := contains_of_linesSpan? isLines letter before behind
      simp only [Span.contains, Bool.and_eq_true, decide_eq_true_eq] at contained
      exact Nat.lt_of_le_of_lt contained.1 contained.2

/-- What is inserted at the position of the last offset is inserted at the end. -/
theorem insertsAtEnd
    (text newText : Text) :
    InsertsAtEnd text ⟨rangeOf text ⟨byteLength text, byteLength text⟩, newText⟩ where
  range_eq := rfl
  last := by
    intro offset boundary
    obtain ⟨front, back, whole, placed⟩ := isBoundary_iff.mp boundary
    have within : offset ≤ byteLength text := by
      rw [whole, byteLength_append, ← placed]
      exact Nat.le_add_right _ _
    rcases Nat.eq_or_lt_of_le within with rfl | inFront
    · exact Position.Precedes.irrefl _
    · have ends : isBoundary (byteLength text) text = true :=
        isBoundary_iff.mpr ⟨text, [], (List.append_nil text).symm, rfl⟩
      exact Position.Precedes.asymm (positionOf_precedes_of_lt boundary ends inFront)
  applies := by
    obtain ⟨place, isText, isNothing⟩ := Place.exists_of_append (List.append_nil text).symm
    obtain ⟨final, isLine⟩ := place.exists_isLine
    have named :
        offsetOf? text (positionOf text (byteLength text)) =
          some (byteLength (ended place.above ++ dropReturn place.line)) := by
      have found := place.offsetOf?_positionOf_eq
      rw [isText, Nat.min_eq_right] at found
      · exact found
      · have size := congrArg byteLength isLine.whole
        rw [← List.append_assoc, byteLength_append _ final] at size
        exact Nat.le.intro size.symm
    refine ⟨_, _, _, final, isLine, isLine.final_eq ?_, ?_⟩
    · rw [← place.count_front, isText]
    · have whole := isLine.whole
      rw [← List.append_assoc] at whole
      rw [← List.append_assoc]
      exact TextEdit.applyAll?_insertion whole named newText

/--
A move that succeeds changes the source and the destination. It takes whole
lines out of the source, first of all those around the start of the declaration,
and inserts at the end of the destination.
-/
theorem changes_well_formed
    {sourceUri destinationUri : Uri}
    {sourceText name destinationText : Text}
    {moved : Changes}
    (succeeds :
      changes sourceUri sourceText name destinationUri destinationText = .ok moved) :
    ∃ declaration own others deletions insertion,
      Declaration.find? (Declaration.parse sourceText) name = some declaration ∧
        sourceUri ≠ destinationUri ∧
          moved = [(sourceUri, deletions), (destinationUri, [insertion])] ∧
            TakesOut sourceText (own :: others) deletions ∧
              own.contains declaration.start = true ∧
                InsertsAtEnd destinationText insertion := by
  obtain ⟨different, declaration, cuts, gap, isDeclaration, isCuts, -, isMoved⟩ :=
    exists_cuts_of_changes succeeds
  have declared : declaration ∈ Declaration.parse sourceText :=
    List.mem_of_find?_eq_some isDeclaration
  obtain ⟨own, others, isDeletions, contained, takesOut⟩ := takesOut_of_cuts? declared isCuts
  rw [isDeletions] at isMoved
  exact ⟨declaration, own, others, _, _, isDeclaration, different, isMoved, takesOut, contained,
    insertsAtEnd _ _⟩

/--
A declaration with comments above it and a body behind it, and three statements
about it, two of which share a line.
-/
private def annotated : Text :=
  ("select 0;\n/* adds\n one */\n\n-- first\n" ++
    "create function f() as $$\nx$$; select 1;\r\n" ++
      "comment on function f is 'a\r\nb';comment on function f is 'c';\n" ++
        "\tcomment on function F() is 'd'\r").toList

theorem changes_well_formed_annotated :
    ∃ declaration own others deletions insertion,
      changes (.ofFilePath ["a.sql".toList]) annotated "F".toList
            (.ofFilePath ["b.sql".toList]) "select 2;\r".toList =
          .ok
            [(.ofFilePath ["a.sql".toList], deletions),
              (.ofFilePath ["b.sql".toList], [insertion])] ∧
        deletions.length = 3 ∧
          Declaration.find? (Declaration.parse annotated) "F".toList = some declaration ∧
            TakesOut annotated (own :: others) deletions ∧
              own.contains declaration.start = true ∧
                InsertsAtEnd "select 2;\r".toList insertion := by
  have succeeds :
      (changes (.ofFilePath ["a.sql".toList]) annotated "F".toList
          (.ofFilePath ["b.sql".toList]) "select 2;\r".toList).toOption.any
        (fun moved => moved.map (·.2.length) == [3, 1]) = true := by
    decide +kernel
  cases isMoved :
      changes (.ofFilePath ["a.sql".toList]) annotated "F".toList
        (.ofFilePath ["b.sql".toList]) "select 2;\r".toList with
  | error reason =>
      rw [isMoved] at succeeds
      cases succeeds
  | ok moved =>
      obtain ⟨declaration, own, others, deletions, insertion, isDeclaration, -, rfl, takesOut,
        contained, inserts⟩ := changes_well_formed isMoved
      rw [isMoved] at succeeds
      refine ⟨declaration, own, others, deletions, insertion, rfl, ?_, isDeclaration, takesOut,
        contained, inserts⟩
      simpa [Except.toOption] using succeeds

end Move

end RoutineServer
