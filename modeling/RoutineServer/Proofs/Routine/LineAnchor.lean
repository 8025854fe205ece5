import RoutineServer.Proofs.Routine.Site
import RoutineServer.Proofs.Text.Position
import RoutineServer.Routine.Layout

namespace RoutineServer

/-!
# Anchors on lines

The layout of a document looks for anchors line by line. An anchor is seen on a
line exactly if it is an anchor of the document and lies on the line from its
first word to its last: what stands on other lines can neither make an anchor
nor unmake one, because a word ends where a line does. An anchor whose words
are spread over several lines is seen on none.
-/

namespace Glyph

theorem shown_eq_newline_iff
    {glyph : Glyph} :
    glyph.shown = '\n' ↔ glyph.char = '\n' := by
  simp only [shown]
  split
  case isTrue => rfl
  case isFalse hidden =>
    have other : glyph.char ≠ '\n' := by
      intro newline
      simp [newline] at hidden
    constructor
    · intro blank
      exact absurd blank (by decide)
    · intro newline
      exact absurd newline other

/-- The mask has the newlines of the text. -/
theorem count_code
    (glyphs : List Glyph) :
    (code glyphs).count '\n' = (chars glyphs).count '\n' := by
  induction glyphs with
  | nil =>
      rfl
  | cons glyph rest inductionHypothesis =>
      simp only [code_cons, chars_cons, List.count_cons, inductionHypothesis, beq_iff_eq,
        shown_eq_newline_iff]

theorem newline_mem_code_iff
    {glyphs : List Glyph} :
    '\n' ∈ code glyphs ↔ '\n' ∈ chars glyphs := by
  rw [← List.count_pos_iff, ← List.count_pos_iff, count_code]

theorem code_getLast?
    {glyphs : List Glyph}
    (ends : chars glyphs = [] ∨ (chars glyphs).getLast? = some '\n') :
    code glyphs = [] ∨ (code glyphs).getLast? = some '\n' := by
  simp only [chars, code, List.map_eq_nil_iff, List.getLast?_map, Option.map_eq_some_iff,
    shown_eq_newline_iff] at ends ⊢
  exact ends

theorem code_head?
    {glyphs : List Glyph}
    (starts : chars glyphs = [] ∨ (chars glyphs).head? = some '\n') :
    code glyphs = [] ∨ (code glyphs).head? = some '\n' := by
  simp only [chars, code, List.map_eq_nil_iff, List.head?_map, Option.map_eq_some_iff,
    shown_eq_newline_iff] at starts ⊢
  exact starts

/-- The mask of something that is no word character is none either. -/
theorem isWordChar_shown
    {glyph : Glyph}
    (other : isWordChar glyph.char = false) :
    isWordChar glyph.shown = false := by
  simp only [shown]
  split
  · exact other
  · decide

end Glyph

/-- The line of a place behind some glyphs. -/
theorem Text.lineOf_glyphs
    {text : Text}
    {front back : List Glyph}
    {offset : Nat}
    (whole : scan text = front ++ back)
    (placed : offset = Glyph.byteLength front) :
    Text.lineOf text offset = (Glyph.chars front).count '\n' := by
  have shape : text = Glyph.chars front ++ Glyph.chars back := by
    rw [← Glyph.chars_append, ← whole, Glyph.chars_scan]
  rw [Text.lineOf_eq_count, Text.before_eq shape placed]

namespace Anchor

/-- Whether an anchor lies on a line with all of its words. -/
def Match.isOnLine (text : Text) (line : Nat) (anchor : Match) : Bool :=
  Text.lineOf text anchor.start == line && Text.lineOf text anchor.stop == line

theorem distance_ne_length_iff
    {previous : Option Char}
    {code : Text} :
    distance previous code ≠ code.length ↔
      ∃ front back anchor,
        code = front ++ back ∧ at? (Text.previousAfter previous front) back = some anchor := by
  induction code generalizing previous with
  | nil =>
      constructor
      · intro different
        exact absurd rfl different
      · rintro ⟨front, back, anchor, shape, found⟩
        obtain ⟨-, first, inner, rest, backShape, -⟩ := at?_eq_some found
        rw [backShape] at shape
        simp at shape
  | cons char rest inductionHypothesis =>
      cases found : at? previous (char :: rest) with
      | some anchor =>
          simp only [distance, found, Option.isSome_some, ↓reduceIte]
          exact ⟨fun _ => ⟨[], char :: rest, anchor, rfl, found⟩, fun _ => by simp⟩
      | none =>
          have later := @inductionHypothesis (some char)
          simp only [distance, found, Option.isSome_none, Bool.false_eq_true, ↓reduceIte,
            List.length_cons, ne_eq, Nat.add_right_cancel_iff]
          rw [← ne_eq, later]
          constructor
          · rintro ⟨front, back, anchor, rfl, anchored⟩
            exact ⟨char :: front, back, anchor, rfl, by rwa [Text.previousAfter_cons]⟩
          · rintro ⟨front, back, anchor, shape, anchored⟩
            cases front with
            | nil =>
                rw [List.nil_append] at shape
                rw [← shape, Text.previousAfter_nil, found] at anchored
                cases anchored
            | cons first more =>
                obtain ⟨rfl, rfl⟩ := List.cons.inj shape
                rw [Text.previousAfter_cons] at anchored
                exact ⟨more, back, anchor, rfl, anchored⟩

theorem occursIn_iff
    {code : Text} :
    occursIn code = true ↔
      ∃ front back anchor, code = front ++ back ∧ at? front.getLast? back = some anchor := by
  rw [occursIn, bne_iff_ne, distance_ne_length_iff]
  simp only [Text.previousAfter_none]

/-- Only whether a word can start matters about what stands in front of an anchor. -/
theorem at?_congr
    {previous other : Option Char}
    (same : Text.wordStart previous = Text.wordStart other)
    (code : Text) :
    at? previous code = at? other code := by
  rw [at?_eq_rest?, at?_eq_rest?, same]

end Anchor

namespace Segment

/-- Where an anchor stands, its segment is one of the document's. -/
theorem of_mem_segmentsFrom
    {previous : Option Char}
    {front back : List Glyph}
    {anchor : Anchor}
    (offset : Nat)
    (found :
      Anchor.at? (Text.previousAfter previous (Glyph.code front)) (Glyph.code back) =
        some anchor) :
    of anchor (offset + Glyph.byteLength front) back ∈
      segmentsFrom offset previous (front ++ back) := by
  induction front generalizing offset previous with
  | nil =>
      rw [Glyph.code_nil, Text.previousAfter_nil] at found
      obtain ⟨_, _, _, _, divided, _⟩ := segmentsFrom_eq_cons offset found rfl
      rw [Glyph.byteLength_nil, Nat.add_zero, List.nil_append, divided]
      exact List.mem_cons_self
  | cons glyph rest inductionHypothesis =>
      rw [Glyph.code_cons, Text.previousAfter_cons] at found
      have later := inductionHypothesis (offset + glyph.char.utf8Size) found
      rw [Nat.add_assoc, ← Glyph.byteLength_cons] at later
      rw [List.cons_append, segmentsFrom]
      split
      · exact later
      · exact List.mem_cons_of_mem _ later

end Segment

namespace Layout

/-- The glyphs of a line without its terminator, and those above and below it. -/
structure LineCut (text : Text) (line : Nat) where
  upper : List Glyph
  content : List Glyph
  lower : List Glyph
  whole : scan text = upper ++ (content ++ lower)
  shown : (Layout.of text).codeLines[line]? = some (Glyph.code content)
  begins : Glyph.chars upper = [] ∨ (Glyph.chars upper).getLast? = some '\n'
  count_upper : (Glyph.chars upper).count '\n' = line
  single : '\n' ∉ Glyph.chars content
  /-- Up to the newline there is at most a carriage return. -/
  terminated :
    ∃ returns below,
      Glyph.chars lower = returns ++ Text.started below ∧ ∀ char ∈ returns, char = '\r'

theorem exists_lineCut
    {text : Text}
    {line : Nat}
    (within : line < Text.lineCount text) :
    Nonempty (LineCut text line) := by
  obtain ⟨place, count, start⟩ := Text.Place.exists_of_lt within
  have lineRight : place.line = place.right := by
    rw [Text.Place.line, start, List.nil_append]
  obtain ⟨returns, isLine, returned, -⟩ := Text.exists_returns place.line
  have shape :
      Glyph.chars (scan text) =
        Text.ended place.above ++
          (Text.dropReturn place.line ++ (returns ++ Text.started place.below)) := by
    rw [Glyph.chars_scan, ← List.append_assoc (Text.dropReturn _), ← isLine, lineRight]
    exact place.whole.trans (by rw [Text.Place.front, Text.Place.back, start, List.append_nil])
  obtain ⟨upper, tail, whole, upperChars, tailChars⟩ := List.map_eq_append_iff.mp shape
  obtain ⟨content, lower, rfl, contentChars, lowerChars⟩ := List.map_eq_append_iff.mp tailChars
  obtain ⟨ending, below, rfl, endingChars, belowChars⟩ := List.map_eq_append_iff.mp lowerChars
  have isUpper : Glyph.chars upper = Text.ended place.above := upperChars
  have isContent : Glyph.chars content = Text.dropReturn place.line := contentChars
  have isEnding : Glyph.chars ending = returns := endingChars
  have isBelow : Glyph.chars below = Text.started place.below := belowChars
  have begins : Glyph.chars upper = [] ∨ (Glyph.chars upper).getLast? = some '\n' := by
    rw [isUpper]
    exact Text.getLast?_ended place.above
  have countUpper : (Glyph.chars upper).count '\n' = line := by
    rw [isUpper, Text.count_ended place.newline_not_mem_above, count]
  have single : '\n' ∉ Glyph.chars (content ++ ending) := by
    rw [Glyph.chars_append, isContent, isEnding, ← isLine]
    exact place.newline_not_mem_line
  have codeLine :
      (Text.lines (Glyph.code (scan text)))[line]? = some (Glyph.code (content ++ ending)) := by
    have codeShape :
        Glyph.code (scan text) =
          Glyph.code upper ++ (Glyph.code (content ++ ending) ++ Glyph.code below) := by
      rw [whole]
      simp
    have here :=
      Text.getElem?_lines codeShape (Glyph.code_getLast? begins)
        (fun member => single (Glyph.newline_mem_code_iff.mp member))
        (Glyph.code_head? (by rw [isBelow]; exact Text.head?_started place.below))
    rwa [Glyph.count_code, countUpper] at here
  have ownLine : (Text.lines text)[line]? = some place.line := by
    rw [← count]
    exact place.getElem?_lines
  refine ⟨{
    upper := upper
    content := content
    lower := ending ++ below
    whole := whole
    shown := ?_
    begins := begins
    count_upper := countUpper
    single := ?_
    terminated := ?_
  }⟩
  · have size : (Text.dropReturn place.line).length = content.length := by
      rw [← isContent, Glyph.length_chars]
    simp only [codeLines, of, List.getElem?_zipWith, codeLine, ownLine, size]
    rw [← Glyph.code_take, List.take_left]
  · intro member
    apply single
    rw [Glyph.chars_append]
    exact List.mem_append_left _ member
  · refine ⟨returns, place.below, ?_, returned⟩
    rw [Glyph.chars_append, isEnding, isBelow]

namespace LineCut

variable {text : Text} {line : Nat}

/-- A word ends where a line does. -/
theorem wordEnd_lower
    (cut : LineCut text line) :
    Text.wordEnd (Glyph.code cut.lower) = true := by
  obtain ⟨returns, below, shape, returned⟩ := cut.terminated
  cases isLower : cut.lower with
  | nil =>
      rfl
  | cons glyph rest =>
      rw [isLower, Glyph.chars_cons, ← List.singleton_append] at shape
      have other : isWordChar glyph.char = false := by
        rcases Text.mem_returns_or_newline shape with inReturns | ⟨others, reaches⟩
        · rw [returned _ (inReturns _ (List.mem_singleton_self _))]
          decide
        · have newline : '\n' ∈ [glyph.char] := by
            rw [reaches]
            simp
          rw [← List.mem_singleton.mp newline]
          decide
      simp [Text.wordEnd, Glyph.isWordChar_shown other]

/-- What stands between a line and its newline does not end with a word. -/
theorem wordStart_of_lower
    (cut : LineCut text line)
    {front back : List Glyph}
    (shape : cut.lower = front ++ back)
    (alone : '\n' ∉ Glyph.chars front) :
    Text.wordStart (Glyph.code front).getLast? = true := by
  obtain ⟨returns, below, chars, returned⟩ := cut.terminated
  rw [shape, Glyph.chars_append] at chars
  cases isLast : front.getLast? with
  | none =>
      rw [List.getLast?_eq_none_iff.mp isLast]
      rfl
  | some glyph =>
      have member : glyph.char ∈ Glyph.chars front :=
        List.mem_map_of_mem (List.mem_of_getLast? isLast)
      have isReturn : glyph.char = '\r' := by
        rcases Text.mem_returns_or_newline chars with inReturns | ⟨others, reaches⟩
        · exact returned _ (inReturns _ member)
        · rw [reaches] at alone
          simp at alone
      have other : isWordChar glyph.char = false := by
        rw [isReturn]
        decide
      simp [Text.wordStart, Glyph.code, List.getLast?_map, isLast, Glyph.isWordChar_shown other]

/-- A word can start at the start of a line. -/
theorem wordStart_upper
    (cut : LineCut text line)
    (left : List Glyph) :
    Text.wordStart (Glyph.code left).getLast? =
      Text.wordStart (Text.previousAfter none (Glyph.code (cut.upper ++ left))) := by
  rw [Text.previousAfter_none, Glyph.code_append, List.getLast?_append]
  cases (Glyph.code left).getLast? with
  | some last =>
      rfl
  | none =>
      rcases Glyph.code_getLast? cut.begins with isEmpty | isNewline
      · rw [isEmpty]
        rfl
      · rw [isNewline]
        decide

/-- Every place in the content of a line is on the line. -/
theorem lineOf_eq
    (cut : LineCut text line)
    {left right : List Glyph}
    {offset : Nat}
    (shape : cut.content = left ++ right)
    (placed : offset = Glyph.byteLength (cut.upper ++ left)) :
    Text.lineOf text offset = line := by
  have whole : scan text = (cut.upper ++ left) ++ (right ++ cut.lower) := by
    rw [cut.whole, shape]
    simp
  have single := cut.single
  rw [shape, Glyph.chars_append, List.mem_append, not_or] at single
  rw [Text.lineOf_glyphs whole placed, Glyph.chars_append, List.count_append, cut.count_upper,
    List.count_eq_zero.mpr single.1, Nat.add_zero]

/-- What starts on a line starts behind all that is above the line. -/
theorem upper_prefix
    (cut : LineCut text line)
    {front back : List Glyph}
    (whole : scan text = front ++ back)
    (onLine : (Glyph.chars front).count '\n' = line) :
    cut.upper <+: front := by
  rcases List.append_eq_append_iff.mp (cut.whole.symm.trans whole) with
    ⟨more, isFront, -⟩ | ⟨more, isUpper, -⟩
  · exact ⟨more, isFront.symm⟩
  · -- A part of what is above lacks the newline that it ends with.
    have count := cut.count_upper
    have begins := cut.begins
    rw [isUpper, Glyph.chars_append] at count begins
    rw [List.count_append, onLine, Nat.add_eq_left, List.count_eq_zero] at count
    have nothing : Glyph.chars more = [] :=
      Text.eq_nil_of_ends_newline begins count
    have same : front = cut.upper := by
      rw [isUpper, List.map_eq_nil_iff.mp nothing, List.append_nil]
    exact ⟨[], by rw [same, List.append_nil]⟩

/-- Words that start and end on a line lie in its content. -/
theorem exists_content
    (cut : LineCut text line)
    {front words rest : List Glyph}
    (whole : scan text = front ++ (words ++ rest))
    (starts : (Glyph.chars front).count '\n' = line)
    (stops : (Glyph.chars (front ++ words)).count '\n' = line)
    (isWord : Text.wordStart (Glyph.code words).getLast? = false) :
    ∃ left right,
      front = cut.upper ++ left ∧ cut.content = left ++ (words ++ right) ∧
        rest = right ++ cut.lower := by
  obtain ⟨left, rfl⟩ := cut.upper_prefix whole starts
  have shape : cut.content ++ cut.lower = (left ++ words) ++ rest := by
    have same := cut.whole.symm.trans whole
    rw [List.append_assoc, List.append_cancel_left_eq] at same
    rw [same, List.append_assoc]
  have alone : '\n' ∉ Glyph.chars (left ++ words) := by
    have count := cut.count_upper
    rw [List.append_assoc, Glyph.chars_append, List.count_append, count, Nat.add_eq_left] at stops
    exact List.count_eq_zero.mp stops
  rcases List.append_eq_append_iff.mp shape with
    ⟨more, isWords, isLower⟩ | ⟨right, isContent, isRest⟩
  · -- The words would end behind the content of the line.
    rw [isWords, Glyph.chars_append, List.mem_append, not_or] at alone
    have noWord := cut.wordStart_of_lower isLower alone.2
    have wordsNonempty : words ≠ [] := by
      rintro rfl
      cases isWord
    by_cases nothing : more = []
    · rw [nothing] at isWords isLower
      refine ⟨left, [], rfl, ?_, by simpa using isLower.symm⟩
      simpa using isWords.symm
    · have same : more.getLast? = words.getLast? := by
        rw [← List.getLast?_append_of_ne_nil cut.content nothing, ← isWords,
          List.getLast?_append_of_ne_nil left wordsNonempty]
      rw [Glyph.code, List.getLast?_map, same, ← List.getLast?_map, ← Glyph.code, isWord] at noWord
      cases noWord
  · refine ⟨left, right, rfl, ?_, isRest⟩
    rw [isContent, List.append_assoc]

end LineCut

/-- Whether a line has an anchor. -/
def isAnchored (layout : Layout) (line : Nat) : Bool :=
  (layout.codeLines[line]?).any Anchor.occursIn

theorem lt_lineCount_of_isAnchored
    {text : Text}
    {line : Nat}
    (anchored : (Layout.of text).isAnchored line = true) :
    line < Text.lineCount text := by
  rw [isAnchored] at anchored
  cases isLine : (Layout.of text).codeLines[line]? with
  | none =>
      rw [isLine] at anchored
      cases anchored
  | some code =>
      obtain ⟨within, -⟩ := List.getElem?_eq_some_iff.mp isLine
      rw [codeLines, List.length_zipWith] at within
      exact Nat.lt_of_lt_of_le within (Nat.min_le_right _ _)

/-- An anchor seen on a line is an anchor of the document. -/
theorem exists_segment_of_isAnchored
    {text : Text}
    {line : Nat}
    (anchored : (Layout.of text).isAnchored line = true) :
    ∃ segment ∈ Segment.segments text,
      Text.lineOf text segment.start = line ∧ Text.lineOf text segment.regionStart = line := by
  obtain ⟨cut⟩ := exists_lineCut (lt_lineCount_of_isAnchored anchored)
  rw [isAnchored, cut.shown, Option.any_some, Anchor.occursIn_iff] at anchored
  obtain ⟨frontCode, backCode, anchor, split, found⟩ := anchored
  obtain ⟨left, right, isContent, rfl, rfl⟩ := List.map_eq_append_iff.mp split
  obtain ⟨continued, within⟩ := (Anchor.at?_append_iff cut.wordEnd_lower).mp found
  have whole : scan text = (cut.upper ++ left) ++ (right ++ cut.lower) := by
    rw [cut.whole, isContent]
    simp
  have found :
      Anchor.at? (Text.previousAfter none (Glyph.code (cut.upper ++ left)))
          (Glyph.code (right ++ cut.lower)) =
        some anchor := by
    rw [← Anchor.at?_congr (cut.wordStart_upper left), Glyph.code_append]
    exact continued
  have member := Segment.of_mem_segmentsFrom 0 found
  rw [← whole] at member
  refine ⟨_, member, cut.lineOf_eq isContent (Nat.zero_add _), ?_⟩
  have words : (right ++ cut.lower).take anchor.length = right.take anchor.length := by
    rw [List.length_map] at within
    exact List.take_append_of_le_length within
  have split :
      cut.content = (left ++ right.take anchor.length) ++ right.drop anchor.length := by
    rw [List.append_assoc, List.take_append_drop, isContent]
  apply cut.lineOf_eq split
  simp [Segment.regionStart, Segment.of, words, Nat.add_assoc]

/-- An anchor of the document is seen on the line that it lies on. -/
theorem isAnchored_of_segment
    {text : Text}
    {line : Nat}
    {segment : Segment}
    (member : segment ∈ Segment.segments text)
    (starts : Text.lineOf text segment.start = line)
    (stops : Text.lineOf text segment.regionStart = line) :
    (Layout.of text).isAnchored line = true := by
  obtain ⟨front, back, anchor, shape, start, found, isSegment⟩ :=
    Segment.exists_anchor_of_mem member
  rw [Nat.zero_add] at start
  have isWords : segment.words = back.take anchor.length := by
    rw [← isSegment]
    rfl
  have whole : scan text = front ++ (segment.words ++ back.drop anchor.length) := by
    rw [isWords, List.take_append_drop, shape]
  have regionStart : segment.regionStart = Glyph.byteLength (front ++ segment.words) := by
    rw [Segment.regionStart, start, Glyph.byteLength_append]
  have wholeAgain : scan text = (front ++ segment.words) ++ back.drop anchor.length := by
    rw [whole, List.append_assoc]
  have within : line < Text.lineCount text := by
    have text_eq : text = Glyph.chars front ++ Glyph.chars back := by
      rw [← Glyph.chars_append, ← shape, Glyph.chars_scan]
    rw [← starts]
    exact Text.lineOf_lt_lineCount text_eq start
  rw [Text.lineOf_glyphs shape start] at starts
  rw [Text.lineOf_glyphs wholeAgain regionStart] at stops
  have isWord : Text.wordStart (Glyph.code segment.words).getLast? = false := by
    rw [isWords, Glyph.code_take]
    exact Anchor.wordStart_take_length found
  obtain ⟨cut⟩ := exists_lineCut within
  obtain ⟨left, right, isFront, isContent, isRest⟩ := cut.exists_content whole starts stops isWord
  rw [isAnchored, cut.shown, Option.any_some, Anchor.occursIn_iff]
  refine ⟨Glyph.code left, Glyph.code (segment.words ++ right), anchor, ?_, ?_⟩
  · rw [isContent, Glyph.code_append]
  · apply (Anchor.at?_append_iff cut.wordEnd_lower).mpr
    constructor
    · have again : (segment.words ++ right) ++ cut.lower = back := by
        rw [List.append_assoc, ← isRest, isWords, List.take_append_drop]
      rw [← Glyph.code_append, again, Anchor.at?_congr (cut.wordStart_upper left), ← isFront]
      exact found
    · obtain ⟨_, _, _, wordsLength, _⟩ := Segment.segmentsFrom_eq_cons segment.start found isSegment
      rw [Glyph.length_code, List.length_append, wordsLength]
      exact Nat.le_add_right _ _

/-- A line has an anchor exactly if one of the document's lies on it. -/
theorem isAnchored_iff
    {text : Text}
    {line : Nat} :
    (Layout.of text).isAnchored line = true ↔
      ∃ anchor ∈ Anchor.allMatches (maskedText text), anchor.isOnLine text line = true := by
  simp only [Segment.allMatches_maskedText, List.mem_map, exists_exists_and_eq_and, Segment.anchor,
    Anchor.Match.isOnLine, Bool.and_eq_true, beq_iff_eq]
  constructor
  · exact exists_segment_of_isAnchored
  · rintro ⟨segment, member, starts, stops⟩
    exact isAnchored_of_segment member starts stops

/-- From below, the next line either has an anchor or is passed over. -/
private theorem firstLine?_take_succ
    (layout : Layout)
    (count : Nat) :
    firstLine? Anchor.occursIn (layout.codeLines.zipIdx.take (count + 1)).reverse =
      if layout.isAnchored count then some count
      else firstLine? Anchor.occursIn (layout.codeLines.zipIdx.take count).reverse := by
  rw [List.take_add_one, List.getElem?_zipIdx, isAnchored]
  cases layout.codeLines[count]? with
  | none =>
      simp
  | some code =>
      cases anchored : Anchor.occursIn code with
      | true =>
          simp [firstLine?, anchored]
      | false =>
          simp [firstLine?, anchored]

private theorem firstLine?_take_eq_some_iff
    {layout : Layout}
    {count first : Nat} :
    firstLine? Anchor.occursIn (layout.codeLines.zipIdx.take count).reverse = some first ↔
      first < count ∧ layout.isAnchored first = true ∧
        ∀ other, first < other → other < count → layout.isAnchored other = false := by
  induction count with
  | zero =>
      simp [firstLine?]
  | succ count inductionHypothesis =>
      rw [firstLine?_take_succ]
      cases anchored : layout.isAnchored count with
      | true =>
          simp only [↓reduceIte, Option.some.injEq]
          constructor
          · rintro rfl
            refine ⟨Nat.lt_succ_self _, anchored, fun other behind within => ?_⟩
            omega
          · rintro ⟨within, -, nothing⟩
            by_contra different
            have hidden := nothing count (by omega) (Nat.lt_succ_self _)
            rw [anchored] at hidden
            cases hidden
      | false =>
          simp only [Bool.false_eq_true, ↓reduceIte]
          rw [inductionHypothesis]
          constructor
          · rintro ⟨within, isFirst, nothing⟩
            refine ⟨Nat.lt_succ_of_lt within, isFirst, fun other behind above => ?_⟩
            rcases Nat.lt_succ_iff_lt_or_eq.mp above with earlier | rfl
            · exact nothing other behind earlier
            · exact anchored
          · rintro ⟨within, isFirst, nothing⟩
            refine ⟨?_, isFirst, fun other behind above =>
              nothing other behind (Nat.lt_succ_of_lt above)⟩
            rcases Nat.lt_succ_iff_lt_or_eq.mp within with earlier | rfl
            · exact earlier
            · rw [anchored] at isFirst
              cases isFirst

/-- The line of a declaration is the nearest one at or above a line that has an anchor. -/
theorem declarationLine?_eq_some_iff
    {layout : Layout}
    {line first : Nat} :
    layout.declarationLine? line = some first ↔
      first ≤ line ∧ layout.isAnchored first = true ∧
        ∀ other, first < other → other ≤ line → layout.isAnchored other = false := by
  simp only [declarationLine?, numberedLines, List.drop_zero, firstLine?_take_eq_some_iff,
    Nat.lt_succ_iff]

end Layout

end RoutineServer
