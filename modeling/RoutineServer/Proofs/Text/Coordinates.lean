import Mathlib.Order.Bounds.Defs
import RoutineServer.Proofs.Text.Position

namespace RoutineServer

/-!
# Offsets and positions

An offset between two characters and its position name the same place. The
position of an offset leads back to the offset, or to the end of its line if
the offset lies inside the terminator. Positions come in the order of their
offsets. A position leads to an offset on its own line, at the first column
from its own on where a character ends, or at the end of the line.
-/

/-- Positions are ordered by line, and by column on one line. -/
def Position.Precedes (first second : Position) : Prop :=
  first.line < second.line ∨
    (first.line = second.line ∧ first.character < second.character)

theorem Position.Precedes.irrefl
    (position : Position) :
    ¬ position.Precedes position := by
  rintro (above | ⟨-, before⟩)
  · exact Nat.lt_irrefl _ above
  · exact Nat.lt_irrefl _ before

namespace Text

/--
What stands behind a line: its terminator and all that follows. A carriage
return belongs to the terminator in front of a newline and at the end of the
text.
-/
inductive Terminated : Text → Text → Prop where
  | returnNewline
      {line below : Text} :
      Terminated line ('\r' :: '\n' :: below)
  | newline
      {line below : Text} :
      line.getLast? ≠ some '\r' →
      Terminated line ('\n' :: below)
  | finalReturn
      {line : Text} :
      Terminated line ['\r']
  | finish
      {line : Text} :
      line.getLast? ≠ some '\r' →
      Terminated line []

/-- A line without its terminator, and the text above and behind it. -/
structure IsLine (text : Text) (number : Nat) (above line behind : Text) : Prop where
  whole : text = above ++ (line ++ behind)
  begins : above = [] ∨ above.getLast? = some '\n'
  numbered : above.count '\n' = number
  single : '\n' ∉ line
  ends : Terminated line behind

/-- What `dropReturn` takes off a line belongs to the terminator. -/
theorem exists_terminated
    (line : Text)
    (below : List Text) :
    ∃ returns,
      line = dropReturn line ++ returns ∧
        Terminated (dropReturn line) (returns ++ started below) := by
  simp only [dropReturn]
  split
  case isTrue returns =>
    obtain ⟨front, rfl⟩ := List.getLast?_eq_some_iff.mp (beq_iff_eq.mp returns)
    refine ⟨['\r'], by simp, ?_⟩
    cases below with
    | nil => exact .finalReturn
    | cons next others => exact .returnNewline
  case isFalse other =>
    have plain : line.getLast? ≠ some '\r' := by simpa using other
    refine ⟨[], by simp, ?_⟩
    cases below with
    | nil => exact .finish plain
    | cons next others => exact .newline plain

namespace Place

variable {text : Text}

/-- The line of a place without its terminator. -/
theorem exists_isLine
    (place : Place text) :
    ∃ behind,
      IsLine text place.above.length (ended place.above) (dropReturn place.line) behind := by
  obtain ⟨returns, shape, ends⟩ := exists_terminated place.line place.below
  refine ⟨returns ++ started place.below, ?_, getLast?_ended _,
    count_ended place.newline_not_mem_above, ?_, ends⟩
  · rw [← List.append_assoc (dropReturn place.line), ← shape, Place.line]
    simpa using place.text_eq
  · intro member
    apply place.newline_not_mem_line
    rw [shape]
    exact List.mem_append_left _ member

theorem lineStart_succ
    (place : Place text) :
    lineStart text (place.above.length + 1) =
      byteLength (ended place.above) + (byteLength place.line + 1) := by
  have upTo : (lines text).take (place.above.length + 1) = place.above ++ [place.line] := by
    rw [place.lines_eq, List.take_length_add_append]
    rfl
  have newlineSize : Char.utf8Size '\n' = 1 := by decide
  rw [lineStart, upTo, linesLength_eq]
  simp [ended, newlineSize]

/-- Places of one text with as many lines above them have the same lines above them. -/
theorem above_eq
    (first second : Place text)
    (sameLine : first.above.length = second.above.length) :
    first.above = second.above := by
  have split := first.lines_eq
  rw [second.lines_eq] at split
  exact (List.append_inj split sameLine.symm).1.symm

end Place

section LineStarts

variable {text : Text}

theorem linesLength_append
    (above below : List Text) :
    linesLength (above ++ below) = linesLength above + linesLength below := by
  simp [linesLength_eq, ended]

theorem lineStart_mono
    {first second : Nat}
    (ordered : first ≤ second) :
    lineStart text first ≤ lineStart text second := by
  have more :
      (lines text).take second =
        (lines text).take first ++ ((lines text).drop first).take (second - first) := by
    rw [← List.take_add, Nat.add_sub_cancel' ordered]
  rw [lineStart, lineStart, more, linesLength_append]
  exact Nat.le_add_right _ _

theorem lineStart_lineOf_le
    {front back : Text}
    (whole : text = front ++ back) :
    lineStart text (lineOf text (byteLength front)) ≤ byteLength front := by
  obtain ⟨place, rfl, -⟩ := Place.exists_of_append whole
  rw [place.lineOf_eq, place.lineStart_eq, Place.front, byteLength_append]
  exact Nat.le_add_right _ _

theorem lt_lineStart_succ_lineOf
    {front back : Text}
    (whole : text = front ++ back) :
    byteLength front < lineStart text (lineOf text (byteLength front) + 1) := by
  obtain ⟨place, rfl, -⟩ := Place.exists_of_append whole
  rw [place.lineOf_eq, place.lineStart_succ, Place.front, Place.line, byteLength_append,
    byteLength_append]
  omega

/-- The line of a place is the last one that starts at the place or in front of it. -/
theorem lineStart_le_iff
    {front back : Text}
    (whole : text = front ++ back)
    (line : Nat) :
    lineStart text line ≤ byteLength front ↔ line ≤ lineOf text (byteLength front) := by
  constructor
  · intro starts
    refine Nat.le_of_not_lt fun later => ?_
    have behind : byteLength front < lineStart text line :=
      Nat.lt_of_lt_of_le (lt_lineStart_succ_lineOf whole) (lineStart_mono later)
    omega
  · intro earlier
    exact Nat.le_trans (lineStart_mono earlier) (lineStart_lineOf_le whole)

end LineStarts

theorem units_append
    (left right : Text) :
    units (left ++ right) = units left + units right := by
  induction left with
  | nil =>
      simp [units]
  | cons char rest inductionHypothesis =>
      simp [units, inductionHypothesis, Nat.add_assoc]

theorem units_pos_of_ne_nil
    {text : Text}
    (nonempty : text ≠ []) :
    0 < units text := by
  cases text with
  | nil =>
      exact absurd rfl nonempty
  | cons char rest =>
      exact Nat.add_pos_left (units_pos char) _

/--
A column reaches the first place of its line, between two characters or at an
end, that has as many units in front of it, and the end if there is none.
-/
theorem exists_least_of_bytesToColumn
    (column : Nat)
    (line : Text) :
    ∃ left right,
      line = left ++ right ∧ bytesToColumn column line = byteLength left ∧
        (right ≠ [] → column ≤ units left) ∧
          ∀ earlier later, line = earlier ++ later → column ≤ units earlier →
            units left ≤ units earlier := by
  fun_induction bytesToColumn column line with
  | case1 column =>
      exact ⟨[], [], rfl, rfl, fun absent => absurd rfl absent, fun _ _ _ _ => Nat.zero_le _⟩
  | case2 char rest =>
      exact ⟨[], char :: rest, rfl, rfl, fun _ => Nat.zero_le _, fun _ _ _ _ => Nat.zero_le _⟩
  | case3 column char rest inductionHypothesis =>
      obtain ⟨left, right, shape, size, reached, least⟩ := inductionHypothesis
      refine ⟨char :: left, right, by rw [shape]; rfl, by rw [size, byteLength_cons], ?_, ?_⟩
      · intro remains
        have here := reached remains
        rw [units]
        omega
      · intro earlier later split enough
        cases earlier with
        | nil =>
            rw [units] at enough
            omega
        | cons first others =>
            obtain ⟨rfl, restShape⟩ := List.cons.inj split
            rw [units] at enough ⊢
            have here := least others later restShape (by omega)
            rw [units]
            omega

/-- A column at the end of a line or behind it leads to the end. -/
theorem bytesToColumn_of_units_le
    {column : Nat}
    {line : Text}
    (beyond : units line ≤ column) :
    bytesToColumn column line = byteLength line := by
  obtain ⟨left, right, rfl, size, reached, -⟩ := exists_least_of_bytesToColumn column line
  cases right with
  | nil =>
      rw [size, List.append_nil]
  | cons char rest =>
      have enough := reached (List.cons_ne_nil _ _)
      have more := units_pos_of_ne_nil (List.cons_ne_nil char rest)
      rw [units_append] at beyond
      omega

/-- A piece of a line reaches the line's end without terminator, or lies in front of it. -/
theorem bytesToColumn_units_dropReturn
    (left right : Text) :
    bytesToColumn (units left) (dropReturn (left ++ right)) =
      min (byteLength left) (byteLength (dropReturn (left ++ right))) := by
  obtain ⟨returns, shape, -⟩ := exists_terminated (left ++ right) []
  rcases List.append_eq_append_iff.mp shape with ⟨more, split, -⟩ | ⟨more, split, -⟩
  · rw [split, bytesToColumn_units, byteLength_append]
    exact (Nat.min_eq_left (Nat.le_add_right _ _)).symm
  · generalize dropReturn (left ++ right) = line at split
    rw [split, bytesToColumn_of_units_le (by rw [units_append]; omega), byteLength_append]
    exact (Nat.min_eq_right (Nat.le_add_right _ _)).symm

/-- The position of a place leads back to it, or to the end of its line. -/
theorem Place.offsetOf?_positionOf_eq
    {text : Text}
    (place : Place text) :
    offsetOf? text (positionOf text (byteLength place.front)) =
      some (min (byteLength place.front)
        (byteLength (ended place.above ++ dropReturn place.line))) := by
  rw [place.positionOf_eq, offsetOf?, place.lineSpan?_eq, Option.map_some, place.lineText_eq,
    Place.line, bytesToColumn_units_dropReturn, Place.front, byteLength_append, byteLength_append,
    Nat.add_min_add_left]

/-- The last carriage return of a line is all that can be dropped. -/
theorem eq_dropReturn_or
    (line : Text) :
    line = dropReturn line ∨ line = dropReturn line ++ ['\r'] := by
  simp only [dropReturn]
  split
  case isFalse => exact .inl rfl
  case isTrue returns =>
    obtain ⟨front, rfl⟩ := List.getLast?_eq_some_iff.mp (beq_iff_eq.mp returns)
    exact .inr (by simp)

/-- The position of a place leads to the place, or in front of a carriage return before it. -/
theorem exists_reached
    {text front back : Text}
    (whole : text = front ++ back) :
    ∃ reached returns,
      front = reached ++ returns ∧ (returns = [] ∨ returns = ['\r']) ∧
        offsetOf? text (positionOf text (byteLength front)) = some (byteLength reached) := by
  obtain ⟨place, rfl, -⟩ := Place.exists_of_append whole
  rw [place.offsetOf?_positionOf_eq]
  have inLine
      {more : Text}
      (shape : dropReturn place.line = place.left ++ more) :
      min (byteLength place.front) (byteLength (ended place.above ++ dropReturn place.line)) =
        byteLength place.front := by
    rw [shape, ← List.append_assoc, byteLength_append _ more]
    exact Nat.min_eq_left (Nat.le_add_right _ _)
  rcases eq_dropReturn_or place.line with plain | returned
  · exact ⟨place.front, [], (List.append_nil _).symm, .inl rfl, by rw [inLine plain.symm]⟩
  · rcases List.eq_nil_or_concat place.right with isEnd | ⟨more, last, right⟩
    · -- The place is behind the carriage return.
      have left : place.left = dropReturn place.line ++ ['\r'] := by
        rw [← returned, Place.line, isEnd, List.append_nil]
      have front : place.front = (ended place.above ++ dropReturn place.line) ++ ['\r'] := by
        rw [Place.front, left, List.append_assoc]
      refine ⟨ended place.above ++ dropReturn place.line, ['\r'], front, .inr rfl, ?_⟩
      rw [front, byteLength_append _ ['\r']]
      exact congrArg some (Nat.min_eq_right (Nat.le_add_right _ _))
    · have line : place.line = (place.left ++ more) ++ [last] := by
        rw [Place.line, right, List.concat_eq_append, List.append_assoc]
      have shape : dropReturn place.line = place.left ++ more :=
        (List.append_inj' (returned.symm.trans line) rfl).1
      exact ⟨place.front, [], (List.append_nil _).symm, .inl rfl, by rw [inLine shape]⟩

/-- A later place has a later position. -/
theorem positionOf_precedes
    {text front middle back : Text}
    (whole : text = front ++ (middle ++ back))
    (later : middle ≠ []) :
    (positionOf text (byteLength front)).Precedes
      (positionOf text (byteLength (front ++ middle))) := by
  obtain ⟨first, rfl, -⟩ := Place.exists_of_append whole
  rw [← List.append_assoc] at whole
  obtain ⟨second, isSecond, -⟩ := Place.exists_of_append whole
  rw [← isSecond, first.positionOf_eq, second.positionOf_eq]
  have lineNumber := second.count_front
  rw [isSecond, List.count_append, first.count_front] at lineNumber
  rcases Nat.eq_zero_or_pos (middle.count '\n') with sameLine | otherLine
  · -- On one line, the units between the two places make the difference.
    rw [sameLine, Nat.add_zero] at lineNumber
    have sameAbove := first.above_eq second lineNumber
    have longer : second.left = first.left ++ middle := by
      rw [Place.front, Place.front, sameAbove, List.append_assoc] at isSecond
      exact List.append_cancel_left isSecond
    have more := units_pos_of_ne_nil later
    right
    rw [longer, units_append]
    exact ⟨lineNumber, Nat.lt_add_of_pos_right more⟩
  · left
    show first.above.length < second.above.length
    omega

/-- A text ends on its last line. -/
theorem lineCount_eq
    (text : Text) :
    lineCount text = text.count '\n' + 1 := by
  obtain ⟨place, isAll, isNothing⟩ := Place.exists_of_append (List.append_nil text).symm
  have lowest : place.below = [] := by
    cases below : place.below with
    | nil => rfl
    | cons next others => simp [Place.back, below] at isNothing
  have number : text.count '\n' = place.above.length := by
    rw [← place.count_front, isAll]
  rw [number, lineCount, place.lines_eq, lowest, List.length_append, List.length_singleton]

/-- Boundaries in order are the ends of a piece and of a longer one. -/
theorem exists_of_isBoundary_lt
    {text : Text}
    {first second : Nat}
    (firstBoundary : isBoundary first text = true)
    (secondBoundary : isBoundary second text = true)
    (ordered : first < second) :
    ∃ front middle back,
      text = front ++ (middle ++ back) ∧ middle ≠ [] ∧ byteLength front = first ∧
        byteLength (front ++ middle) = second := by
  obtain ⟨front, behind, whole, rfl⟩ := isBoundary_iff.mp firstBoundary
  obtain ⟨longer, back, again, rfl⟩ := isBoundary_iff.mp secondBoundary
  rw [whole] at again
  rcases List.append_eq_append_iff.mp again with ⟨middle, rfl, shape⟩ | ⟨middle, rfl, -⟩
  · refine ⟨front, middle, back, by rw [whole, shape], ?_, rfl, rfl⟩
    rintro rfl
    rw [List.append_nil] at ordered
    exact Nat.lt_irrefl _ ordered
  · rw [byteLength_append] at ordered
    omega

/-- Positions come in the order of their offsets. -/
theorem positionOf_precedes_of_lt
    {text : Text}
    {first second : Nat}
    (firstBoundary : isBoundary first text = true)
    (secondBoundary : isBoundary second text = true)
    (ordered : first < second) :
    (positionOf text first).Precedes (positionOf text second) := by
  obtain ⟨front, middle, back, whole, later, rfl, rfl⟩ :=
    exists_of_isBoundary_lt firstBoundary secondBoundary ordered
  exact positionOf_precedes whole later

/-- Positions come in the order of their offsets, which may be the same. -/
theorem positionOf_eq_or_precedes
    {text : Text}
    {first second : Nat}
    (firstBoundary : isBoundary first text = true)
    (secondBoundary : isBoundary second text = true)
    (ordered : first ≤ second) :
    positionOf text first = positionOf text second ∨
      (positionOf text first).Precedes (positionOf text second) := by
  rcases Nat.eq_or_lt_of_le ordered with same | before
  · exact .inl (congrArg (positionOf text) same)
  · exact .inr (positionOf_precedes_of_lt firstBoundary secondBoundary before)

/-- Different places of a text have different positions. -/
theorem positionOf_injective
    {text : Text}
    {first second : Nat}
    (firstBoundary : isBoundary first text = true)
    (secondBoundary : isBoundary second text = true)
    (same : positionOf text first = positionOf text second) :
    first = second := by
  rcases Nat.lt_trichotomy first second with before | equal | behind
  · have precedes := positionOf_precedes_of_lt firstBoundary secondBoundary before
    rw [same] at precedes
    exact absurd precedes (Position.Precedes.irrefl _)
  · exact equal
  · have precedes := positionOf_precedes_of_lt secondBoundary firstBoundary behind
    rw [same] at precedes
    exact absurd precedes (Position.Precedes.irrefl _)

/-- The columns of a line: the units in front of its places. -/
def columns (line : Text) : Set Nat :=
  { column | ∃ left right, line = left ++ right ∧ units left = column }

/-- A position leads to the first column of its line that is not before its own. -/
theorem exists_column_of_lt_lineCount
    {text : Text}
    {position : Position}
    (exists_line : position.line < lineCount text) :
    ∃ above line behind offset column,
      IsLine text position.line above line behind ∧
        offsetOf? text position = some offset ∧ isBoundary offset text = true ∧
          positionOf text offset = ⟨position.line, column⟩ ∧
            (position.character ≤ units line →
              IsLeast { column ∈ columns line | position.character ≤ column } column) ∧
              (units line < position.character → column = units line) := by
  obtain ⟨place, isNumber, atStart⟩ := Place.exists_of_lt exists_line
  obtain ⟨behind, isLine⟩ := place.exists_isLine
  obtain ⟨left, right, split, size, reached, least⟩ :=
    exists_least_of_bytesToColumn position.character (dropReturn place.line)
  have whole : text = (ended place.above ++ left) ++ (right ++ behind) := by
    have pieces := isLine.whole
    rw [split] at pieces
    simpa using pieces
  have lineLeft : '\n' ∉ left := by
    intro member
    apply isLine.single
    rw [split]
    exact List.mem_append_left _ member
  obtain ⟨reachedPlace, isFront, -⟩ := Place.exists_of_append whole
  have sameLine : reachedPlace.above.length = place.above.length := by
    rw [← reachedPlace.count_front, isFront, List.count_append, isLine.numbered,
      List.count_eq_zero.mpr lineLeft, Nat.add_zero]
  have isLeft : reachedPlace.left = left := by
    rw [Place.front, reachedPlace.above_eq place sameLine] at isFront
    exact List.append_cancel_left isFront
  refine ⟨ended place.above, dropReturn place.line, behind, byteLength (ended place.above ++ left),
    units left, by rwa [← isNumber], ?_, isBoundary_iff.mpr ⟨_, _, whole, rfl⟩, ?_, ?_, ?_⟩
  · rw [offsetOf?, ← isNumber, place.lineSpan?_eq, Option.map_some, place.lineText_eq, size,
      byteLength_append]
  · rw [← isFront, reachedPlace.positionOf_eq, sameLine, isNumber, isLeft]
  · intro within
    refine ⟨⟨⟨left, right, split, rfl⟩, ?_⟩, ?_⟩
    · cases right with
      | nil => rwa [split, List.append_nil] at within
      | cons char rest => exact reached (List.cons_ne_nil _ _)
    · rintro column ⟨⟨earlier, later, shape, rfl⟩, enough⟩
      exact least earlier later shape enough
  · intro beyond
    cases right with
    | nil =>
        rw [split, List.append_nil]
    | cons char rest =>
        have enough := reached (List.cons_ne_nil _ _)
        rw [split, units_append] at beyond
        omega

/--
Offsets and positions lead to each other and keep their order.

The line of an offset has as many newlines in front of the offset, and is the
last line that does not start behind it. The position of an offset leads to the
offset or to the end of its line, whichever comes first. The positions of two
offsets are in the order of the offsets. A position on a line leads to an offset
on this line, whose column is the first one from the position's column on, or
the last one of the line.
-/
theorem offsets_match_positions
    (text : Text) :
    (∀ front back, text = front ++ back →
      lineOf text (byteLength front) = front.count '\n' ∧
        (∀ line, lineStart text line ≤ byteLength front ↔ line ≤ front.count '\n') ∧
          ∃ above line behind,
            IsLine text (front.count '\n') above line behind ∧
              offsetOf? text (positionOf text (byteLength front)) =
                some (min (byteLength front) (byteLength (above ++ line)))) ∧
      (∀ first second, isBoundary first text = true → isBoundary second text = true →
        first < second → (positionOf text first).Precedes (positionOf text second)) ∧
        lineCount text = text.count '\n' + 1 ∧
          ∀ position : Position, position.line < lineCount text →
            ∃ above line behind offset column,
              IsLine text position.line above line behind ∧
                offsetOf? text position = some offset ∧ isBoundary offset text = true ∧
                  positionOf text offset = ⟨position.line, column⟩ ∧
                    (position.character ≤ units line →
                      IsLeast { column ∈ columns line | position.character ≤ column } column) ∧
                      (units line < position.character → column = units line) := by
  refine ⟨?_, ?_, lineCount_eq text, fun position => exists_column_of_lt_lineCount⟩
  · intro front back whole
    have number : lineOf text (byteLength front) = front.count '\n' := by
      rw [lineOf_eq_count, before_eq whole rfl]
    refine ⟨number, fun line => by rw [lineStart_le_iff whole, number], ?_⟩
    obtain ⟨place, rfl, -⟩ := Place.exists_of_append whole
    obtain ⟨behind, isLine⟩ := place.exists_isLine
    rw [place.count_front]
    exact ⟨_, _, _, isLine, place.offsetOf?_positionOf_eq⟩
  · intro first second firstBoundary secondBoundary ordered
    exact positionOf_precedes_of_lt firstBoundary secondBoundary ordered

/-- A pair of units, a carriage return inside a line, and lines that end in three ways. -/
def mixedEnds : Text :=
  "a😀\r\nb\rc\n\r".toList

theorem offsets_match_positions_mixedEnds :
    (positionOf mixedEnds 6 = ⟨0, 4⟩ ∧
      ∃ above line behind,
        IsLine mixedEnds 0 above line behind ∧
          offsetOf? mixedEnds (positionOf mixedEnds 6) =
            some (min 6 (byteLength (above ++ line)))) ∧
      (positionOf mixedEnds 8).Precedes (positionOf mixedEnds 12) ∧
        ∃ above line behind offset column,
          IsLine mixedEnds 0 above line behind ∧
            offsetOf? mixedEnds ⟨0, 2⟩ = some offset ∧
              positionOf mixedEnds offset = ⟨0, column⟩ ∧
                (2 ≤ units line → IsLeast { column ∈ columns line | 2 ≤ column } column) := by
  obtain ⟨placed, ordered, -, reached⟩ := offsets_match_positions mixedEnds
  obtain ⟨-, -, insideEnd⟩ := placed "a😀\r".toList "\nb\rc\n\r".toList (by decide)
  obtain ⟨above, line, behind, offset, column, isLine, isOffset, -, isPosition, least, -⟩ :=
    reached ⟨0, 2⟩ (by decide)
  exact ⟨⟨by decide, insideEnd⟩, ordered 8 12 (by decide) (by decide) (by decide),
    above, line, behind, offset, column, isLine, isOffset, isPosition, least⟩

end Text

end RoutineServer
