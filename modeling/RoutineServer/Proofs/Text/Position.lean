import RoutineServer.Proofs.Text.Offset
import RoutineServer.Text.Lines

namespace RoutineServer

/-!
# Lines and positions

A text is its lines with a newline between any two. A place of the text
therefore lies on one line, between the lines above it and the lines below it,
and these decide its position. Positions lead back to the place they were made
from unless it lies behind the carriage return that ends a line.
-/

namespace Text

/-- Lines with a newline behind each. -/
def ended (lines : List Text) : Text :=
  lines.flatMap (· ++ ['\n'])

/-- Lines with a newline in front of each. -/
def started (lines : List Text) : Text :=
  lines.flatMap ('\n' :: ·)

@[simp] theorem ended_nil : ended [] = [] := rfl

@[simp] theorem ended_cons
    (line : Text)
    (rest : List Text) :
    ended (line :: rest) = line ++ '\n' :: ended rest := by
  simp [ended]

@[simp] theorem started_nil : started [] = [] := rfl

@[simp] theorem started_cons
    (line : Text)
    (rest : List Text) :
    started (line :: rest) = '\n' :: (line ++ started rest) := by
  simp [started]

theorem lines_cons_newline
    (rest : Text) :
    lines ('\n' :: rest) = [] :: lines rest := by
  simp [lines, splitLines]

theorem lines_cons_of_ne
    {char : Char}
    {first rest : Text}
    {later : List Text}
    (plain : char ≠ '\n')
    (split : lines rest = first :: later) :
    lines (char :: rest) = (char :: first) :: later := by
  simp only [lines, List.cons.injEq] at split
  obtain ⟨rfl, rfl⟩ := split
  simp [lines, splitLines, plain]

/-- A place of a text lies on a line, between the lines above and those below. -/
theorem exists_lines
    (front back : Text) :
    ∃ above left right below,
      lines (front ++ back) = above ++ (left ++ right) :: below ∧
        front = ended above ++ left ∧ back = right ++ started below := by
  induction front with
  | nil =>
      induction back with
      | nil =>
          exact ⟨[], [], [], [], rfl, rfl, rfl⟩
      | cons char rest inductionHypothesis =>
          obtain ⟨above, left, right, below, split, front, back⟩ := inductionHypothesis
          obtain ⟨aboveEmpty, leftEmpty⟩ := List.append_eq_nil_iff.mp front.symm
          have noneAbove : above = [] := by
            cases above with
            | nil => rfl
            | cons line others => simp at aboveEmpty
          subst noneAbove leftEmpty
          by_cases newline : char = '\n'
          · subst newline
            refine ⟨[], [], [], right :: below, ?_, rfl, ?_⟩
            · rw [List.nil_append, lines_cons_newline]
              simpa using split
            · simpa using back
          · refine ⟨[], [], char :: right, below, ?_, rfl, ?_⟩
            · exact lines_cons_of_ne newline (by simpa using split)
            · simpa using back
  | cons char rest inductionHypothesis =>
      obtain ⟨above, left, right, below, split, front, back⟩ := inductionHypothesis
      by_cases newline : char = '\n'
      · subst newline
        refine ⟨[] :: above, left, right, below, ?_, ?_, back⟩
        · rw [List.cons_append, lines_cons_newline, split]
          rfl
        · simp [front]
      · cases above with
        | nil =>
            refine ⟨[], char :: left, right, below, ?_, ?_, back⟩
            · exact lines_cons_of_ne newline split
            · simpa using front
        | cons line others =>
            refine ⟨(char :: line) :: others, left, right, below, ?_, ?_, back⟩
            · exact lines_cons_of_ne newline split
            · simp [front]

/-- No line holds a newline. -/
theorem newline_not_mem
    {text line : Text}
    (member : line ∈ lines text) :
    '\n' ∉ line := by
  induction text generalizing line with
  | nil =>
      rw [List.mem_singleton.mp member]
      exact List.not_mem_nil
  | cons char rest inductionHypothesis =>
      by_cases newline : char = '\n'
      · rw [newline, lines_cons_newline] at member
        rcases List.mem_cons.mp member with isFirst | isLater
        · simp [isFirst]
        · exact inductionHypothesis isLater
      · rw [lines_cons_of_ne newline rfl] at member
        rcases List.mem_cons.mp member with isFirst | isLater
        · have inFirst : '\n' ∉ (splitLines rest).1 := inductionHypothesis List.mem_cons_self
          rw [isFirst, List.mem_cons]
          rintro (isChar | inside)
          · exact newline isChar.symm
          · exact inFirst inside
        · exact inductionHypothesis (List.mem_cons_of_mem _ isLater)

theorem count_ended
    {above : List Text}
    (single : ∀ line ∈ above, '\n' ∉ line) :
    (ended above).count '\n' = above.length := by
  induction above with
  | nil =>
      rfl
  | cons line rest inductionHypothesis =>
      have here : line.count '\n' = 0 :=
        List.count_eq_zero.mpr (single line (by simp))
      have later := inductionHypothesis fun other member => single other (by simp [member])
      simp [here, later]

theorem getLast?_ended
    (above : List Text) :
    ended above = [] ∨ (ended above).getLast? = some '\n' := by
  induction above with
  | nil =>
      exact .inl rfl
  | cons line rest inductionHypothesis =>
      right
      rw [ended_cons, List.getLast?_append, List.getLast?_cons]
      rcases inductionHypothesis with isEmpty | isNewline
      · rw [isEmpty]
        rfl
      · rw [isNewline]
        rfl

theorem head?_started
    (below : List Text) :
    started below = [] ∨ (started below).head? = some '\n' := by
  cases below with
  | nil =>
      exact .inl rfl
  | cons next others =>
      right
      rw [started_cons]
      rfl

/-- What starts with a terminator is a part of its carriage return, or it reaches the newline. -/
theorem mem_returns_or_newline
    {returns front back : Text}
    {below : List Text}
    (shape : front ++ back = returns ++ started below) :
    (∀ char ∈ front, char ∈ returns) ∨ ∃ others, front = returns ++ '\n' :: others := by
  rcases List.append_eq_append_iff.mp shape with ⟨more, rfl, -⟩ | ⟨more, rfl, rest⟩
  · exact .inl fun char member => List.mem_append_left _ member
  · cases more with
    | nil =>
        rw [List.append_nil]
        exact .inl fun char member => member
    | cons first others =>
        right
        rcases head?_started below with isEmpty | isNewline
        · rw [isEmpty] at rest
          cases rest
        · rw [rest] at isNewline
          have newline : first = '\n' := Option.some.inj isNewline
          exact ⟨others, by rw [newline]⟩

/-- Where a text ends with a newline, a last piece without one is empty. -/
theorem eq_nil_of_ends_newline
    {front rest : Text}
    (ends : front ++ rest = [] ∨ (front ++ rest).getLast? = some '\n')
    (single : '\n' ∉ rest) :
    rest = [] := by
  rcases ends with isEmpty | isNewline
  · exact (List.append_eq_nil_iff.mp isEmpty).2
  · cases isLast : rest.getLast? with
    | none =>
        exact List.getLast?_eq_none_iff.mp isLast
    | some last =>
        rw [List.getLast?_append, isLast, Option.some_or, Option.some.injEq] at isNewline
        rw [isNewline] at isLast
        exact absurd (List.mem_of_getLast? isLast) single

/-- A line is what is left of it and the carriage return that is dropped. -/
theorem exists_returns
    (line : Text) :
    ∃ returns,
      line = dropReturn line ++ returns ∧ (∀ char ∈ returns, char = '\r') ∧
        (returns = [] → line.getLast? ≠ some '\r') := by
  simp only [dropReturn]
  split
  case isFalse other => exact ⟨[], by simp, by simp, fun _ => by simpa using other⟩
  case isTrue returns =>
    obtain ⟨front, rfl⟩ := List.getLast?_eq_some_iff.mp (beq_iff_eq.mp returns)
    exact ⟨['\r'], by simp, by simp, by simp⟩

theorem linesLength_eq
    (above : List Text) :
    linesLength above = byteLength (ended above) := by
  have newlineSize : Char.utf8Size '\n' = 1 := by decide
  induction above with
  | nil =>
      rfl
  | cons line rest inductionHypothesis =>
      simp [linesLength, inductionHypothesis, newlineSize, Nat.add_assoc]

/-- A text is made of its lines. -/
theorem started_lines
    (text : Text) :
    started (lines text) = '\n' :: text := by
  induction text with
  | nil =>
      rfl
  | cons char rest inductionHypothesis =>
      by_cases newline : char = '\n'
      · rw [newline, lines_cons_newline, started_cons, inductionHypothesis]
        rfl
      · have split : lines rest = (splitLines rest).1 :: (splitLines rest).2 := rfl
        rw [split, started_cons, List.cons.injEq] at inductionHypothesis
        rw [lines_cons_of_ne newline split, started_cons, List.cons_append,
          inductionHypothesis.2]

theorem started_append_cons
    (above : List Text)
    (line : Text)
    (below : List Text) :
    started (above ++ line :: below) = '\n' :: (ended above ++ (line ++ started below)) := by
  induction above with
  | nil =>
      simp
  | cons first rest inductionHypothesis =>
      rw [List.cons_append, started_cons, inductionHypothesis]
      simp

/-- A place of a text: the lines around it, and its own line on both sides of it. -/
structure Place (text : Text) where
  above : List Text
  left : Text
  right : Text
  below : List Text
  lines_eq : lines text = above ++ (left ++ right) :: below
  text_eq : text = (ended above ++ left) ++ (right ++ started below)

namespace Place

/-- All that lies in front of a place. -/
def front (place : Place text) : Text :=
  ended place.above ++ place.left

/-- All that lies behind a place. -/
def back (place : Place text) : Text :=
  place.right ++ started place.below

/-- The line of a place, with the carriage return it may end with. -/
def line (place : Place text) : Text :=
  place.left ++ place.right

theorem exists_of_append
    {text front back : Text}
    (whole : text = front ++ back) :
    ∃ place : Place text, place.front = front ∧ place.back = back := by
  obtain ⟨above, left, right, below, split, rfl, rfl⟩ := exists_lines front back
  rw [← whole] at split
  exact ⟨⟨above, left, right, below, split, whole⟩, rfl, rfl⟩

/-- Every line of a text starts at a place of it. -/
theorem exists_of_lt
    {text : Text}
    {line : Nat}
    (within : line < lineCount text) :
    ∃ place : Place text, place.above.length = line ∧ place.left = [] := by
  rw [lineCount] at within
  have split :
      lines text =
        (lines text).take line ++ (lines text)[line] :: (lines text).drop (line + 1) := by
    rw [List.getElem_cons_drop, List.take_append_drop]
  have whole := started_lines text
  rw [split, started_append_cons, List.cons.injEq] at whole
  refine ⟨⟨(lines text).take line, [], (lines text)[line], (lines text).drop (line + 1), split, ?_⟩,
    ?_, rfl⟩
  · rw [List.append_nil]
    exact whole.2.symm
  · exact List.length_take_of_le (Nat.le_of_lt within)

variable {text : Text}

theorem whole
    (place : Place text) :
    text = place.front ++ place.back :=
  place.text_eq

theorem newline_not_mem_above
    (place : Place text) :
    ∀ line ∈ place.above, '\n' ∉ line := by
  intro line member
  refine newline_not_mem (?_ : line ∈ lines text)
  rw [place.lines_eq]
  exact List.mem_append_left _ member

theorem newline_not_mem_line
    (place : Place text) :
    '\n' ∉ place.line := by
  refine newline_not_mem (?_ : place.line ∈ lines text)
  rw [place.lines_eq]
  exact List.mem_append_right _ List.mem_cons_self

theorem count_front
    (place : Place text) :
    place.front.count '\n' = place.above.length := by
  have nothing : place.left.count '\n' = 0 := by
    apply List.count_eq_zero.mpr
    intro member
    exact place.newline_not_mem_line (List.mem_append_left _ member)
  rw [front, List.count_append, count_ended place.newline_not_mem_above, nothing, Nat.add_zero]

theorem getElem?_lines
    (place : Place text) :
    (lines text)[place.above.length]? = some place.line := by
  rw [place.lines_eq, List.getElem?_append_right (Nat.le_refl _), Nat.sub_self]
  rfl

theorem lineStart_eq
    (place : Place text) :
    lineStart text place.above.length = byteLength (ended place.above) := by
  rw [lineStart, place.lines_eq, List.take_left, linesLength_eq]

theorem lineText_eq
    (place : Place text) :
    lineText text place.above.length = dropReturn place.line := by
  rw [lineText, place.getElem?_lines]
  rfl

theorem lineSpan?_eq
    (place : Place text) :
    lineSpan? text place.above.length =
      some ⟨byteLength (ended place.above),
        byteLength (ended place.above) + byteLength (dropReturn place.line)⟩ := by
  rw [lineSpan?, place.getElem?_lines, Option.map_some, place.lineStart_eq]

theorem lineOf_eq
    (place : Place text) :
    lineOf text (byteLength place.front) = place.above.length := by
  rw [lineOf_eq_count, before_eq place.whole rfl, place.count_front]

/-- The position of a place: its line, and the units of the line in front of it. -/
theorem positionOf_eq
    (place : Place text) :
    positionOf text (byteLength place.front) = ⟨place.above.length, units place.left⟩ := by
  have within : min (byteLength place.front) (byteLength text) = byteLength place.front := by
    have total := congrArg byteLength place.whole
    rw [byteLength_append] at total
    omega
  have boundary : isBoundary (byteLength place.front) text = true :=
    isBoundary_iff.mpr ⟨_, _, place.whole, rfl⟩
  have onLine :
      slice ⟨byteLength (ended place.above), byteLength place.front⟩ text = place.left := by
    have around : text = ended place.above ++ (place.left ++ place.back) := by
      rw [← List.append_assoc]
      exact place.whole
    exact slice_eq around rfl (byteLength_append _ _)
  simp only [positionOf, within, place.lineOf_eq, boundary, place.lineStart_eq, onLine, ↓reduceIte]

end Place

theorem lineOf_lt_lineCount
    {text front back : Text}
    {offset : Nat}
    (whole : text = front ++ back)
    (placed : offset = byteLength front) :
    lineOf text offset < lineCount text := by
  obtain ⟨place, rfl, -⟩ := Place.exists_of_append whole
  rw [placed, place.lineOf_eq, lineCount, place.lines_eq, List.length_append, List.length_cons]
  omega

/-- The line of the last byte of a piece, or of its place if it is empty. -/
theorem lineOf_last
    {text front middle back : Text}
    (whole : text = front ++ (middle ++ back)) :
    lineOf text (max (byteLength (front ++ middle) - 1) (byteLength front)) =
      (front ++ middle.dropLast).count '\n' := by
  cases isLast : middle.getLast? with
  | none =>
      have empty : middle = [] := List.getLast?_eq_none_iff.mp isLast
      rw [empty, List.append_nil, Nat.max_eq_right (Nat.sub_le _ _), lineOf_eq_count,
        before_eq whole rfl]
      simp
  | some last =>
      obtain ⟨more, rfl⟩ := List.getLast?_eq_some_iff.mp isLast
      have shape : text = (front ++ more) ++ last :: back := by
        rw [whole]
        simp
      have positive := Char.utf8Size_pos last
      have place :
          max (byteLength (front ++ (more ++ [last])) - 1) (byteLength front) =
            byteLength (front ++ more) + (last.utf8Size - 1) := by
        simp only [byteLength_append, byteLength_cons, byteLength_nil]
        omega
      rw [place, List.dropLast_concat, lineOf_eq_count, before, shape, index_byteLength_add]
      -- A newline is one byte long, so that a last byte behind the first is none.
      cases size : last.utf8Size - 1 with
      | zero =>
          rw [index, Nat.add_zero, List.take_left]
      | succ less =>
          have other : last ≠ '\n' := by
            rintro rfl
            have one : Char.utf8Size '\n' = 1 := by decide
            omega
          have taken : index (less + 1) (last :: back) = 1 := by
            have nothing : less + 1 - last.utf8Size = 0 := by omega
            rw [index, nothing, index]
          have upTo :
              ((front ++ more) ++ last :: back).take ((front ++ more).length + 1) =
                (front ++ more) ++ [last] := by
            rw [List.take_length_add_append]
            rfl
          rw [taken, upTo, List.count_append, List.count_singleton]
          simp [other]

/-- What stands in front of the first newline. -/
theorem takeWhile_append_newline
    {line back : Text}
    (single : '\n' ∉ line)
    (ends : back = [] ∨ back.head? = some '\n') :
    (line ++ back).takeWhile (· != '\n') = line := by
  have all : ∀ char ∈ line, (char != '\n') = true := by
    intro char member
    rw [bne_iff_ne]
    rintro rfl
    exact single member
  have stops : back.takeWhile (· != '\n') = [] := by
    cases back with
    | nil =>
        rfl
    | cons char rest =>
        have newline : char = '\n' := by simpa using ends
        simp [newline]
  rw [List.takeWhile_append_of_pos all, stops, List.append_nil]

/-- A piece between newlines is a line. -/
theorem getElem?_lines
    {text front line back : Text}
    (whole : text = front ++ (line ++ back))
    (begins : front = [] ∨ front.getLast? = some '\n')
    (single : '\n' ∉ line)
    (ends : back = [] ∨ back.head? = some '\n') :
    (lines text)[front.count '\n']? = some line := by
  obtain ⟨place, isFront, isBack⟩ := Place.exists_of_append whole
  have alone := place.newline_not_mem_line
  have leftEmpty : place.left = [] := by
    rw [← isFront, Place.front] at begins
    exact eq_nil_of_ends_newline begins fun member => alone (List.mem_append_left _ member)
  have lineRight : place.line = place.right := by
    rw [Place.line, leftEmpty, List.nil_append]
  rw [lineRight] at alone
  have isLine : place.right = line := by
    calc
      place.right = place.back.takeWhile (· != '\n') :=
        (takeWhile_append_newline alone (head?_started place.below)).symm
      _ = line := by rw [isBack, takeWhile_append_newline single ends]
  have here := place.getElem?_lines
  rw [← place.count_front, isFront, lineRight, isLine] at here
  exact here

theorem units_pos
    (char : Char) :
    0 < unitsOfChar char := by
  simp only [unitsOfChar]
  split
  · decide
  · decide

/-- The column at the end of a piece of a line leads to the end of the piece. -/
theorem bytesToColumn_units
    (left right : Text) :
    bytesToColumn (units left) (left ++ right) = byteLength left := by
  induction left with
  | nil =>
      cases right with
      | nil => rfl
      | cons char rest => rfl
  | cons char rest inductionHypothesis =>
      obtain ⟨less, width⟩ := Nat.exists_eq_succ_of_ne_zero (Nat.ne_of_gt (units_pos char))
      have column : units (char :: rest) = (less + units rest) + 1 := by
        simp only [units, width]
        omega
      have left : (less + units rest) + 1 - unitsOfChar char = units rest := by
        omega
      rw [column, List.cons_append, bytesToColumn, left, inductionHypothesis, byteLength_cons]

/-- Whether a place lies in front of the terminator of its line, not inside it. -/
def settled (front back : Text) : Prop :=
  front.getLast? = some '\r' → ∃ char rest, back = char :: rest ∧ char ≠ '\n'

theorem Place.left_prefix
    {text : Text}
    (place : Place text)
    (settles : settled place.front place.back) :
    ∃ rest, dropReturn place.line = place.left ++ rest := by
  simp only [dropReturn]
  split
  case isFalse => exact ⟨place.right, rfl⟩
  case isTrue returns =>
    -- Only the last character of the line is dropped, and the place is not behind it.
    have notEmpty : place.right ≠ [] := by
      intro empty
      have ends : place.front.getLast? = some '\r' := by
        rw [beq_iff_eq, line, empty, List.append_nil] at returns
        rw [front, List.getLast?_append, returns]
        rfl
      obtain ⟨char, rest, shape, plain⟩ := settles ends
      rw [back, empty, List.nil_append] at shape
      cases lower : place.below with
      | nil => simp [lower] at shape
      | cons next others =>
          rw [lower, started_cons, List.cons.injEq] at shape
          exact plain shape.1.symm
    exact ⟨place.right.dropLast, List.dropLast_append_of_ne_nil notEmpty⟩

/-- A position leads back to the place it was made from. -/
theorem offsetOf?_positionOf
    {text front back : Text}
    {offset : Nat}
    (whole : text = front ++ back)
    (placed : offset = byteLength front)
    (settles : settled front back) :
    offsetOf? text (positionOf text offset) = some offset := by
  obtain ⟨place, rfl, rfl⟩ := Place.exists_of_append whole
  obtain ⟨rest, shape⟩ := place.left_prefix settles
  rw [placed, place.positionOf_eq, offsetOf?, place.lineSpan?_eq, Option.map_some,
    place.lineText_eq, shape, bytesToColumn_units]
  exact congrArg some (byteLength_append _ _).symm

end Text

end RoutineServer
