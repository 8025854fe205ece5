import RoutineServer.Text.Basic

namespace RoutineServer

/-!
# Lines and positions

Editors give places as a line and a column, both from zero. Lines end with a
newline; a carriage return in front of it, or at the end of the text, is not
part of the line. Columns count UTF-16 units.

Lines and columns are natural numbers without a bound. Editors send them as
numbers of 32 bits, which hold every line and column of a document of less than
four gibibytes; longer documents are counted here, and not wrapped around.
-/

/-- A place in a document as an editor names it. -/
structure Position where
  line : Nat
  character : Nat
  deriving Repr, DecidableEq

/-- A stretch of a document between two positions. -/
structure Range where
  start : Position
  stop : Position
  deriving Repr, DecidableEq

namespace Text

/-- The number of UTF-16 units of a character. -/
def unitsOfChar (char : Char) : Nat :=
  if char.toNat < 0x10000 then 1 else 2

/-- The number of UTF-16 units of a text. -/
def units : Text → Nat
  | [] => 0
  | char :: rest => unitsOfChar char + units rest

/-- The first line of a text, without its newline, and the lines after it. -/
def splitLines : Text → Text × List Text
  | [] => ([], [])
  | char :: rest =>
      let lines := splitLines rest
      if char == '\n' then ([], lines.1 :: lines.2) else (char :: lines.1, lines.2)

/-- The lines of a text without their newlines. -/
def lines (text : Text) : List Text :=
  let split := splitLines text
  split.1 :: split.2

/-- The number of lines. -/
def lineCount (text : Text) : Nat :=
  (lines text).length

/-- A line without the carriage return it may end with. -/
def dropReturn (line : Text) : Text :=
  if line.getLast? == some '\r' then line.dropLast else line

/-- The number of bytes of some lines and of the newline after each. -/
def linesLength : List Text → Nat
  | [] => 0
  | line :: rest => byteLength line + 1 + linesLength rest

/-- The number of bytes before a line. -/
def lineStart (text : Text) (line : Nat) : Nat :=
  linesLength ((lines text).take line)

/-- The span of a line without its terminator. -/
def lineSpan? (text : Text) (line : Nat) : Option Span :=
  ((lines text)[line]?).map fun content =>
    let start := lineStart text line
    ⟨start, start + byteLength (dropReturn content)⟩

/-- A line without its terminator; empty if there is no such line. -/
def lineText (text : Text) (line : Nat) : Text :=
  dropReturn ((lines text)[line]?.getD [])

/-- The offsets behind the newlines of a text that starts at an offset. -/
def laterStarts : Nat → Text → List Nat
  | _, [] => []
  | offset, char :: rest =>
      let next := offset + char.utf8Size
      if char == '\n' then next :: laterStarts next rest else laterStarts next rest

/--
The line of an offset: the last one that does not start behind it, looked for
among the starts of the lines, which are in order.
-/
def lineOf (text : Text) (offset : Nat) : Nat :=
  ((laterStarts 0 text).takeWhile (· ≤ offset)).length

theorem length_takeWhile_laterStarts
    (text : Text)
    (start offset : Nat) :
    ((laterStarts start text).takeWhile (· ≤ offset)).length =
      (before (offset - start) text).count '\n' := by
  induction text generalizing start with
  | nil =>
      simp [laterStarts, before]
  | cons char rest inductionHypothesis =>
      have further := inductionHypothesis (start + char.utf8Size)
      have width : '\n'.utf8Size = 1 := rfl
      cases distance : offset - start with
      | zero =>
          have nothing : offset - (start + char.utf8Size) = 0 := by omega
          rw [nothing] at further
          by_cases newline : char = '\n'
          · have behind : ¬ start + 1 ≤ offset := by omega
            simp [laterStarts, newline, width, behind, before, index]
          · simpa [laterStarts, newline, before, index] using further
      | succ less =>
          have left : less + 1 - char.utf8Size = offset - (start + char.utf8Size) := by omega
          rw [before, index, left, List.take_succ_cons, List.count_cons]
          by_cases newline : char = '\n'
          · have reached : start + 1 ≤ offset := by omega
            rw [newline, width] at further
            simp [laterStarts, newline, width, reached, further, before]
          · simp [laterStarts, newline, further, before]

/-- As many newlines stand before an offset as lines start behind the first one. -/
theorem lineOf_eq_count
    (text : Text)
    (offset : Nat) :
    lineOf text offset = (before offset text).count '\n' :=
  length_takeWhile_laterStarts text 0 offset

/-- The position of an offset; the column of an offset inside a character is zero. -/
def positionOf (text : Text) (offset : Nat) : Position :=
  let offset := min offset (byteLength text)
  let line := lineOf text offset
  let column :=
    if isBoundary offset text then units (slice ⟨lineStart text line, offset⟩ text) else 0
  ⟨line, column⟩

/-- The range of a span. -/
def rangeOf (text : Text) (span : Span) : Range :=
  ⟨positionOf text span.start, positionOf text span.stop⟩

/-- The bytes of a line in front of a column, the whole line if it is shorter. -/
def bytesToColumn : Nat → Text → Nat
  | _, [] => 0
  | 0, _ :: _ => 0
  | column + 1, char :: rest =>
      char.utf8Size + bytesToColumn (column + 1 - unitsOfChar char) rest

/-- The offset of a position, if its line exists. -/
def offsetOf? (text : Text) (position : Position) : Option Nat :=
  (lineSpan? text position.line).map fun span =>
    span.start + bytesToColumn position.character (lineText text position.line)

end Text

end RoutineServer
