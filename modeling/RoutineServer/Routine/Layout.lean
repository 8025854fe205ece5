import RoutineServer.Text.Lines
import RoutineServer.Routine.Declaration

namespace RoutineServer

/-!
# The layout of a document in lines

A rename inside a routine has to know the lines that the routine takes up and
whether the cursor is in its parameters, its declarations or its body. Lines
are answered from the parsed declarations where one starts on the line in
question, and otherwise from the keywords that the mask shows, so that
unfinished code has a layout too.
-/

/-- What is known of a document: its text, its scan and its declarations. -/
structure Layout where
  text : Text
  glyphs : List Glyph
  declarations : List Declaration
  deriving Repr

/-- The part of a routine that a place lies in. -/
inductive LocalContext where
  | parameters
  | declare
  | body
  deriving Repr, DecidableEq

namespace Layout

/-- The layout of a text. -/
def of (text : Text) : Layout :=
  ⟨text, scan text, Declaration.parse text⟩

/-- What the mask shows of a span. -/
def codeIn (layout : Layout) (span : Span) : Text :=
  let first := Text.index span.start layout.text
  let last := Text.index span.stop layout.text
  Glyph.code ((layout.glyphs.take last).drop first)

/-- What the mask shows of each line, without terminators. -/
def codeLines (layout : Layout) : List Text :=
  List.zipWith (fun code line => code.take (Text.dropReturn line).length)
    (Text.lines (Glyph.code layout.glyphs)) (Text.lines layout.text)

/-- The number of the last line. -/
def lastLine (layout : Layout) : Nat :=
  Text.lineCount layout.text - 1

/-- The lines from `first` to `last`, as far as there are such lines, with their numbers. -/
def numberedLines (layout : Layout) (first last : Nat) : List (Text × Nat) :=
  (layout.codeLines.zipIdx.take (last + 1)).drop first

/-- The first of some lines that passes a test. -/
def firstLine? (passes : Text → Bool) (lines : List (Text × Nat)) : Option Nat :=
  (lines.find? (passes ·.1)).map (·.2)

/-- The nearest line at or above the given one that has an anchor. -/
def declarationLine? (layout : Layout) (line : Nat) : Option Nat :=
  firstLine? Anchor.occursIn (layout.numberedLines 0 line).reverse

/-- The first declaration that starts on a line. -/
def declarationOn? (layout : Layout) (line : Nat) : Option Declaration :=
  layout.declarations.find? fun declaration =>
    Text.lineOf layout.text declaration.start == line

/--
The line that closes the outermost block, counting the words `begin` and `end`
line by line.
-/
def blockEndLine? : Int → Bool → List (Text × Nat) → Option Nat
  | _, _, [] => none
  | depth, begun, (code, line) :: rest =>
      let begins := Text.countWord "begin".toList none code
      let ends := Text.countWord "end".toList none code
      let begun := begun || begins != 0
      let depth := depth + begins - ends
      if ends != 0 && begun && depth ≤ 0 && hasEndStatement code then some line
      else blockEndLine? depth begun rest

/-- The last line of a routine that starts on a line, judged by keywords alone. -/
def endLineByKeywords (layout : Layout) (line : Nat) : Nat :=
  let lines := layout.numberedLines line layout.lastLine
  match blockEndLine? 0 false lines with
  | some last => last
  | none =>
      match firstLine? hasEndStatement lines with
      | some last => last
      | none =>
          match firstLine? (·.contains ';') lines with
          | some last => last
          | none => layout.lastLine

/-- The last line of the routine that starts on a line. -/
def endLine (layout : Layout) (line : Nat) : Nat :=
  match layout.declarationOn? line with
  | some declaration =>
      Text.lineOf layout.text (max (declaration.stop - 1) declaration.start)
  | none => layout.endLineByKeywords line

/-- The first and the last line of the routine around a line. -/
def enclosing? (layout : Layout) (line : Nat) : Option (Nat × Nat) := do
  let first ← layout.declarationLine? line
  let last := layout.endLine first
  if line ≤ last then some (first, last) else none

/-- The span between the parentheses of the parameter list of a routine. -/
def parameterSpan? (layout : Layout) (first last : Nat) : Option Span :=
  match layout.declarationOn? first with
  | some declaration => some ⟨declaration.paramsOpen + 1, declaration.paramsClose⟩
  | none => do
      let start := (← Text.lineSpan? layout.text first).start
      let stop := (← Text.lineSpan? layout.text last).stop
      let index ← (layout.codeIn ⟨start, stop⟩).findIdx? (· == '(')
      let opening :=
        start + Text.byteLength ((Text.after start layout.text).take index)
      let enclosed ← enclosedAt? layout.text opening
      some ⟨opening + 1, enclosed.close⟩

/-- The lines from the word `declare` to the word `begin` on a later line. -/
def declareLines? (layout : Layout) (first last : Nat) : Option (Nat × Nat) := do
  let declare ← firstLine? (Text.hasWord "declare".toList) (layout.numberedLines first last)
  let begin ← firstLine? (Text.hasWord "begin".toList)
    (layout.numberedLines (declare + 1) last)
  some (declare, begin)

/-- The part of the routine between two lines that an offset lies in. -/
def localContext (layout : Layout) (first last offset : Nat) : LocalContext :=
  let line := Text.lineOf layout.text offset
  if (layout.parameterSpan? first last).any (·.contains offset) then .parameters
  else if (layout.declareLines? first last).any
      fun lines => lines.1 ≤ line && line ≤ lines.2 then .declare
  else .body

end Layout

end RoutineServer
