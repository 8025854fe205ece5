import RoutineServer.Text.Lines
import RoutineServer.Text.Pattern

namespace RoutineServer

/-!
# Words

The word under a cursor, and all occurrences of a name as a whole word.
-/

namespace Text

/-- Whether a character belongs to an unquoted word under a cursor. -/
def isCursorWordChar (char : Char) : Bool :=
  char.isAlphanum || char == '_' || char == ':' || char == '.'

/-- The word at the start of a text: something quoted, or a run of word characters. -/
def cursorWordAt? (text : Text) : Option (Nat × Text) :=
  let length :=
    match text with
    | '"' :: rest =>
        let inside := (rest.takeWhile (· != '"')).length
        if inside == 0 || inside == rest.length then 0 else inside + 2
    | _ => (text.takeWhile isCursorWordChar).length
  if length == 0 then none else some (length, text.take length)

/-- A word of a document and where it stands. -/
structure Located where
  span : Span
  word : Text
  deriving Repr, DecidableEq

/-- The first word of the line that reaches or touches a position. -/
def wordAt? (text : Text) (position : Position) : Option Located := do
  let line ← lineSpan? text position.line
  let offset ← offsetOf? text position
  let column := offset - line.start
  let words := findMatches cursorWordAt? (lineText text position.line)
  let found ← words.find? fun word => word.1.start ≤ column && column ≤ word.1.stop
  some ⟨found.1.shift line.start, found.2⟩

/-- Whether a name at this place is a word of its own on both sides. -/
def isWholeWord (name : Text) (previous : Option Char) (rest : Text) : Bool :=
  !(name.head?.any isIdentifierChar && previous.any isIdentifierChar) &&
    !(name.getLast?.any isIdentifierChar && rest.head?.any isIdentifierChar)

/--
The whole-word occurrences of a name from a place on.

The arguments after the name are the byte offset of the place, the character
in front of it and the number of characters that belong to an occurrence
already found. An occurrence that is part of a longer word is passed over by
one character only, since a valid one may overlap it.
-/
def wholeWordsFrom (name : Text) : Nat → Option Char → Nat → Text → List Span
  | _, _, _, [] => []
  | offset, _, skip + 1, char :: rest =>
      wholeWordsFrom name (offset + char.utf8Size) (some char) skip rest
  | offset, previous, 0, char :: rest =>
      let next (skip : Nat) : List Span :=
        wholeWordsFrom name (offset + char.utf8Size) (some char) skip rest
      match dropFolded? name (char :: rest) with
      | none => next 0
      | some following =>
          if isWholeWord name previous following then
            let stop := offset + byteLength ((char :: rest).take name.length)
            ⟨offset, stop⟩ :: next (name.length - 1)
          else
            next 0

/-- The whole-word occurrences of a name in a text, letter case ignored. -/
def wholeWords (text name : Text) : List Span :=
  if name.isEmpty then [] else wholeWordsFrom name 0 none 0 text

end Text

end RoutineServer
