import RoutineServer.Text.Blank
import RoutineServer.Text.Fold
import RoutineServer.Text.WordChar

namespace RoutineServer

/-!
# Patterns in texts

The pieces that keyword searches are made of: runs of blanks, words bounded on
both sides, and the enumeration of matches from left to right without overlap.
Letter case is ignored throughout.
-/

namespace Text

/-- What is left after one or more blanks, all of them taken. -/
def dropBlanks? : Text → Option Text
  | [] => none
  | char :: rest => if isBlank char then some (trimStart rest) else none

/-- Whether a word can start here, given the character in front. -/
def wordStart (previous : Option Char) : Bool :=
  !previous.any isWordChar

/-- Whether a word can end here, given the text that follows. -/
def wordEnd (rest : Text) : Bool :=
  !rest.head?.any isWordChar

/-- What is left after a bounded word at the start of a text. -/
def dropWord? (word : Text) (previous : Option Char) (text : Text) : Option Text :=
  if wordStart previous then
    (dropFolded? word text).filter wordEnd
  else
    none

/-- The number of places where a bounded word stands. -/
def countWord (word : Text) : Option Char → Text → Nat
  | _, [] => 0
  | previous, char :: rest =>
      (if (dropWord? word previous (char :: rest)).isSome then 1 else 0) +
        countWord word (some char) rest

/-- Whether a bounded word stands anywhere in a text. -/
def hasWord (word : Text) (text : Text) : Bool :=
  countWord word none text != 0

/--
All matches from left to right, each search going on where the last match
ended.

A match is found by `match?`, which looks at the start of a text only and
answers the number of matched characters, at least one. The arguments after it
are the byte offset of the text and the number of characters that belong to a
match already found.
-/
def matchesFrom
    (match? : Text → Option (Nat × α)) :
    Nat → Nat → Text → List (Span × α)
  | _, _, [] => []
  | offset, skip + 1, char :: rest =>
      matchesFrom match? (offset + char.utf8Size) skip rest
  | offset, 0, char :: rest =>
      match match? (char :: rest) with
      | none => matchesFrom match? (offset + char.utf8Size) 0 rest
      | some (length, value) =>
          let stop := offset + byteLength ((char :: rest).take length)
          (⟨offset, stop⟩, value) ::
            matchesFrom match? (offset + char.utf8Size) (length - 1) rest

/-- All matches in a text, left to right without overlap. -/
def findMatches (match? : Text → Option (Nat × α)) (text : Text) : List (Span × α) :=
  matchesFrom match? 0 0 text

end Text

end RoutineServer
