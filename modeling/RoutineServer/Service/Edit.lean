import RoutineServer.Text.Lines
import RoutineServer.Uri.Basic

namespace RoutineServer

/-!
# Edits

What a rename or a command asks an editor to do: for each document a list of
replacements, given by ranges of the document as it is.
-/

/-- Replace a range of a document. -/
structure TextEdit where
  range : Range
  newText : Text
  deriving Repr, DecidableEq

/-- The edits of each changed document; a document is listed once. -/
abbrev Changes := List (Uri × List TextEdit)

namespace Changes

/-- Set the edits of a document, in place of those it had. -/
def insert (changes : Changes) (uri : Uri) (edits : List TextEdit) : Changes :=
  changes.filter (·.1 != uri) ++ [(uri, edits)]

/-- Set the edits of a document unless there are none. -/
def insertSome (changes : Changes) (uri : Uri) (edits : List TextEdit) : Changes :=
  if edits.isEmpty then changes else changes.insert uri edits

end Changes

/-- A range in a document. -/
structure Location where
  uri : Uri
  range : Range
  deriving Repr, DecidableEq

end RoutineServer
