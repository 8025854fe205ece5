import RoutineServer.Uri.Basic

namespace RoutineServer

/-!
# Documents

Features that reach beyond one document see the others through a source: the
documents that may take part, in order, and a way to read each of them.
-/

/-- Why a document cannot be read. -/
inductive OpenError where
  | notFound
  /-- The URI does not name a file. -/
  | invalidInput
  /-- The file is not text. -/
  | invalidData
  | isADirectory
  | notADirectory
  deriving Repr, DecidableEq

/-- The documents of a workspace. -/
structure DocumentSource where
  candidates : List Uri
  read : Uri → Except OpenError Text

namespace DocumentSource

/-- The candidates that can be read, in order, with their texts. -/
def documents (source : DocumentSource) (skip : Option Uri) : List (Uri × Text) :=
  (source.candidates.filter (some · != skip)).filterMap fun uri =>
    match source.read uri with
    | .ok text => some (uri, text)
    | .error _ => none

/-- The first answer that a document other than the current one gives. -/
def findSome? (source : DocumentSource) (current : Uri) (answer : Uri → Text → Option α) : Option α :=
  (source.documents (some current)).findSome? fun document => answer document.1 document.2

/-- A source of listed documents; one without a text cannot be read. -/
def ofList (entries : List (Uri × Option Text)) : DocumentSource where
  candidates := entries.map (·.1)
  read uri :=
    match (entries.find? (·.1 == uri)).bind (·.2) with
    | some text => .ok text
    | none => .error .notFound

end DocumentSource

end RoutineServer
