import RoutineServer.Routine.Declaration
import RoutineServer.Routine.Description

namespace RoutineServer

/-!
# Summaries

What the index keeps of a declaration: enough to offer it in a completion and
to describe it.
-/

/-- A declared routine as it is known outside its document. -/
structure Summary where
  name : Text
  kind : RoutineKind
  parameters : Text
  description : Option Text
  /-- The URI of the document, as it is written in the index. -/
  uri : Text
  deriving Repr, DecidableEq

namespace Summary

/-- The key under which a routine is found: its name in lower case. -/
def key (summary : Summary) : Text :=
  Text.lower summary.name

/-- What is kept of a declaration of a document. -/
def ofDeclaration (uri text : Text) (declaration : Declaration) : Summary where
  name := declaration.name
  kind := declaration.kind
  parameters := Text.trim declaration.parameters
  description := Description.find? text declaration.spelling
  uri := uri

/-- The routines of a document in the order of the text. -/
def ofText (uri text : Text) : List Summary :=
  (Declaration.parse text).map (ofDeclaration uri text)

end Summary

end RoutineServer
