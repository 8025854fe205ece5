import RoutineServer.Routine.Declaration
import RoutineServer.Service.Documents
import RoutineServer.Service.Edit
import RoutineServer.Text.Word

namespace RoutineServer

/-!
# Navigation

Where a routine is declared, where it is mentioned, and the outline of a
document.
-/

namespace Navigation

/-- The name in normal form that a cursor is on. -/
def nameAt? (text : Text) (position : Position) : Option Text :=
  (Text.wordAt? text position).map (Name.normalize ·.word)

/-- The place in a document where a name is declared. -/
def definitionIn? (uri : Uri) (text name : Text) : Option Location :=
  (Declaration.find? (Declaration.parse text) name).map fun declaration =>
    ⟨uri, Text.rangeOf text declaration.nameSpan⟩

/-- The declaration of the name at a position, in this document or in another. -/
def definition?
    (source : DocumentSource)
    (uri : Uri)
    (text : Text)
    (position : Position) :
    Option Location := do
  let name ← nameAt? text position
  match definitionIn? uri text name with
  | some location => some location
  | none => source.findSome? uri (definitionIn? · · name)

/-- The spans where a name is mentioned: quoted, or plain and not inside a quoted one. -/
def mentions (text name : Text) : List Span :=
  let quoted := Text.wholeWords text (Name.quote name)
  let plain := (Text.wholeWords text name).filter fun span => !quoted.any (span.within ·)
  (quoted ++ plain).mergeSort (·.start ≤ ·.start)

/-- The places where a document mentions a name, its declarations included or not. -/
def referencesIn
    (uri : Uri)
    (text name : Text)
    (includeDeclaration : Bool) :
    List Location :=
  if name.isEmpty then
    []
  else
    let declared :=
      if includeDeclaration then []
      else ((Declaration.parse text).filter (·.isNamed name)).map (·.nameSpan)
    ((mentions text name).filter (!declared.contains ·)).map fun span =>
      ⟨uri, Text.rangeOf text span⟩

/-- The mentions of the name at a position, first in this document, then in the others. -/
def references
    (source : DocumentSource)
    (uri : Uri)
    (text : Text)
    (position : Position)
    (includeDeclaration : Bool) :
    List Location :=
  match nameAt? text position with
  | none => []
  | some name =>
      referencesIn uri text name includeDeclaration ++
        (source.documents (some uri)).flatMap fun document =>
          referencesIn document.1 document.2 name includeDeclaration

/-- An entry of an outline. -/
structure Symbol where
  name : Text
  kind : RoutineKind
  range : Range
  selection : Range
  deriving Repr, DecidableEq

/-- The outline of a document: its declarations in order. -/
def outline (text : Text) : List Symbol :=
  (Declaration.parse text).map fun declaration =>
    ⟨declaration.name, declaration.kind, Text.rangeOf text declaration.span,
      Text.rangeOf text declaration.nameSpan⟩

end Navigation

end RoutineServer
