import RoutineServer.Keyword
import RoutineServer.Routine.Layout
import RoutineServer.Service.Documents
import RoutineServer.Service.Edit
import RoutineServer.Text.Word

namespace RoutineServer

/-!
# Renaming

A rename starts at a word. The name of a routine, and anything that is called,
is renamed in every document. Any other word inside a routine is taken for a
parameter or a variable and renamed in the lines of that routine only.
-/

/-- How far a rename reaches. -/
inductive RenameScope where
  /-- The word is the name of the declaration around it. -/
  | declaration
  /-- The word is called. -/
  | callSite
  /-- The word belongs to the routine on these lines, first and last included. -/
  | routine (firstLine lastLine : Nat) (context : LocalContext)
  /-- The word stands outside all routines. -/
  | unscoped
  deriving Repr, DecidableEq

/-- Why a rename is refused. -/
inductive RenameError where
  | noWord
  | keyword
  | invalidNewName
  | noChanges
  deriving Repr, DecidableEq

/-- What the user is told about a refused rename. -/
def RenameError.message : RenameError → Text
  | .noWord => "Cannot rename at this location.".toList
  | .keyword => "Cannot rename PostgreSQL keywords.".toList
  | .invalidNewName =>
      "The new name must be different from the old one and cannot be a reserved keyword.".toList
  | .noChanges => "No changes to apply.".toList

/-- Whether a rename reaches all documents. -/
def RenameScope.isGlobal : RenameScope → Bool
  | .routine _ _ _ => false
  | _ => true

namespace Rename

/-- The word at a position, if it can be renamed. -/
def target (text : Text) (position : Position) : Except RenameError Text.Located :=
  match Text.wordAt? text position with
  | none => .error .noWord
  | some located => if Keyword.contains located.word then .error .keyword else .ok located

/-- What an editor shows before it asks for the new name. -/
structure Placeholder where
  range : Range
  word : Text
  deriving Repr, DecidableEq

/-- The word to be renamed at a position. -/
def prepare (text : Text) (position : Position) : Except RenameError Placeholder :=
  (target text position).map fun located => ⟨Text.rangeOf text located.span, located.word⟩

/-- The new name to write, trimmed, if it may replace the old one. -/
def newName (oldName newName : Text) : Except RenameError Text :=
  let trimmed := Text.trim newName
  if trimmed.isEmpty || trimmed == oldName || Keyword.contains trimmed then
    .error .invalidNewName
  else
    .ok trimmed

/-- The scope of a rename of a word, with the cursor at an offset. -/
def classify
    (layout : Layout)
    (located : Text.Located)
    (offset : Nat) :
    RenameScope :=
  let name := Name.normalize located.word
  if layout.declarations.any fun declaration =>
      declaration.contains offset && declaration.isNamed name then
    .declaration
  else if (Text.trimStart (Text.after located.span.stop layout.text)).head? == some '(' then
    .callSite
  else
    match layout.enclosing? (Text.lineOf layout.text offset) with
    | some (first, last) => .routine first last (layout.localContext first last offset)
    | none => .unscoped

/-- Replace each of some spans of a text by a name. -/
def replacements (text : Text) (spans : List Span) (newName : Text) : List TextEdit :=
  spans.map fun span => ⟨Text.rangeOf text span, newName⟩

/-- Replace every whole-word occurrence of a name in a document. -/
def documentEdits (text oldName newName : Text) : List TextEdit :=
  replacements text (Text.wholeWords text oldName) newName

/-- Replace the whole-word occurrences between two lines, both included. -/
def localEdits (text : Text) (first last : Nat) (oldName newName : Text) : List TextEdit :=
  match Text.lineSpan? text first, Text.lineSpan? text last with
  | some firstSpan, some lastSpan =>
      let bounds : Span := ⟨firstSpan.start, lastSpan.stop⟩
      replacements text ((Text.wholeWords text oldName).filter (·.within bounds)) newName
  | _, _ => []

/-- The scope of a rename and the changes it makes. -/
structure Outcome where
  scope : RenameScope
  changes : Changes
  deriving Repr, DecidableEq

/-- The changes of a rename with a known scope. -/
def changes
    (source : DocumentSource)
    (uri : Uri)
    (text oldName newName : Text) :
    RenameScope → Changes
  | .routine first last _ =>
      Changes.insertSome [] uri (localEdits text first last oldName newName)
  | _ =>
      (source.documents (some uri)).foldl
        (fun changes document =>
          changes.insertSome document.1 (documentEdits document.2 oldName newName))
        (Changes.insertSome [] uri (documentEdits text oldName newName))

/-- Rename the word at a position of a document. -/
def rename
    (source : DocumentSource)
    (uri : Uri)
    (text : Text)
    (position : Position)
    (newName : Text) :
    Except RenameError Outcome := do
  let located ← target text position
  let newName ← Rename.newName located.word newName
  match Text.offsetOf? text position with
  | none => .error .noWord
  | some offset =>
      let scope := classify (.of text) located offset
      let changes := changes source uri text located.word newName scope
      if changes.isEmpty then .error .noChanges else .ok ⟨scope, changes⟩

end Rename

end RoutineServer
