import RoutineServer.Index.Basic
import RoutineServer.Keyword
import RoutineServer.Service.Hover

namespace RoutineServer

/-!
# Completion

The items offered while typing: the keywords, the routines of the document
itself, then those of the workspace. A routine is offered once, however its
name is spelled.
-/

/-- An item of a completion list. -/
inductive CompletionItem where
  /-- A keyword, in capitals. -/
  | keyword (label : Text)
  /-- A routine with its card. -/
  | routine (label card : Text)
  deriving Repr, DecidableEq

namespace CompletionItem

/-- The note beside a keyword. -/
def keywordDetail : Text :=
  "Postgres keyword".toList

/-- The note beside a routine. -/
def routineDetail : Text :=
  "Function/Procedure (Postgres)".toList

/-- All keywords. -/
def keywords : List CompletionItem :=
  Keyword.all.map fun word => .keyword (word.map Char.toUpper)

/-- The item of a routine; the current document may describe it if its own does not. -/
def ofSummary (summary : Summary) (current : Text) : CompletionItem :=
  let description :=
    match summary.description with
    | some description => some description
    | none => Description.find? current summary.name
  .routine summary.name (Hover.card summary.kind summary.name summary.parameters description)

end CompletionItem

namespace Completion

/-- Keep the first of the routines that share a name, letter case ignored. -/
def distinct : List Text → List Summary → List Summary
  | _, [] => []
  | seen, summary :: rest =>
      if seen.contains summary.key then distinct seen rest
      else summary :: distinct (summary.key :: seen) rest

/-- The completion list of a document, given the routines of the workspace. -/
def items
    (withKeywords : Bool)
    (uri : Uri)
    (text : Text)
    (elsewhere : List Summary) :
    List CompletionItem :=
  let routines := distinct [] (Summary.ofText uri.render text ++ elsewhere)
  (if withKeywords then CompletionItem.keywords else []) ++
    routines.map (CompletionItem.ofSummary · text)

/-- The routines of other documents that an index knows, sorted by name. -/
def indexed (index : RoutineIndex) (uri : Uri) : List Summary :=
  (index.names.filterMap index.lookup?).filter (·.uri != uri.render)

/-- The routines of other documents, read from the documents themselves. -/
def scanned (source : DocumentSource) (uri : Uri) : List Summary :=
  (source.documents (some uri)).flatMap fun document =>
    Summary.ofText document.1.render document.2

/--
Whether a cursor is in a comment or a string, where nothing is offered. The
character before the cursor decides; right after a quote the cursor is in code.
-/
def isSuppressed (text : Text) (offset : Nat) : Bool :=
  match (Text.before offset text).getLast? with
  | none => false
  | some previous =>
      !isCodeAt text (offset - 1) && previous != '\x27' && previous != '"'

end Completion

end RoutineServer
