import RoutineServer.Routine.Description
import RoutineServer.Service.Navigation

namespace RoutineServer

/-!
# Hover

The card that is shown for a routine: its kind and name, its parameters and
its description, in Markdown.
-/

namespace Hover

/-- The text in place of a missing description. -/
def noDescription : Text :=
  "No description".toList

/-- The card of a routine. -/
def card
    (kind : RoutineKind)
    (name parameters : Text)
    (description : Option Text) :
    Text :=
  let parameters := Text.trim parameters
  let heading := "**".toList ++ kind.title ++ "**: \x60".toList ++ name ++ "\x60\n\n".toList
  let signature :=
    if parameters.isEmpty then []
    else "**Parameters:**\n\x60\x60\x60sql\n".toList ++ parameters ++
      "\n\x60\x60\x60\n\n".toList
  heading ++ signature ++ "**Description:**\n".toList ++ description.getD noDescription

/-- The card of a declared routine, with the description that its document gives. -/
def cardOf (text : Text) (declaration : Declaration) : Text :=
  card declaration.kind declaration.name declaration.parameters
    (Description.find? text declaration.spelling)

/-- The card of the routine that a document declares under a name. -/
def cardIn? (text name : Text) : Option Text :=
  (Declaration.find? (Declaration.parse text) name).map (cardOf text)

/-- A card and the range of the word it is about. -/
structure Answer where
  card : Text
  range : Range
  deriving Repr, DecidableEq

/-- The card for the name at a position, from this document or from another. -/
def answer?
    (source : DocumentSource)
    (uri : Uri)
    (text : Text)
    (position : Position) :
    Option Answer := do
  let located ← Text.wordAt? text position
  let name := Name.normalize located.word
  let card ←
    match cardIn? text name with
    | some card => some card
    | none => source.findSome? uri fun _ other => cardIn? other name
  some ⟨card, Text.rangeOf text located.span⟩

end Hover

end RoutineServer
