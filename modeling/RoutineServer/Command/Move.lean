import RoutineServer.Command.Error
import RoutineServer.Json.Decode
import RoutineServer.Routine.Description
import RoutineServer.Routine.Layout
import RoutineServer.Service.Edit

namespace RoutineServer

/-!
# Moving a routine

The command that moves a declaration to the end of another document, together
with the comment lines above it and the statements that describe it. Whole
lines are taken out of the source.
-/

namespace Move

/-- Whether a text contains another one. -/
def containsText (text piece : Text) : Bool :=
  match text with
  | [] => piece.isEmpty
  | char :: rest => piece.isPrefixOf (char :: rest) || containsText rest piece

/--
The first line that belongs to a declaration on a line: blank lines and line
comments above it do, and a block comment above those.
-/
def firstLine (text : Text) : Nat → Nat
  | 0 => 0
  | line + 1 =>
      let trimmed := Text.trim (Text.lineText text line)
      if trimmed.isEmpty || "--".toList.isPrefixOf trimmed then
        firstLine text line
      else if "*/".toList.isSuffixOf trimmed then
        ((List.range (line + 1)).reverse.find? fun number =>
          containsText (Text.lineText text number) "/*".toList).getD line
      else
        line + 1

/--
The offset after the semicolon of the closing dollar quote, if a dollar sign
is the first thing after a declaration.
-/
def tailEnd? (layout : Layout) (start limit : Nat) : Option Nat := do
  let code := layout.codeIn ⟨start, limit⟩
  if (Text.trimStart code).head? == some '$' then
    let index ← code.findIdx? (· == ';')
    some (start + Text.byteLength ((Text.after start layout.text).take (index + 1)))
  else
    none

/-- The span of the lines from one to another, without the last terminator. -/
def linesSpan? (text : Text) (first last : Nat) : Option Span := do
  some ⟨(← Text.lineSpan? text first).start, (← Text.lineSpan? text last).stop⟩

/-- The first and the last line of a declaration with all that belongs to it. -/
def declarationLines (layout : Layout) (declaration : Declaration) : Nat × Nat :=
  let line := Text.lineOf layout.text declaration.start
  let nextStart :=
    ((layout.declarations.map (·.start)).find? (declaration.start < ·)).getD
      (Text.byteLength layout.text)
  let last := layout.endLine line
  let last :=
    match tailEnd? layout declaration.stop nextStart with
    | some tail => max last (Text.lineOf layout.text (tail - 1))
    | none => last
  (firstLine layout.text line, last)

/-- The lines taken out of a source, and the descriptions among them. -/
structure Cuts where
  deletions : List Span
  descriptions : List Text
  deriving Repr, DecidableEq

/--
Cut out the lines of a description, unless they lie in the declaration's own
lines or share a byte with what is cut out already.
-/
def cutDescription
    (text : Text)
    (first last : Nat)
    (cuts : Cuts)
    (statement : Span) :
    Cuts :=
  let firstOwn := Text.lineOf text statement.start
  let lastOwn := Text.lineOf text (max (statement.stop - 1) statement.start)
  match linesSpan? text firstOwn lastOwn with
  | none => cuts
  | some lines =>
      if (first ≤ firstOwn && lastOwn ≤ last) || cuts.deletions.any (·.overlaps lines) then
        cuts
      else
        ⟨cuts.deletions ++ [lines],
          cuts.descriptions ++ [Text.trim (Text.slice statement text)]⟩

/-- Everything that is cut out for a declaration. -/
def cuts? (layout : Layout) (declaration : Declaration) : Option Cuts := do
  let (first, last) := declarationLines layout declaration
  let own ← linesSpan? layout.text first last
  some ((Description.statements layout.text declaration.spelling).foldl
    (cutDescription layout.text first last) ⟨[own], []⟩)

/-- The text that arrives at the destination. -/
def movedText (text : Text) (cuts : Cuts) : Text :=
  let own := ((cuts.deletions.head?).map (Text.slice · text)).getD []
  own ++ cuts.descriptions.flatMap ("\n\n".toList ++ ·)

/-- Move the declaration with a name from one document to the end of another. -/
def changes
    (sourceUri : Uri)
    (sourceText name : Text)
    (destinationUri : Uri)
    (destinationText : Text) :
    Except CommandError Changes :=
  if sourceUri == destinationUri then
    .error .sameDocument
  else
    let layout := Layout.of sourceText
    match (Declaration.find? layout.declarations name).bind (cuts? layout) with
    | none => .error (.declarationNotFound name)
    | some cuts =>
        let place := Text.positionOf destinationText (Text.byteLength destinationText)
        let gap := if (Text.trim destinationText).isEmpty then [] else "\n\n".toList
        let deletions := cuts.deletions.map fun span => ⟨Text.rangeOf sourceText span, []⟩
        let insertion : TextEdit := ⟨⟨place, place⟩, gap ++ movedText sourceText cuts ++ ['\n']⟩
        .ok [(sourceUri, deletions), (destinationUri, [insertion])]

/-- What the command is asked for. -/
structure Order where
  uri : Uri
  name : Text
  destination : Uri
  deriving Repr, DecidableEq

/-- Read an order. -/
def Order.of? (argument : Json) : Option Order := do
  match ← argument.fields? ["uri".toList, "name".toList, "destination".toList] with
  | [uri, name, destination] =>
      some ⟨← (← uri).uri?, ← (← name).text?, ← (← destination).uri?⟩
  | _ => none

end Move

end RoutineServer
