import RoutineServer.Text.Pattern
import RoutineServer.Routine.Kind

namespace RoutineServer

/-!
# Anchors

A declaration starts with the words `create function` or `create procedure`,
with `or replace` in between if wanted. These words are its anchor. Anchors are
looked for in what the mask shows of a document.
-/

/-- The opening words of a declaration and their length in characters. -/
structure Anchor where
  kind : RoutineKind
  length : Nat
  deriving Repr, DecidableEq

namespace Anchor

/-- What is left after `or replace` and the blanks behind each of the two words. -/
def dropReplace? (code : Text) : Option Text := do
  let replace ← (Text.dropFolded? "or".toList code).bind Text.dropBlanks?
  (Text.dropFolded? "replace".toList replace).bind Text.dropBlanks?

/-- A kind of routine at the start of a text, and what is left after it. -/
def dropKind? (code : Text) : Option (RoutineKind × Text) :=
  match Text.dropFolded? "function".toList code with
  | some rest => some (.function, rest)
  | none => (Text.dropFolded? "procedure".toList code).map (.procedure, ·)

/-- The anchor at the start of a text, given the character in front of it. -/
def at? (previous : Option Char) (code : Text) : Option Anchor :=
  if Text.wordStart previous then do
    let created ← (Text.dropFolded? "create".toList code).bind Text.dropBlanks?
    let (kind, rest) ← dropKind? ((dropReplace? created).getD created)
    if Text.wordEnd rest then some ⟨kind, code.length - rest.length⟩ else none
  else
    none

/-- The number of characters before the first anchor, or all of them. -/
def distance : Option Char → Text → Nat
  | _, [] => 0
  | previous, char :: rest =>
      if (at? previous (char :: rest)).isSome then 0
      else distance (some char) rest + 1

/-- Whether an anchor stands anywhere in a text of its own. -/
def occursIn (code : Text) : Bool :=
  distance none code != code.length

end Anchor

end RoutineServer
