import RoutineServer.Command.Move
import RoutineServer.Command.Skeleton

namespace RoutineServer

/-!
# Commands

A command turns its first argument into changes of documents. The client is
asked to make the changes.
-/

namespace Command

/-- The command that writes a skeleton. -/
def generateSkeleton : Text :=
  "pgsql.generateSkeleton".toList

/-- The command that moves a routine. -/
def moveFunction : Text :=
  "pgsql.moveFunction".toList

/-- All commands. -/
def all : List Text :=
  [generateSkeleton, moveFunction]

/-- Read the first argument of a command. -/
def order (read? : Json → Option α) : List Json → Except CommandError α
  | [] => .error .missingArguments
  | argument :: _ =>
      match read? argument with
      | some order => .ok order
      | none => .error .invalidArguments

/-- The text of a document, where one that cannot be read is empty. -/
def textOrEmpty (source : DocumentSource) (uri : Uri) : Text :=
  match source.read uri with
  | .ok text => text
  | .error _ => []

/-- The changes that move a routine; its document has to be there, the destination need not. -/
def moveChanges (source : DocumentSource) (order : Move.Order) : Except CommandError Changes :=
  if order.uri == order.destination then
    .error .sameDocument
  else
    match source.read order.uri with
    | .error reason => .error (.unreadable order.uri reason)
    | .ok text =>
        Move.changes order.uri text order.name order.destination
          (textOrEmpty source order.destination)

/-- The changes that a command asks for. -/
def changes
    (source : DocumentSource)
    (name : Text)
    (arguments : List Json) :
    Except CommandError Changes :=
  if name == generateSkeleton then do
    let order ← order Skeleton.Order.of? arguments
    .ok (Skeleton.changes order (textOrEmpty source order.uri))
  else if name == moveFunction then do
    moveChanges source (← order Move.Order.of? arguments)
  else
    .error (.unknownCommand name)

end Command

end RoutineServer
