import RoutineServer.Json.Decode
import RoutineServer.Service.Edit
import RoutineServer.Text.Blank

namespace RoutineServer

/-!
# Skeletons

The command that writes the frame of a new routine into a document.
-/

namespace Skeleton

/-- The words in front of the name. -/
def heading (kind : RoutineKind) : Text :=
  "CREATE OR REPLACE ".toList ++ kind.keyword

/-- The clause for what a function returns. -/
def returnType : RoutineKind → Option Text → Text
  | .function, returns => "RETURNS ".toList ++ returns.getD "void".toList
  | .procedure, _ => []

/-- The last statement of the block. -/
def returnStatement : RoutineKind → Text
  | .function => "RETURN NULL;".toList
  | .procedure => "RETURN;".toList

/-- The declaration of a routine with an empty body. -/
def render
    (kind : RoutineKind)
    (name parameters : Text)
    (returns language : Option Text) :
    Text :=
  heading kind ++ ' ' :: name ++ '(' :: Text.trim parameters ++ ")\n".toList ++
    returnType kind returns ++ "\nLANGUAGE ".toList ++ language.getD "plpgsql".toList ++
    "\nAS $$\nBEGIN\n  -- implementation goes here\n  ".toList ++ returnStatement kind ++
    "\nEXCEPTION WHEN OTHERS THEN\n  -- handle\n  RAISE;\nEND;\n$$;\n".toList

/-- What the command is asked for. -/
structure Order where
  uri : Uri
  kind : RoutineKind
  name : Text
  parameters : Text
  returns : Option Text
  language : Option Text
  position : Option Position
  deriving Repr, DecidableEq

/-- The names of the fields of an order. -/
def fieldNames : List Text :=
  ["uri".toList, "kind".toList, "name".toList, "parameters".toList, "returns".toList,
    "language".toList, "position".toList]

/-- Read an order. -/
def Order.of? (argument : Json) : Option Order := do
  match ← argument.fields? fieldNames with
  | [uri, kind, name, parameters, returns, language, position] =>
      some {
        uri := ← (← uri).uri?
        kind := ← (← kind).kind?
        name := ← (← name).text?
        parameters := ← match parameters with
          | none => some []
          | some argument => argument.text?
        returns := ← Json.optional? Json.text? returns
        language := ← Json.optional? Json.text? language
        position := ← Json.optional? Json.position? position
      }
  | _ => none

/-- Write the skeleton into a document, at its end if no position is asked for. -/
def changes (order : Order) (text : Text) : Changes :=
  let place := order.position.getD (Text.positionOf text (Text.byteLength text))
  let skeleton := render order.kind order.name order.parameters order.returns order.language
  [(order.uri, [⟨⟨place, place⟩, '\n' :: skeleton ++ ['\n']⟩])]

end Skeleton

end RoutineServer
