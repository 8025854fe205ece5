import RoutineServer.Json.Basic
import RoutineServer.Routine.Kind
import RoutineServer.Text.Lines
import RoutineServer.Uri.Basic

namespace RoutineServer

/-!
# Reading the server's data from JSON
-/

namespace Json

/-- A URI in a text. -/
def uri? : Json → Option Uri
  | .string value => Uri.parse? value
  | _ => none

/-- A kind of routine by its name, which may be the only key of an object. -/
def kind? : Json → Option RoutineKind
  | .string value => ofName? value
  | .object [(name, .null)] => ofName? name
  | _ => none
where
  /-- The kind with a name in lower case. -/
  ofName? (name : Text) : Option RoutineKind :=
    if name == RoutineKind.name .function then some .function
    else if name == RoutineKind.name .procedure then some .procedure
    else none

/-- A position from its line and its column. -/
def position? (json : Json) : Option Position := do
  match ← json.fields? ["line".toList, "character".toList] with
  | [line, character] => some ⟨← (← line).count?, ← (← character).count?⟩
  | _ => none

end Json

end RoutineServer
