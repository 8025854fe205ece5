import RoutineServer.Text.Basic

namespace RoutineServer

/-!
# JSON values

Clients and the server talk in JSON. A record is an object, where unknown
entries do not matter; where a record is also read from an array, the array
holds exactly its fields in order.
-/

/-- A JSON value. -/
inductive Json where
  | null
  | bool (value : Bool)
  | integer (value : Int)
  /-- A number with a fraction or an exponent, as it is written. -/
  | fraction (written : Text)
  | string (value : Text)
  | array (elements : List Json)
  | object (entries : List (Text × Json))
  deriving Repr, Inhabited

namespace Json

/-- A natural number. -/
def nat (value : Nat) : Json :=
  .integer value

/-- A text that the server itself writes. -/
def literal (value : String) : Json :=
  .string value.toList

/-- An object with the keys that the server itself writes. -/
def record (entries : List (String × Json)) : Json :=
  .object (entries.map fun entry => (entry.1.toList, entry.2))

/-- A list of values. -/
def list (encode : α → Json) (values : List α) : Json :=
  .array (values.map encode)

/-- The entry of an object. -/
def get? (name : String) : Json → Option Json
  | .object entries => entries.lookup name.toList
  | _ => none

/-- The entry of an object, unless it is missing or null. -/
def present? (name : String) (json : Json) : Option Json :=
  match json.get? name with
  | some .null => none
  | entry => entry

/-- The fields of a record in order; a missing entry of an object is nothing. -/
def fields? (names : List Text) : Json → Option (List (Option Json))
  | .object entries => some (names.map fun name => entries.lookup name)
  | .array elements => if elements.length == names.length then some (elements.map some) else none
  | _ => none

/-- A truth value. -/
def bool? : Json → Option Bool
  | .bool value => some value
  | _ => none

/-- A text. -/
def text? : Json → Option Text
  | .string value => some value
  | _ => none

/-- A number of a line or a column, 32 bits wide. -/
def count? : Json → Option Nat
  | .integer value => if 0 ≤ value && value < 4294967296 then some value.toNat else none
  | _ => none

/-- The elements of an array. -/
def list? (read? : Json → Option α) : Json → Option (List α)
  | .array elements => elements.mapM read?
  | _ => none

/-- A value that may be missing or null. -/
def optional? (read? : Json → Option α) : Option Json → Option (Option α)
  | none => some none
  | some .null => some none
  | some json => (read? json).map some

mutual

/-- All texts in a value, keys apart. -/
def texts : Json → List Text
  | .string value => [value]
  | .array elements => textsOfElements elements
  | .object entries => textsOfEntries entries
  | _ => []

/-- All texts in some values. -/
def textsOfElements : List Json → List Text
  | [] => []
  | element :: rest => texts element ++ textsOfElements rest

/-- All texts in some entries. -/
def textsOfEntries : List (Text × Json) → List Text
  | [] => []
  | (_, value) :: rest => texts value ++ textsOfEntries rest

end

end Json

end RoutineServer
