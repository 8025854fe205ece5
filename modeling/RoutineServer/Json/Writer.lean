import RoutineServer.Json.Basic

namespace RoutineServer

/-!
# Writing JSON

Values are written without blanks. Control characters, quotes and backslashes
are escaped, everything else stands as it is.
-/

namespace Json

/-- The digit of a number below sixteen. -/
def hexDigit (value : Nat) : Char :=
  if value < 10 then Char.ofNat (0x30 + value) else Char.ofNat (0x57 + value)

/-- A character inside quotes. -/
def escaped (char : Char) : Text :=
  if char == '"' then "\\\"".toList
  else if char == '\\' then "\\\\".toList
  else if char == '\n' then "\\n".toList
  else if char == '\r' then "\\r".toList
  else if char == '\t' then "\\t".toList
  else if char.toNat < 0x20 then
    "\\u00".toList ++ [hexDigit (char.toNat / 16), hexDigit (char.toNat % 16)]
  else [char]

/-- A text in quotes. -/
def quoted (text : Text) : Text :=
  '"' :: text.flatMap escaped ++ ['"']

mutual

/-- The written form of a value. -/
def render : Json → Text
  | .null => "null".toList
  | .bool true => "true".toList
  | .bool false => "false".toList
  | .integer value => (toString value).toList
  | .fraction written => written
  | .string value => quoted value
  | .array [] => "[]".toList
  | .array (element :: rest) => '[' :: (render element ++ renderElements rest)
  | .object [] => ['\x7b', '\x7d']
  | .object ((name, value) :: rest) =>
      '\x7b' :: (quoted name ++ ':' :: (render value ++ renderEntries rest))

/-- The elements of an array after the first one, and the closing bracket. -/
def renderElements : List Json → Text
  | [] => [']']
  | element :: rest => ',' :: (render element ++ renderElements rest)

/-- The entries of an object after the first one, and the closing brace. -/
def renderEntries : List (Text × Json) → Text
  | [] => ['\x7d']
  | (name, value) :: rest =>
      ',' :: (quoted name ++ ':' :: (render value ++ renderEntries rest))

end

end Json

end RoutineServer
