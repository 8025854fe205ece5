import RoutineServer.Text.Blank

namespace RoutineServer

/-!
# Names of routines

A name is a run of name characters, or any text between double quotes with the
quotes inside it doubled. Its normal form is what it names: the text without
the quotes that only spell it.
-/

/-- Whether a character can stand in an unquoted name; dots qualify by schema. -/
def isNameChar (char : Char) : Bool :=
  char.isAlphanum || char == '_' || char == ':' || char == '.' || char == '$'

namespace Name

/-- Each doubled quote becomes a single one. -/
def undouble : Text → Text
  | '"' :: '"' :: rest => '"' :: undouble rest
  | char :: rest => char :: undouble rest
  | [] => []

/-- Each quote is written twice. -/
def double : Text → Text
  | [] => []
  | char :: rest =>
      if char == '"' then '"' :: '"' :: double rest else char :: double rest

/-- The quoted spelling of a name. -/
def quote (name : Text) : Text :=
  '"' :: double name ++ ['"']

/-- The normal form of a name: trimmed, and freed of surrounding quotes. -/
def normalize (name : Text) : Text :=
  match Text.trim name with
  | '"' :: rest =>
      if rest.getLast? == some '"' then undouble rest.dropLast else '"' :: rest
  | plain => plain

/--
The number of characters of a quoted name after its opening quote: up to and
including the first quote that is not doubled, or all of them.
-/
def quotedLength : Text → Nat
  | '"' :: '"' :: rest => quotedLength rest + 2
  | '"' :: _ => 1
  | _ :: rest => quotedLength rest + 1
  | [] => 0

/-- The number of characters of the name at the start of a text. -/
def length : Text → Nat
  | '"' :: rest => quotedLength rest + 1
  | text => (text.takeWhile isNameChar).length

/-- A name in a text: the blanks before it are skipped. -/
structure Reading where
  skipped : Nat
  spelling : Text
  deriving Repr, DecidableEq

/-- Read the name at the start of a text, past leading blanks. -/
def read? (text : Text) : Option Reading :=
  let named := Text.trimStart text
  let spelling := named.take (length named)
  if spelling.isEmpty then none else some ⟨Text.leadingBlanks text, spelling⟩

end Name

end RoutineServer
