import RoutineServer.Toml.Scalar

namespace RoutineServer

/-!
# TOML documents

Keys, arrays, inline tables and the lines of a document: headers of tables, and
keys with values that belong to the last header.
-/

namespace Toml

/-- A text without leading blanks of a line. -/
def dropInline (text : Text) : Text :=
  text.dropWhile isInlineBlank

/-- The text after a comment, up to its line break. -/
def dropComment? : Text → Option Text
  | '#' :: rest =>
      let line := rest.takeWhile (· != '\n')
      let following := rest.drop line.length
      let content :=
        if line.getLast? == some '\r' && !following.isEmpty then line.dropLast else line
      if content.all isPlain then some (rest.drop content.length) else none
  | text => some text

/-- The text after the end of a line: blanks, a comment, and a line break or the end. -/
def dropLineEnd? (text : Text) : Option Text := do
  let rest ← dropComment? (dropInline text)
  if rest.isEmpty then some [] else dropNewline? rest

/-- The text after blanks, comments and line breaks. -/
def dropGap? : Nat → Text → Option Text
  | 0, text => some text
  | steps + 1, text => do
      let rest ← dropComment? (dropInline text)
      match dropNewline? rest with
      | some following => dropGap? steps following
      | none => some rest

/-- Whether a character can stand in a key without quotes. -/
def isBareKeyChar (char : Char) : Bool :=
  char.isAlphanum || char == '_' || char == '-'

/-- One part of a key. -/
def simpleKey? (text : Text) : Option (Text × Text) :=
  match text with
  | '"' :: rest => basicString? (rest.length + 1) rest
  | '\x27' :: rest => literalString? rest
  | _ =>
      let name := text.takeWhile isBareKeyChar
      if name.isEmpty then none else some (name, text.drop name.length)

/-- A key: parts with dots between them, blanks allowed around each. -/
def key? : Nat → Text → Option (List Text × Text)
  | 0, _ => none
  | steps + 1, text => do
      let (part, rest) ← simpleKey? (dropInline text)
      match dropInline rest with
      | '.' :: following =>
          let (path, left) ← key? steps following
          some (part :: path, left)
      | left => some ([part], left)

mutual

/-- A value. -/
def value? : Nat → Text → Option (Value × Text)
  | 0, _ => none
  | steps + 1, text =>
      match text with
      | '[' :: rest => do
          let (elements, left) ← elements? steps rest
          some (.array false elements, left)
      | '\x7b' :: rest => do
          let (entries, left) ← inlineEntries? steps [] rest
          some (.table .inline entries, left)
      | '"' :: _ => (string? text).map fun (content, left) => (.string content, left)
      | '\x27' :: _ => (string? text).map fun (content, left) => (.string content, left)
      | _ => bareScalar? text

/-- The elements of an array after its opening bracket or a comma. -/
def elements? : Nat → Text → Option (List Value × Text)
  | 0, _ => none
  | steps + 1, text => do
      match ← dropGap? text.length text with
      | ']' :: left => some ([], left)
      | start =>
          let (element, rest) ← value? steps start
          match ← dropGap? rest.length rest with
          | ']' :: left => some ([element], left)
          | ',' :: following =>
              let (elements, left) ← elements? steps following
              some (element :: elements, left)
          | _ => none

/-- The entries of an inline table after its opening brace or a comma. -/
def inlineEntries? : Nat → Entries → Text → Option (Entries × Text)
  | 0, _, _ => none
  | steps + 1, entries, text => do
      match ← dropGap? text.length text with
      | '\x7d' :: left => some (entries, left)
      | start =>
          let (path, rest) ← key? start.length start
          let (value, rest) ← value? steps (dropInline (← drop? '=' rest))
          let entries ← entries.setDotted? path value
          match ← dropGap? rest.length rest with
          | '\x7d' :: left => some (entries, left)
          | ',' :: following => inlineEntries? steps entries following
          | _ => none

end

/-- The text after a key of a header and its closing bracket. -/
def headerKey? (text : Text) : Option (List Text × Text) := do
  let (path, rest) ← key? text.length text
  some (path, ← drop? ']' rest)

/--
The tables of a document from a line on. The path is that of the last header,
whose table the keys belong to.
-/
def lines? : Nat → List Text → Entries → Text → Option Entries
  | 0, _, entries, text => if text.isEmpty then some entries else none
  | steps + 1, path, entries, text =>
      match dropInline text with
      | [] => some entries
      | '[' :: '[' :: rest => do
          let (path, rest) ← headerKey? rest
          let rest ← dropLineEnd? (← drop? ']' rest)
          lines? steps path (← entries.openElement? path) rest
      | '[' :: rest => do
          let (path, rest) ← headerKey? rest
          let rest ← dropLineEnd? rest
          lines? steps path (← entries.openTable? path) rest
      | start =>
          if start.head? == some '#' || (dropNewline? start).isSome then do
            lines? steps path entries (← dropLineEnd? start)
          else do
            let (key, rest) ← key? start.length start
            let (value, rest) ← value? (rest.length + 1) (dropInline (← drop? '=' rest))
            let entries ← Entries.changeAt? .implied (·.setDotted? key value) path entries
            lines? steps path entries (← dropLineEnd? rest)

/-- The table that a document stands for; a byte order mark in front is ignored. -/
def parse? (text : Text) : Option Entries :=
  let body := if text.head? == some (Char.ofNat 0xFEFF) then text.drop 1 else text
  lines? (body.length + 1) [] [] body

end Toml

end RoutineServer
