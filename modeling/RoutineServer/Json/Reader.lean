import RoutineServer.Json.Basic

namespace RoutineServer

/-!
# Reading JSON

If an object has two entries with the same name, the later one counts.
-/

namespace Json

/-- Whether a character is a blank between the parts of a value. -/
def isGap (char : Char) : Bool :=
  char == ' ' || char == '\t' || char == '\n' || char == '\r'

/-- A text without leading blanks. -/
def dropGap (text : Text) : Text :=
  text.dropWhile isGap

/-- The value of a hexadecimal digit. -/
def hexValue? (char : Char) : Option Nat :=
  if char.isDigit then some (char.toNat - 0x30)
  else if 'a' ≤ char && char ≤ 'f' then some (char.toNat - 0x57)
  else if 'A' ≤ char && char ≤ 'F' then some (char.toNat - 0x37)
  else none

/-- A number of four hexadecimal digits, and the rest. -/
def fourDigits? : Text → Option (Nat × Text)
  | first :: second :: third :: fourth :: rest => do
      let high := 16 * (← hexValue? first) + (← hexValue? second)
      let low := 16 * (← hexValue? third) + (← hexValue? fourth)
      some (256 * high + low, rest)
  | _ => none

/-- The character after a backslash and a `u`; one beyond 16 bits takes two such escapes. -/
def unicodeEscape? (text : Text) : Option (Char × Text) := do
  let (unit, rest) ← fourDigits? text
  if 0xDC00 ≤ unit && unit < 0xE000 then
    none
  else if 0xD800 ≤ unit && unit < 0xDC00 then
    match rest with
    | '\\' :: 'u' :: following =>
        let (low, left) ← fourDigits? following
        if 0xDC00 ≤ low && low < 0xE000 then
          some (Char.ofNat (0x10000 + 0x400 * (unit - 0xD800) + (low - 0xDC00)), left)
        else
          none
    | _ => none
  else
    some (Char.ofNat unit, rest)

/-- The character after a backslash, and the rest. -/
def escape? : Text → Option (Char × Text)
  | 'u' :: rest => unicodeEscape? rest
  | char :: rest =>
      if char == '"' || char == '\\' || char == '/' then some (char, rest)
      else if char == 'n' then some ('\n', rest)
      else if char == 'r' then some ('\r', rest)
      else if char == 't' then some ('\t', rest)
      else if char == 'b' then some (Char.ofNat 0x08, rest)
      else if char == 'f' then some (Char.ofNat 0x0C, rest)
      else none
  | [] => none

/-- A text after its opening quote, and what follows the closing one. -/
def textBody? : Nat → Text → Option (Text × Text)
  | 0, _ => none
  | _ + 1, [] => none
  | steps + 1, char :: rest =>
      if char == '"' then
        some ([], rest)
      else if char == '\\' then do
        let (char, following) ← escape? rest
        let (text, left) ← textBody? steps following
        some (char :: text, left)
      else if char.toNat < 0x20 then
        none
      else do
        let (text, left) ← textBody? steps rest
        some (char :: text, left)

/-- Whether a character can stand in a number. -/
def isNumberChar (char : Char) : Bool :=
  char.isDigit || char == '-' || char == '+' || char == '.' || char == 'e' || char == 'E'

/-- Whether a text is a whole number without a leading zero. -/
def isWhole (digits : Text) : Bool :=
  !digits.isEmpty && digits.all Char.isDigit && (digits.length == 1 || digits.head? != some '0')

/-- Whether a text is empty, or a mark, a possible sign and digits. -/
def isExponent : Text → Bool
  | [] => true
  | _ :: sign :: digits =>
      if sign == '+' || sign == '-' then !digits.isEmpty && digits.all Char.isDigit
      else (sign :: digits).all Char.isDigit
  | _ => false

/-- The number that a text stands for. -/
def number? (text : Text) : Option Json :=
  let negative := text.head? == some '-'
  let magnitude := if negative then text.drop 1 else text
  let whole := magnitude.takeWhile Char.isDigit
  let tail := magnitude.drop whole.length
  if !isWhole whole then
    none
  else if tail.isEmpty then
    let value : Nat := whole.foldl (fun value digit => 10 * value + (digit.toNat - 0x30)) 0
    if negative && value == 0 then some (.fraction text)
    else some (.integer (if negative then -(value : Int) else value))
  else
    let isMark (char : Char) : Bool := char == 'e' || char == 'E'
    let point := tail.takeWhile (!isMark ·)
    let pointOk :=
      match point with
      | [] => true
      | mark :: digits => mark == '.' && !digits.isEmpty && digits.all Char.isDigit
    if pointOk && isExponent (tail.drop point.length) then some (.fraction text) else none

/-- Set an entry of an object. -/
def setEntry (entries : List (Text × Json)) (name : Text) (value : Json) : List (Text × Json) :=
  entries.filter (·.1 != name) ++ [(name, value)]

mutual

/-- A value, and what follows it. -/
def value? : Nat → Text → Option (Json × Text)
  | 0, _ => none
  | steps + 1, text =>
      match dropGap text with
      | '"' :: rest => do
          let (content, left) ← textBody? (rest.length + 1) rest
          some (.string content, left)
      | '[' :: rest =>
          match dropGap rest with
          | ']' :: left => some (.array [], left)
          | start => do
              let (elements, left) ← elements? steps start
              some (.array elements, left)
      | '\x7b' :: rest =>
          match dropGap rest with
          | '\x7d' :: left => some (.object [], left)
          | start => do
              let (entries, left) ← entries? steps [] start
              some (.object entries, left)
      | 'n' :: 'u' :: 'l' :: 'l' :: left => some (.null, left)
      | 't' :: 'r' :: 'u' :: 'e' :: left => some (.bool true, left)
      | 'f' :: 'a' :: 'l' :: 's' :: 'e' :: left => some (.bool false, left)
      | start => do
          let word := start.takeWhile isNumberChar
          some (← number? word, start.drop word.length)

/-- The elements of an array, and what follows its closing bracket. -/
def elements? : Nat → Text → Option (List Json × Text)
  | 0, _ => none
  | steps + 1, text => do
      let (element, rest) ← value? steps text
      match dropGap rest with
      | ']' :: left => some ([element], left)
      | ',' :: following =>
          let (elements, left) ← elements? steps following
          some (element :: elements, left)
      | _ => none

/-- The entries of an object, and what follows its closing brace. -/
def entries? : Nat → List (Text × Json) → Text → Option (List (Text × Json) × Text)
  | 0, _, _ => none
  | steps + 1, entries, text => do
      match dropGap text with
      | '"' :: rest =>
          let (name, rest) ← textBody? (rest.length + 1) rest
          match dropGap rest with
          | ':' :: following =>
              let (value, rest) ← value? steps following
              let entries := setEntry entries name value
              match dropGap rest with
              | '\x7d' :: left => some (entries, left)
              | ',' :: following => entries? steps entries following
              | _ => none
          | _ => none
      | _ => none

end

/-- Read a text that holds one value. -/
def parse? (text : Text) : Option Json := do
  let (value, rest) ← value? (text.length + 1) text
  if (dropGap rest).isEmpty then some value else none

end Json

end RoutineServer
