import RoutineServer.Toml.Value
import RoutineServer.Uri.Percent

namespace RoutineServer

/-!
# TOML scalars

Strings in their four forms, numbers, booleans and dates. A reader takes the
text at hand and answers a value and the text that is left, or nothing if the
text is malformed. Readers that repeat take a number of steps, which the length
of the text bounds.
-/

namespace Toml

/-- Whether a character may stand in a string or a comment of one line. -/
def isPlain (char : Char) : Bool :=
  char == '\t' || (0x20 ≤ char.toNat && char.toNat != 0x7F)

/-- Whether a character is a blank inside a line. -/
def isInlineBlank (char : Char) : Bool :=
  char == ' ' || char == '\t'

/-- The text after a line break at the start of a text. -/
def dropNewline? : Text → Option Text
  | '\n' :: rest => some rest
  | '\r' :: '\n' :: rest => some rest
  | _ => none

/-- The character with a code point, if it is one. -/
def scalar? (codePoint : Nat) : Option Char :=
  if codePoint < 0xD800 || (0xDFFF < codePoint && codePoint < 0x110000) then
    some (Char.ofNat codePoint)
  else
    none

/-- A number of the given count of hexadecimal digits, and the rest. -/
def hexNumber? (count : Nat) (text : Text) : Option (Nat × Text) := do
  let digits ← (text.take count).mapM Percent.hexValue?
  if digits.length == count then
    some (digits.foldl (fun value digit => 16 * value + digit) 0, text.drop count)
  else
    none

/-- The character that an escape stands for; the text follows the backslash. -/
def escape? : Text → Option (Char × Text)
  | 'b' :: rest => some ('\x08', rest)
  | 't' :: rest => some ('\t', rest)
  | 'n' :: rest => some ('\n', rest)
  | 'f' :: rest => some ('\x0c', rest)
  | 'r' :: rest => some ('\r', rest)
  | 'e' :: rest => some ('\x1b', rest)
  | '"' :: rest => some ('"', rest)
  | '\\' :: rest => some ('\\', rest)
  | 'x' :: rest => coded 2 rest
  | 'u' :: rest => coded 4 rest
  | 'U' :: rest => coded 8 rest
  | _ => none
where
  /-- An escape by code point. -/
  coded (count : Nat) (text : Text) : Option (Char × Text) := do
    let (codePoint, rest) ← hexNumber? count text
    some (← scalar? codePoint, rest)

/-- The rest of a string in double quotes. -/
def basicString? : Nat → Text → Option (Text × Text)
  | 0, _ => none
  | _ + 1, [] => none
  | steps + 1, char :: rest =>
      if char == '"' then
        some ([], rest)
      else if char == '\\' then do
        let (escaped, following) ← escape? rest
        let (content, left) ← basicString? steps following
        some (escaped :: content, left)
      else if isPlain char then do
        let (content, left) ← basicString? steps rest
        some (char :: content, left)
      else
        none

/-- The rest of a string in single quotes. -/
def literalString? : Text → Option (Text × Text)
  | [] => none
  | char :: rest =>
      if char == '\x27' then some ([], rest)
      else if isPlain char then do
        let (content, left) ← literalString? rest
        some (char :: content, left)
      else none

/-- Drop blanks and line breaks. -/
def dropLineBlanks : Nat → Text → Text
  | 0, text => text
  | _ + 1, [] => []
  | steps + 1, char :: rest =>
      if isInlineBlank char then dropLineBlanks steps rest
      else
        match dropNewline? (char :: rest) with
        | some following => dropLineBlanks steps following
        | none => char :: rest

/-- The text after the blanks of a line and its break. -/
def dropBlankLine? (text : Text) : Option Text :=
  dropNewline? (text.dropWhile isInlineBlank)

/--
The rest of a string over several lines, with the given quote. Up to two quotes
may stand right before the closing three. Escapes count in double quotes only;
a backslash at the end of a line joins it with the next text.
-/
def multilineString? (quote : Char) : Nat → Text → Option (Text × Text)
  | 0, _ => none
  | _ + 1, [] => none
  | steps + 1, char :: rest =>
      if char == quote then
        let quotes := ((char :: rest).takeWhile (· == quote)).length
        if 3 ≤ quotes then
          let taken := min quotes 5
          some (List.replicate (taken - 3) quote, (char :: rest).drop taken)
        else do
          let (content, left) ← multilineString? quote steps rest
          some (char :: content, left)
      else if char == '\\' && quote == '"' then
        match dropBlankLine? rest with
        | some following =>
            multilineString? quote steps (dropLineBlanks following.length following)
        | none => do
            let (escaped, following) ← escape? rest
            let (content, left) ← multilineString? quote steps following
            some (escaped :: content, left)
      else if isPlain char || (dropNewline? (char :: rest)).isSome then do
        let (content, left) ← multilineString? quote steps rest
        some (char :: content, left)
      else
        none

/-- A string in any of its forms. -/
def string? (text : Text) : Option (Text × Text) :=
  let multiline (quote : Char) (rest : Text) : Option (Text × Text) :=
    multilineString? quote (rest.length + 1) ((dropNewline? rest).getD rest)
  match text with
  | '"' :: '"' :: '"' :: rest => multiline '"' rest
  | '\x27' :: '\x27' :: '\x27' :: rest => multiline '\x27' rest
  | '"' :: rest => basicString? (rest.length + 1) rest
  | '\x27' :: rest => literalString? rest
  | _ => none

/-- The value of digits of a base, with single underscores between them. -/
def digits? (base : Nat) (text : Text) : Option Nat :=
  let rec go (value : Nat) (afterDigit : Bool) : Text → Option Nat
    | [] => if afterDigit then some value else none
    | char :: rest =>
        if char == '_' then
          if afterDigit && !rest.isEmpty then go value false rest else none
        else
          match Percent.hexValue? char with
          | some digit => if digit < base then go (base * value + digit) true rest else none
          | none => none
  go 0 false text

/-- A text without its sign, and whether the sign is a minus. -/
def dropSign : Text → Bool × Text
  | '-' :: rest => (true, rest)
  | '+' :: rest => (false, rest)
  | text => (false, text)

/-- The value of decimal digits without a needless zero in front. -/
def decimal? (text : Text) : Option Nat :=
  match text with
  | '0' :: _ :: _ => none
  | _ => digits? 10 text

/-- The integers that fit into 128 bits, with a sign or without. -/
def fits128 (value : Int) : Bool :=
  -170141183460469231731687303715884105728 ≤ value &&
    value < 340282366920938463463374607431768211456

/-- An integer: decimal with a sign, or hexadecimal, octal or binary without one. -/
def integer? (text : Text) : Option Int := do
  let value ←
    match text with
    | '0' :: 'x' :: digits => (digits? 16 digits).map Int.ofNat
    | '0' :: 'o' :: digits => (digits? 8 digits).map Int.ofNat
    | '0' :: 'b' :: digits => (digits? 2 digits).map Int.ofNat
    | _ =>
        let (negative, digits) := dropSign text
        (decimal? digits).map fun value : Nat => if negative then -(value : Int) else value
  if fits128 value then some value else none

/-- Whether a text is a number with a fraction or an exponent, or no number at all. -/
def isFloat (text : Text) : Bool :=
  let magnitude := (dropSign text).2
  if magnitude == "inf".toList || magnitude == "nan".toList then
    true
  else
    let isMark (char : Char) : Bool := char == 'e' || char == 'E'
    let mantissa := magnitude.takeWhile (!isMark ·)
    let exponent := magnitude.drop mantissa.length
    let whole := mantissa.takeWhile (· != '.')
    let fraction := mantissa.drop whole.length
    let hasWhole := (decimal? whole).isSome
    let fractionOk := fraction.isEmpty || (digits? 10 (fraction.drop 1)).isSome
    let exponentOk := exponent.isEmpty || (digits? 10 (dropSign (exponent.drop 1)).2).isSome
    hasWhole && fractionOk && exponentOk && !(fraction.isEmpty && exponent.isEmpty)

/-- A number of exactly so many decimal digits between two bounds, and the rest. -/
def field? (count low high : Nat) (text : Text) : Option (Nat × Text) := do
  let digits := text.take count
  if digits.length == count && digits.all Char.isDigit then
    let value ← digits? 10 digits
    if low ≤ value && value ≤ high then some (value, text.drop count) else none
  else
    none

/-- The text after an expected character. -/
def drop? (expected : Char) : Text → Option Text
  | [] => none
  | char :: rest => if char == expected then some rest else none

/-- The number of days of a month. -/
def daysOfMonth (year month : Nat) : Nat :=
  if month == 2 then
    if (year % 4 == 0 && year % 100 != 0) || year % 400 == 0 then 29 else 28
  else if month == 4 || month == 6 || month == 9 || month == 11 then 30
  else 31

/-- The text after a date. -/
def dropDate? (text : Text) : Option Text := do
  let (year, rest) ← field? 4 0 9999 text
  let (month, rest) ← field? 2 1 12 (← drop? '-' rest)
  let (_, rest) ← field? 2 1 (daysOfMonth year month) (← drop? '-' rest)
  some rest

/-- The text after the fraction of a second, if there is one. -/
def dropFraction? : Text → Option Text
  | '.' :: rest =>
      let digits := rest.takeWhile Char.isDigit
      if digits.isEmpty then none else some (rest.drop digits.length)
  | text => some text

/-- The text after a time of day; seconds may be missing. -/
def dropTime? (text : Text) : Option Text := do
  let (_, rest) ← field? 2 0 23 text
  let (_, rest) ← field? 2 0 59 (← drop? ':' rest)
  match rest with
  | ':' :: following =>
      let (_, rest) ← field? 2 0 60 following
      dropFraction? rest
  | _ => some rest

/-- The text after an offset from universal time, if there is one. -/
def dropOffset? : Text → Option Text
  | [] => some []
  | char :: rest =>
      if char == 'Z' || char == 'z' then some rest
      else if char == '+' || char == '-' then do
        let (_, following) ← field? 2 0 23 rest
        let (_, left) ← field? 2 0 59 (← drop? ':' following)
        some left
      else some (char :: rest)

/-- Whether a text is a date, a time, or a date and a time. -/
def isDatetime (text : Text) : Bool :=
  match dropDate? text with
  | some [] => true
  | some (mark :: rest) =>
      (mark == 'T' || mark == 't' || mark == ' ') &&
        ((dropTime? rest).bind dropOffset?).any List.isEmpty
  | none => (dropTime? text).any List.isEmpty

/-- Whether a character can stand in a number, a date or a boolean. -/
def isScalarChar (char : Char) : Bool :=
  char.isAlphanum || char == '+' || char == '-' || char == '_' || char == '.' || char == ':'

/-- The length of the unquoted scalar at the start of a text; a blank may part date and time. -/
def scalarLength (text : Text) : Nat :=
  let word := text.takeWhile isScalarChar
  match dropDate? word, text.drop word.length with
  | some [], ' ' :: digit :: rest =>
      if digit.isDigit then word.length + 1 + ((digit :: rest).takeWhile isScalarChar).length
      else word.length
  | _, _ => word.length

/-- A number, a date or a boolean. -/
def bareScalar? (text : Text) : Option (Value × Text) :=
  let length := scalarLength text
  let word := text.take length
  let rest := text.drop length
  if word == "true".toList then some (.boolean true, rest)
  else if word == "false".toList then some (.boolean false, rest)
  else
    match integer? word with
    | some value => some (.integer value, rest)
    | none =>
        if isFloat word then some (.float, rest)
        else if isDatetime word then some (.datetime, rest)
        else none

end Toml

end RoutineServer
