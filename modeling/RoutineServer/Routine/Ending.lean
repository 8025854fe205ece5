import RoutineServer.Text.Pattern
import RoutineServer.Lexical.Mask

namespace RoutineServer

/-!
# Where a declaration ends

A routine's body is a block from `BEGIN` to its `END`, with blocks and `CASE`
expressions nested inside, usually between dollar quotes. The declaration ends
with the outer `END`, its label and its semicolon. A declaration without a
block ends at the first semicolon outside dollar quotes. Where neither is
found, the first `END` with a semicolon ends it, then the first semicolon, then
the end of the region.

All places are numbers of characters of the masked region that starts right
after the parameter list. Depths are integers without a bound: a body below two
gibibytes cannot nest deeper than 32 bits can tell.
-/

/-- Whether a character belongs to a keyword. -/
def isKeywordChar (char : Char) : Bool :=
  char.isAlphanum || char == '_'

/-- The length of the dollar-quote tag at the start of a text. -/
def dollarTagLength? : Text → Option Nat
  | '$' :: '$' :: _ => some 2
  | '$' :: char :: rest =>
      if char.isAlpha || char == '_' then
        let label := (char :: rest).takeWhile isKeywordChar
        if ((char :: rest).drop label.length).head? == some '$' then some (label.length + 2)
        else none
      else
        none
  | _ => none

/-- A keyword after blanks: the number of blanks and the word. -/
def nextKeyword? (code : Text) : Option (Nat × Text) :=
  let word := (Text.trimStart code).takeWhile isKeywordChar
  if word.isEmpty then none else some (Text.leadingBlanks code, word)

/-- The number of characters up to and including a semicolon after blanks. -/
def semicolonAfterBlanks? (code : Text) : Option Nat :=
  if (Text.trimStart code).head? == some ';' then some (Text.leadingBlanks code + 1) else none

/--
The number of characters that end a block after its `END`: a semicolon, or a
label and a semicolon, or nothing.
-/
def terminatorLength (code : Text) : Nat :=
  match semicolonAfterBlanks? code with
  | some length => length
  | none =>
      match nextKeyword? code with
      | none => 0
      | some (blanks, label) =>
          match semicolonAfterBlanks? (code.drop (blanks + label.length)) with
          | some length => blanks + label.length + length
          | none => 0

/-- What a walk through a body has met so far. -/
structure BlockWalk where
  /-- Blocks and `CASE` expressions that are open. -/
  depth : Int
  /-- Whether a block has begun. -/
  begun : Bool
  /-- Whether the declarations before a block are being read. -/
  declaring : Bool
  /-- The dollar quote that is open. -/
  quote : Option Text
  deriving Repr, DecidableEq

/-- What a keyword means for a walk. -/
inductive BlockMove where
  /-- The declaration ends this many characters after the keyword. -/
  | finish (length : Nat)
  /-- The walk goes on, with this many characters after the keyword read too. -/
  | resume (walk : BlockWalk) (readAhead : Nat)
  deriving Repr, DecidableEq

namespace BlockWalk

/-- Nothing has been met. -/
def start : BlockWalk :=
  ⟨0, false, false, none⟩

/-- Meet a dollar-quote tag: it opens a quote, closes its own, or is quoted text. -/
def meetTag (walk : BlockWalk) (tag : Text) : BlockWalk :=
  match walk.quote with
  | none => { walk with quote := some tag }
  | some opened => if opened == tag then { walk with quote := none } else walk

/-- Whether a semicolon here ends the statement. -/
def endsAtSemicolon (walk : BlockWalk) : Bool :=
  walk.quote.isNone && !walk.begun && !walk.declaring

/-- Close one level, which ends the declaration if it was the outermost block. -/
def closeLevel (walk : BlockWalk) (following : Text) : BlockMove :=
  let closed := { walk with depth := walk.depth - 1 }
  if closed.begun && closed.depth ≤ 0 then .finish (terminatorLength following)
  else .resume closed 0

/--
Meet the keyword `END`. Before `IF` and `LOOP` it closes nothing that is
counted; before `CASE` it closes that; otherwise it closes a block or a `CASE`.
-/
def meetEnd (walk : BlockWalk) (following : Text) : BlockMove :=
  match nextKeyword? following with
  | none => walk.closeLevel following
  | some (blanks, word) =>
      if Text.equalAsciiCase word "if".toList || Text.equalAsciiCase word "loop".toList then
        .resume walk (blanks + word.length)
      else if Text.equalAsciiCase word "case".toList then
        .resume { walk with depth := walk.depth - 1 } (blanks + word.length)
      else
        walk.closeLevel following

/-- Meet a word, knowing the text that follows it. -/
def meetWord (walk : BlockWalk) (word following : Text) : BlockMove :=
  if Text.equalAsciiCase word "declare".toList then
    .resume { walk with declaring := true } 0
  else if Text.equalAsciiCase word "begin".toList then
    .resume { walk with depth := walk.depth + 1, begun := true, declaring := false } 0
  else if Text.equalAsciiCase word "case".toList then
    .resume { walk with depth := walk.depth + 1 } 0
  else if Text.equalAsciiCase word "end".toList then
    walk.meetEnd following
  else
    .resume walk 0

/--
Walk through a masked text until the declaration ends. The second argument is
the number of characters that have already been read as part of a tag or word.
-/
def run : BlockWalk → Nat → Text → Option Nat
  | _, _, [] => none
  | walk, skip + 1, _ :: rest => (run walk skip rest).map (· + 1)
  | walk, 0, char :: rest =>
      match dollarTagLength? (char :: rest) with
      | some length =>
          (run (walk.meetTag ((char :: rest).take length)) (length - 1) rest).map (· + 1)
      | none =>
          if char == ';' && walk.endsAtSemicolon then
            some 1
          else if isKeywordChar char then
            let more := rest.takeWhile isKeywordChar
            match walk.meetWord (char :: more) (rest.drop more.length) with
            | .finish length => some (more.length + 1 + length)
            | .resume resumed readAhead =>
                (run resumed (more.length + readAhead) rest).map (· + 1)
          else
            (run walk 0 rest).map (· + 1)

end BlockWalk

/-- The length of `END`, blanks and a semicolon at the start of a text. -/
def endStatementAt? (previous : Option Char) (code : Text) : Option Nat :=
  if Text.wordStart previous then
    ((Text.dropFolded? "end".toList code).bind semicolonAfterBlanks?).map (· + 3)
  else
    none

/-- The number of characters up to the end of the first `END` with a semicolon. -/
def endStatementEnd? : Option Char → Text → Option Nat
  | _, [] => none
  | previous, char :: rest =>
      match endStatementAt? previous (char :: rest) with
      | some length => some length
      | none => (endStatementEnd? (some char) rest).map (· + 1)

/-- Whether a text of its own has an `END` with a semicolon. -/
def hasEndStatement (code : Text) : Bool :=
  (endStatementEnd? none code).isSome

/--
The number of characters of a masked region that belong to the declaration,
given the character in front of the region.
-/
def endingLength (previous : Option Char) (code : Text) : Nat :=
  match BlockWalk.start.run 0 code with
  | some length => length
  | none =>
      match endStatementEnd? previous code with
      | some length => length
      | none =>
          match code.findIdx? (· == ';') with
          | some index => index + 1
          | none => code.length

/-- Whether keywords settle where a declaration ends, a walk or an `END` with a semicolon. -/
def endsByKeyword (previous : Option Char) (code : Text) : Bool :=
  (BlockWalk.start.run 0 code).isSome || (endStatementEnd? previous code).isSome

/--
The byte offset where a declaration ends whose parameter list ends at
`start`, when it cannot reach past `limit`.

The region is cut out of the mask, so there is no answer for a limit inside of a
character that the mask shows. For a start inside of one there is an answer only
if keywords settle the end.
-/
def declarationEnd? (text : Text) (start limit : Nat) : Option Nat :=
  let limit := min limit (Text.byteLength text)
  let isWhole (offset : Nat) : Bool := Text.isBoundary offset (maskedText text)
  if limit ≤ start then
    some limit
  else
    let glyphs := (scan text).take (Text.index limit text)
    let first := Text.index start text
    let previous := (Glyph.code (glyphs.take first)).getLast?
    let code := Glyph.code (glyphs.drop first)
    if isWhole limit && (isWhole start || endsByKeyword previous code) then
      -- A limit between the blanks of a hidden character is reached, but not passed.
      some (min limit (Glyph.byteLength (glyphs.take (first + endingLength previous code))))
    else
      none

end RoutineServer
