import RoutineServer.Text.Basic

namespace RoutineServer

/-!
# Lexical modes

SQL text is code, a quoted string, a quoted identifier or a comment. A scan
reads a text from left to right and gives every character the mode it is read
in. Delimiters belong to what they delimit: both quotes of a string are string
characters, and the newline that ends a line comment is a comment character.

There is no escape character. A doubled quote closes a string and opens the
next one, which leaves every character in the right mode.
-/

/-- What a character is part of. -/
inductive Mode where
  | code
  | string
  | identifier
  | lineComment
  | blockComment
  deriving Repr, DecidableEq

/-- What a scan has open between two characters. -/
inductive ScanState where
  | code
  | inString
  | inIdentifier
  | inLineComment
  /-- The slash of a block comment has been read, its star has not. -/
  | openingBlockComment
  /-- Inside a block comment, told whether a star that can close it precedes. -/
  | inBlockComment (afterStar : Bool)
  deriving Repr, DecidableEq

namespace ScanState

/--
Read one character, knowing the one after it.

The result is the character's mode and what is open after it. The star of an
opening delimiter cannot close the comment, so a comment opened by `/*` and
followed by a slash stays open.
-/
def step
    (state : ScanState)
    (char : Char)
    (next : Option Char) :
    Mode × ScanState :=
  match state with
  | .code =>
      if char == '-' && next == some '-' then (.lineComment, .inLineComment)
      else if char == '/' && next == some '*' then (.blockComment, .openingBlockComment)
      else if char == '\x27' then (.string, .inString)
      else if char == '"' then (.identifier, .inIdentifier)
      else (.code, .code)
  | .inString => (.string, if char == '\x27' then .code else .inString)
  | .inIdentifier => (.identifier, if char == '"' then .code else .inIdentifier)
  | .inLineComment => (.lineComment, if char == '\n' then .code else .inLineComment)
  | .openingBlockComment => (.blockComment, .inBlockComment false)
  | .inBlockComment afterStar =>
      if afterStar && char == '/' then (.blockComment, .code)
      else (.blockComment, .inBlockComment (char == '*'))

end ScanState

/-- A character of a document together with the mode it is read in. -/
structure Glyph where
  char : Char
  mode : Mode
  deriving Repr, DecidableEq

namespace Glyph

/-- Whether the character is code. -/
def isCode (glyph : Glyph) : Bool :=
  glyph.mode == .code

/-- Whether the glyph is the given character read as code. -/
def isCodeChar (char : Char) (glyph : Glyph) : Bool :=
  glyph.isCode && glyph.char == char

/-- The characters of a list of glyphs. -/
def chars (glyphs : List Glyph) : Text :=
  glyphs.map Glyph.char

/-- The number of bytes that a list of glyphs takes up. -/
def byteLength (glyphs : List Glyph) : Nat :=
  Text.byteLength (chars glyphs)

end Glyph

/-- Scan a text from a given state. -/
def scanFrom : ScanState → Text → List Glyph
  | _, [] => []
  | state, char :: rest =>
      let reading := state.step char rest.head?
      ⟨char, reading.1⟩ :: scanFrom reading.2 rest

/-- Scan a text that starts in code. -/
def scan (text : Text) : List Glyph :=
  scanFrom .code text

/-- Scanning keeps every character in its place. -/
@[simp] theorem chars_scanFrom
    (state : ScanState)
    (text : Text) :
    Glyph.chars (scanFrom state text) = text := by
  induction text generalizing state with
  | nil => rfl
  | cons char rest inductionHypothesis =>
      have tail := inductionHypothesis (state.step char rest.head?).2
      simp only [Glyph.chars] at tail
      simp [scanFrom, Glyph.chars, tail]

/-- A scan has one glyph a character. -/
@[simp] theorem length_scanFrom
    (state : ScanState)
    (text : Text) :
    (scanFrom state text).length = text.length := by
  have same := congrArg List.length (chars_scanFrom state text)
  simpa [Glyph.chars] using same

/-- The mode of each byte of a list of glyphs. -/
def byteModes (glyphs : List Glyph) : List Mode :=
  glyphs.flatMap fun glyph => List.replicate glyph.char.utf8Size glyph.mode

/--
The mode of each byte of a text from an offset on, scanned as if code started
there. Bytes left over from a character that the offset cuts are code.
-/
def byteModesFrom (offset : Nat) (text : Text) : List Mode :=
  let cut := Text.byteLength (Text.before offset text) - offset
  List.replicate cut .code ++ byteModes (scan (Text.after offset text))

end RoutineServer
