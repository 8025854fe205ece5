import RoutineServer.Text.Blank
import RoutineServer.Lexical.Mode

namespace RoutineServer

/-!
# Parentheses and commas in code

Matching a parenthesis with its partner, and taking a parameter list apart at
its commas. Only code counts: parentheses and commas inside strings, quoted
identifiers and comments are passed over.

Depths are natural numbers without a bound, as are the counts of commas: a text
of less than four gibibytes has no more of them than 32 bits can tell.
-/

/-- How many parentheses are open after a glyph; a stray closing one is ignored. -/
def depthAfter (depth : Nat) (glyph : Glyph) : Nat :=
  if glyph.isCodeChar '(' then depth + 1
  else if glyph.isCodeChar ')' then depth - 1
  else depth

/--
The number of glyphs before the parenthesis that closes the one already open,
when `depth` further ones have been opened since.
-/
def closingParen? : Nat → List Glyph → Option Nat
  | _, [] => none
  | depth, glyph :: rest =>
      if glyph.isCodeChar ')' && depth == 0 then some 0
      else (closingParen? (depthAfter depth glyph) rest).map (· + 1)

/-- The inside of a pair of parentheses and where the closing one stands. -/
structure Enclosed where
  content : Text
  close : Nat
  deriving Repr, DecidableEq

/-- The text enclosed by the parenthesis at a byte offset, if it is closed. -/
def enclosedAt? (text : Text) (opening : Nat) : Option Enclosed :=
  if Text.charAt? opening text == some '(' then
    let inside := Text.after (opening + 1) text
    (closingParen? 0 (scan inside)).map fun length =>
      let content := inside.take length
      ⟨content, opening + 1 + Text.byteLength content⟩
  else
    none

/-- The number of code commas outside parentheses, from a given depth on. -/
def commasFrom : Nat → List Glyph → Nat
  | _, [] => 0
  | depth, glyph :: rest =>
      if glyph.isCodeChar ',' && depth == 0 then commasFrom depth rest + 1
      else commasFrom (depthAfter depth glyph) rest

/-- The number of commas of a text that stand in code outside parentheses. -/
def topLevelCommas (text : Text) : Nat :=
  commasFrom 0 (scan text)

/--
The pieces between the code commas outside parentheses: the first piece and
the ones after it.
-/
def piecesFrom : Nat → List Glyph → Text × List Text
  | _, [] => ([], [])
  | depth, glyph :: rest =>
      if glyph.isCodeChar ',' && depth == 0 then
        let pieces := piecesFrom depth rest
        ([], pieces.1 :: pieces.2)
      else
        let pieces := piecesFrom (depthAfter depth glyph) rest
        (glyph.char :: pieces.1, pieces.2)

/-- The pieces of a text between its top-level commas. -/
def topLevelPieces (text : Text) : List Text :=
  let pieces := piecesFrom 0 (scan text)
  pieces.1 :: pieces.2

/-- The parameters of a parameter list: its trimmed pieces, less a blank last one. -/
def splitParameters (text : Text) : List Text :=
  let pieces := (topLevelPieces text).map Text.trim
  if pieces.getLast? == some [] then pieces.dropLast else pieces

end RoutineServer
