import RoutineServer.Text.Basic

namespace RoutineServer

/-!
# Blank characters

The characters with the Unicode property `White_Space`, and the removal of
blanks from the ends of a text.
-/

/-- Whether a character has the property `White_Space`. -/
def isBlank (char : Char) : Bool :=
  let codePoint := char.toNat
  (0x09 ≤ codePoint && codePoint ≤ 0x0D) || codePoint == 0x20 ||
    codePoint == 0x85 || codePoint == 0xA0 || codePoint == 0x1680 ||
    (0x2000 ≤ codePoint && codePoint ≤ 0x200A) || codePoint == 0x2028 ||
    codePoint == 0x2029 || codePoint == 0x202F || codePoint == 0x205F ||
    codePoint == 0x3000

namespace Text

/-- The text without its leading blanks. -/
def trimStart (text : Text) : Text :=
  text.dropWhile isBlank

/-- The text without its trailing blanks. -/
def trimEnd (text : Text) : Text :=
  (text.reverse.dropWhile isBlank).reverse

/-- The text without the blanks at its ends. -/
def trim (text : Text) : Text :=
  trimEnd (trimStart text)

/-- The number of leading blanks. -/
def leadingBlanks (text : Text) : Nat :=
  (text.takeWhile isBlank).length

end Text

end RoutineServer
