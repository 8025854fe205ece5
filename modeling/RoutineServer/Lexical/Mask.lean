import RoutineServer.Lexical.Mode

namespace RoutineServer

/-!
# The code mask

Searches for keywords must not see strings, quoted identifiers and comments.
The mask of a document shows its code and its newlines, and blanks in place of
all other bytes, so that places and line numbers stay what they are.
-/

namespace Glyph

/-- The character that the mask shows in place of a glyph. -/
def shown (glyph : Glyph) : Char :=
  if glyph.isCode || glyph.char == '\n' then glyph.char else ' '

/-- The part of the mask that stands for one glyph, byte for byte. -/
def masked (glyph : Glyph) : Text :=
  if glyph.isCode || glyph.char == '\n' then [glyph.char]
  else List.replicate glyph.char.utf8Size ' '

/-- What the mask shows of a list of glyphs, one character a glyph. -/
def code (glyphs : List Glyph) : Text :=
  glyphs.map shown

end Glyph

/-- The mask of a document, as long as its text in bytes. -/
def maskedText (text : Text) : Text :=
  (scan text).flatMap Glyph.masked

/-- Whether the byte at an offset of a document is code. -/
def isCodeAt (text : Text) (offset : Nat) : Bool :=
  (byteModes (scan text))[offset]? == some .code

theorem Text.byteLength_replicate_blank
    (count : Nat) :
    Text.byteLength (List.replicate count ' ') = count := by
  induction count with
  | zero =>
      rfl
  | succ less inductionHypothesis =>
      have one : Char.utf8Size ' ' = 1 := by decide
      rw [List.replicate_succ, Text.byteLength_cons, inductionHypothesis, one]
      omega

/-- A glyph and the part of the mask that stands for it have the same size. -/
theorem Glyph.byteLength_masked
    (glyph : Glyph) :
    Text.byteLength glyph.masked = glyph.char.utf8Size := by
  simp only [Glyph.masked]
  cases visible : glyph.isCode || glyph.char == '\n' with
  | true => simp
  | false => simp [Text.byteLength_replicate_blank]

/-- Glyphs and their part of the mask have the same size. -/
theorem Glyph.byteLength_flatMap_masked
    (glyphs : List Glyph) :
    Text.byteLength (glyphs.flatMap Glyph.masked) = Glyph.byteLength glyphs := by
  induction glyphs with
  | nil => rfl
  | cons glyph rest inductionHypothesis =>
      simp only [List.flatMap_cons, Text.byteLength_append, inductionHypothesis,
        Glyph.byteLength_masked, Glyph.byteLength, Glyph.chars, List.map_cons,
        Text.byteLength_cons]

/-- The mask has the byte length of the text. -/
theorem byteLength_maskedText
    (text : Text) :
    Text.byteLength (maskedText text) = Text.byteLength text := by
  rw [maskedText, Glyph.byteLength_flatMap_masked, Glyph.byteLength, scan, chars_scanFrom]

end RoutineServer
