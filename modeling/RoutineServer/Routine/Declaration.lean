import RoutineServer.Text.Lower
import RoutineServer.Lexical.Parens
import RoutineServer.Routine.Anchor
import RoutineServer.Routine.Ending
import RoutineServer.Routine.Name

namespace RoutineServer

/-!
# Declarations

The declarations of a document, found without a grammar of SQL. An anchor, a
name and a closed parameter list make a declaration; what stands between them
is passed over. The part of the text that a declaration can take up, its
region, reaches to the next anchor, so that a malformed statement never hides
the one after it.
-/

/-- A declared routine. Places are byte offsets into the document. -/
structure Declaration where
  /-- The name as it is spelled. -/
  spelling : Text
  /-- The name in normal form. -/
  name : Text
  kind : RoutineKind
  /-- What stands between the parentheses of the parameter list. -/
  parameters : Text
  start : Nat
  stop : Nat
  nameStart : Nat
  paramsOpen : Nat
  paramsClose : Nat
  deriving Repr, DecidableEq

namespace Declaration

/-- All of the declaration. -/
def span (declaration : Declaration) : Span :=
  ⟨declaration.start, declaration.stop⟩

/-- The name as it is spelled. -/
def nameSpan (declaration : Declaration) : Span :=
  ⟨declaration.nameStart, declaration.nameStart + Text.byteLength declaration.spelling⟩

/-- Whether an offset lies in the declaration. -/
def contains (declaration : Declaration) (offset : Nat) : Bool :=
  declaration.span.contains offset

/-- Whether a name in normal form names the declaration, letter case ignored. -/
def isNamed (declaration : Declaration) (name : Text) : Bool :=
  Text.lower declaration.name == Text.lower name

/-- The single parameters. -/
def parameterList (declaration : Declaration) : List Text :=
  splitParameters declaration.parameters

/-- The first declaration that a name stands for. -/
def find? (declarations : List Declaration) (name : Text) : Option Declaration :=
  declarations.find? (isNamed · (Name.normalize name))

/--
Read the declaration that starts with an anchor.

The glyphs are those of the document from the anchor on, and `start` is the
anchor's byte offset. The result is the declaration and the number of its
characters.
-/
def read?
    (anchor : Anchor)
    (start : Nat)
    (glyphs : List Glyph) :
    Option (Declaration × Nat) := do
  let head := glyphs.take anchor.length
  let tail := glyphs.drop anchor.length
  let region := tail.take (Anchor.distance (Glyph.code head).getLast? (Glyph.code tail))
  let offsetOf (count : Nat) : Nat := start + Glyph.byteLength (glyphs.take (anchor.length + count))
  let reading ← Name.read? (Glyph.chars region)
  let name := Name.normalize reading.spelling
  let nameEnd := reading.skipped + reading.spelling.length
  let opening := nameEnd + (← (Glyph.code (region.drop nameEnd)).findIdx? (· == '('))
  let inside := Glyph.chars (tail.drop (opening + 1))
  let closing := opening + 1 + (← closingParen? 0 (scan inside))
  if name.isEmpty || region.length ≤ closing then
    none
  else
    let rest := region.drop (closing + 1)
    let count := closing + 1 + endingLength (some ')') (Glyph.code rest)
    let declaration : Declaration := {
      spelling := reading.spelling
      name := name
      kind := anchor.kind
      parameters := inside.take (closing - (opening + 1))
      start := start
      stop := offsetOf count
      nameStart := offsetOf reading.skipped
      paramsOpen := offsetOf opening
      paramsClose := offsetOf closing
    }
    some (declaration, anchor.length + count)

/--
The declarations from a place of a document on.

The arguments are the byte offset of the place, the character that the mask
shows in front of it, the number of characters that belong to an anchor or a
declaration already found, and the glyphs from the place on. After a
declaration the search goes on at its end, after an anchor without one right
behind the anchor.
-/
def parseFrom : Nat → Option Char → Nat → List Glyph → List Declaration
  | _, _, _, [] => []
  | offset, _, skip + 1, glyph :: rest =>
      parseFrom (offset + glyph.char.utf8Size) (some glyph.shown) skip rest
  | offset, previous, 0, glyph :: rest =>
      let next (skip : Nat) : List Declaration :=
        parseFrom (offset + glyph.char.utf8Size) (some glyph.shown) skip rest
      match Anchor.at? previous (Glyph.code (glyph :: rest)) with
      | none => next 0
      | some anchor =>
          match read? anchor offset (glyph :: rest) with
          | none => next (anchor.length - 1)
          | some (declaration, length) => declaration :: next (length - 1)

/-- The declarations of a document in the order of the text. -/
def parse (text : Text) : List Declaration :=
  parseFrom 0 none 0 (scan text)

end Declaration

end RoutineServer
