namespace RoutineServer

/-!
# Texts and byte offsets

A document is the list of its Unicode characters. Places in it are given as
byte offsets into its UTF-8 form, because that is how spans are reported;
inside a computation places are counted in characters, which every list
operation understands. This module holds the two measures and the passage
from one to the other.
-/

/-- A document, or a piece of one: its Unicode characters in order. -/
abbrev Text := List Char

/-- A half-open range of byte offsets. -/
structure Span where
  start : Nat
  stop : Nat
  deriving Repr, DecidableEq

namespace Span

/-- Whether an offset lies in the span. -/
def contains (span : Span) (offset : Nat) : Bool :=
  span.start ≤ offset && offset < span.stop

/-- Whether the first span lies inside the second one. -/
def within (inner outer : Span) : Bool :=
  outer.start ≤ inner.start && inner.stop ≤ outer.stop

/-- Whether two spans share a byte. -/
def overlaps (left right : Span) : Bool :=
  left.start < right.stop && right.start < left.stop

/-- The span moved to the right. -/
def shift (distance : Nat) (span : Span) : Span :=
  ⟨distance + span.start, distance + span.stop⟩

end Span

namespace Text

/-- The number of bytes of the UTF-8 form of a text. -/
def byteLength : Text → Nat
  | [] => 0
  | char :: rest => char.utf8Size + byteLength rest

@[simp] theorem byteLength_nil : byteLength [] = 0 := rfl

@[simp] theorem byteLength_cons
    (char : Char)
    (rest : Text) :
    byteLength (char :: rest) = char.utf8Size + byteLength rest := rfl

/-- Byte lengths add up over concatenation. -/
@[simp] theorem byteLength_append
    (left right : Text) :
    byteLength (left ++ right) = byteLength left + byteLength right := by
  induction left with
  | nil => simp
  | cons char rest inductionHypothesis =>
      simp [inductionHypothesis, Nat.add_assoc]

/--
The number of characters that start before a byte offset.

On a character boundary these are exactly the characters in front of it.
-/
def index : Nat → Text → Nat
  | 0, _ => 0
  | _ + 1, [] => 0
  | offset + 1, char :: rest =>
      index (offset + 1 - char.utf8Size) rest + 1

/-- The characters that start before a byte offset. -/
def before (offset : Nat) (text : Text) : Text :=
  text.take (index offset text)

/-- The characters that start at or after a byte offset. -/
def after (offset : Nat) (text : Text) : Text :=
  text.drop (index offset text)

/-- Whether a byte offset lies between two characters or at an end. -/
def isBoundary (offset : Nat) (text : Text) : Bool :=
  byteLength (before offset text) == offset

/-- The characters that start inside a span. -/
def slice (span : Span) (text : Text) : Text :=
  (before span.stop text).drop (index span.start text)

/-- The character at an offset, if one starts there. -/
def charAt? (offset : Nat) (text : Text) : Option Char :=
  if isBoundary offset text then (after offset text).head? else none

/-- The byte offset of the character with the given number. -/
def offsetOfIndex (count : Nat) (text : Text) : Nat :=
  byteLength (text.take count)

/-- The two parts of a text at an offset make up the whole. -/
theorem before_append_after
    (offset : Nat)
    (text : Text) :
    before offset text ++ after offset text = text :=
  List.take_append_drop _ _

/-- The end of a piece is found again by its byte length. -/
theorem index_byteLength_append
    (left right : Text) :
    index (byteLength left) (left ++ right) = left.length := by
  induction left with
  | nil => simp [index]
  | cons char rest inductionHypothesis =>
      have positive := Char.utf8Size_pos char
      cases width : char.utf8Size with
      | zero => omega
      | succ less =>
          have total :
              byteLength (char :: rest) = less + byteLength rest + 1 := by
            simp only [byteLength_cons, width]
            omega
          have left :
              less + byteLength rest + 1 - char.utf8Size = byteLength rest := by
            omega
          rw [total]
          simp only [List.cons_append, index, left, inductionHypothesis, List.length_cons]

end Text

end RoutineServer
