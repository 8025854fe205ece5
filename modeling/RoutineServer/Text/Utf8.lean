import RoutineServer.Text.Basic

namespace RoutineServer

/-!
# The bytes of a text

Files and percent-encoded names hold bytes. A text has one UTF-8 form; a list
of bytes may have no text.
-/

namespace Text

/-- The UTF-8 form of a text. -/
def utf8 (text : Text) : List UInt8 :=
  text.flatMap String.utf8EncodeChar

/-- A character that is being read: its bits so far, the bytes it lacks, and the range of the next. -/
structure PartialChar where
  bits : Nat
  missing : Nat
  low : Nat
  high : Nat
  deriving Repr, DecidableEq

/-- The character that a first byte of several opens. -/
def opened? (byte : Nat) : Option PartialChar :=
  if 0xC2 ≤ byte && byte ≤ 0xDF then some ⟨byte - 0xC0, 1, 0x80, 0xBF⟩
  else if byte == 0xE0 then some ⟨0, 2, 0xA0, 0xBF⟩
  else if byte == 0xED then some ⟨0xD, 2, 0x80, 0x9F⟩
  else if 0xE1 ≤ byte && byte ≤ 0xEF then some ⟨byte - 0xE0, 2, 0x80, 0xBF⟩
  else if byte == 0xF0 then some ⟨0, 3, 0x90, 0xBF⟩
  else if 0xF1 ≤ byte && byte ≤ 0xF3 then some ⟨byte - 0xF0, 3, 0x80, 0xBF⟩
  else if byte == 0xF4 then some ⟨4, 3, 0x80, 0x8F⟩
  else none

/--
The characters that bytes stand for. A character that breaks off, and a byte that
opens none, are each a gap in the text.
-/
def decodeFrom : Option PartialChar → List UInt8 → List (Option Char)
  | none, [] => []
  | some _, [] => [none]
  | reading, byte :: rest =>
      let value := byte.toNat
      let first :=
        if value < 0x80 then some (Char.ofNat value) :: decodeFrom none rest
        else
          match opened? value with
          | some opened => decodeFrom (some opened) rest
          | none => none :: decodeFrom none rest
      match reading with
      | none => first
      | some reading =>
          if reading.low ≤ value && value ≤ reading.high then
            let bits := 64 * reading.bits + (value - 0x80)
            if reading.missing ≤ 1 then some (Char.ofNat bits) :: decodeFrom none rest
            else decodeFrom (some ⟨bits, reading.missing - 1, 0x80, 0xBF⟩) rest
          else
            none :: first

/-- The text with the given UTF-8 form, if there is one. -/
def ofUtf8? (bytes : List UInt8) : Option Text :=
  (decodeFrom none bytes).mapM id

/-- What stands in place of a gap in a text. -/
def replacement : Char :=
  Char.ofNat 0xFFFD

/-- The text of some bytes, each gap shown by a replacement. -/
def ofUtf8Shown (bytes : List UInt8) : Text :=
  (decodeFrom none bytes).map (·.getD replacement)

end Text

end RoutineServer
