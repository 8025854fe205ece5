import RoutineServer.Text.Utf8

namespace RoutineServer

/-!
# Percent encoding

A character that a part of a URI cannot hold is written as its UTF-8 bytes,
each byte as a percent sign and two capital hexadecimal digits. Every part has
its own set of such characters; those outside ASCII belong to all sets.
-/

namespace Percent

/-- Control characters and characters outside ASCII. -/
def controlSet (char : Char) : Bool :=
  char.toNat < 0x20 || 0x7F ≤ char.toNat

/-- The characters encoded in a fragment. -/
def fragmentSet (char : Char) : Bool :=
  controlSet char || char == ' ' || char == '"' || char == '<' || char == '>' || char == '\x60'

/-- The characters encoded in a query; `special` schemes encode the quote too. -/
def querySet (special : Bool) (char : Char) : Bool :=
  controlSet char || char == ' ' || char == '"' || char == '#' || char == '<' || char == '>' ||
    (special && char == '\x27')

/-- The characters encoded in a path. -/
def pathSet (char : Char) : Bool :=
  fragmentSet char || char == '#' || char == '?' || char == '\x7b' || char == '\x7d'

/-- The characters encoded in the name of a file, which may hold any of them. -/
def fileNameSet (char : Char) : Bool :=
  pathSet char || char == '/' || char == '%' || char == '\\'

/-- The characters encoded in a user name or a password. -/
def userInfoSet (char : Char) : Bool :=
  pathSet char || char == '/' || char == ':' || char == ';' || char == '=' || char == '@' ||
    char == '[' || char == '\\' || char == ']' || char == '^' || char == '|'

/-- The capital hexadecimal digit of a number below sixteen. -/
def hexDigit (digit : Nat) : Char :=
  Char.ofNat (if digit < 10 then 0x30 + digit else 0x37 + digit)

/-- The value of a hexadecimal digit. -/
def hexValue? (char : Char) : Option Nat :=
  if '0' ≤ char && char ≤ '9' then some (char.toNat - 0x30)
  else if 'A' ≤ char && char ≤ 'F' then some (char.toNat - 0x37)
  else if 'a' ≤ char && char ≤ 'f' then some (char.toNat - 0x57)
  else none

/-- A byte as a percent sign and two digits. -/
def encodeByte (byte : UInt8) : Text :=
  ['%', hexDigit (byte.toNat / 16), hexDigit (byte.toNat % 16)]

/-- Encode the characters of a set. -/
def encode (set : Char → Bool) (text : Text) : Text :=
  text.flatMap fun char =>
    if set char then (String.utf8EncodeChar char).flatMap encodeByte else [char]

/-- The bytes that a text stands for; an incomplete escape stands for itself. -/
def decode : Text → List UInt8
  | [] => []
  | ['%'] => [0x25]
  | ['%', char] => 0x25 :: String.utf8EncodeChar char
  | '%' :: high :: low :: rest =>
      match hexValue? high, hexValue? low with
      | some first, some second => UInt8.ofNat (16 * first + second) :: decode rest
      | _, _ => 0x25 :: decode (high :: low :: rest)
  | char :: rest => String.utf8EncodeChar char ++ decode rest

end Percent

end RoutineServer
