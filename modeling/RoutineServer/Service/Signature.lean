import RoutineServer.Routine.Declaration
import RoutineServer.Service.Documents
import RoutineServer.Text.Lines

namespace RoutineServer

/-!
# Signature help

While the arguments of a call are typed, the parameters of the called routine
are shown and the one being typed is marked. Arguments and parameters are
numbered from zero by natural numbers without a bound, of which 32 bits hold
every number that a document of less than four gibibytes needs.
-/

/-- The call around a cursor: the called name and the number of the argument. -/
structure Call where
  name : Text
  argument : Nat
  deriving Repr, DecidableEq

namespace Call

/--
The numbers of glyphs before each parenthesis that is still open, the
innermost first, when `count` glyphs have been read.
-/
def openParens : Nat → List Nat → List Glyph → List Nat
  | _, opened, [] => opened
  | count, opened, glyph :: rest =>
      let opened :=
        if glyph.isCodeChar '(' then count :: opened
        else if glyph.isCodeChar ')' then opened.drop 1
        else opened
      openParens (count + 1) opened rest

/-- The name that a text ends with, blanks after it ignored. -/
def calledName? (text : Text) : Option Text :=
  match (Text.trimEnd text).reverse with
  | '"' :: before =>
      let inside := before.takeWhile (· != '"')
      if inside.length == before.length then none
      else some ('"' :: inside.reverse ++ ['"'])
  | reversed =>
      let name := (reversed.takeWhile isNameChar).reverse
      if name.isEmpty then none else some name

/-- The call around an offset; beyond the end of the text its end is meant. -/
def at? (text : Text) (offset : Nat) : Option Call := do
  let offset := min offset (Text.byteLength text)
  if Text.isBoundary offset text then
    let before := Text.before offset text
    let opening ← (openParens 0 [] (scan before)).head?
    let name ← calledName? (before.take opening)
    some ⟨Name.normalize name, topLevelCommas (before.drop (opening + 1))⟩
  else
    none

end Call

/-- The parameters of a routine and the one that is being typed. -/
structure Signature where
  label : Text
  parameters : List Text
  active : Nat
  deriving Repr, DecidableEq

namespace Signature

/-- Texts joined by commas. -/
def joinComma : List Text → Text
  | [] => []
  | [parameter] => parameter
  | parameter :: rest => parameter ++ ", ".toList ++ joinComma rest

/-- The signature of a declaration; an argument too many marks the last parameter. -/
def of (declaration : Declaration) (argument : Nat) : Signature :=
  let parameters := declaration.parameterList
  ⟨declaration.name ++ '(' :: joinComma parameters ++ [')'], parameters,
    min argument (parameters.length - 1)⟩

/-- The signature of the routine that a document declares for a call. -/
def in? (text : Text) (call : Call) : Option Signature :=
  (Declaration.find? (Declaration.parse text) call.name).map (of · call.argument)

/-- The signature for the call around a position. -/
def answer?
    (source : DocumentSource)
    (uri : Uri)
    (text : Text)
    (position : Position) :
    Option Signature := do
  let offset ← Text.offsetOf? text position
  let call ← Call.at? text offset
  match in? text call with
  | some signature => some signature
  | none => source.findSome? uri fun _ other => in? other call

end Signature

end RoutineServer
