import RoutineServer.Text.Pattern
import RoutineServer.Lexical.Mask

namespace RoutineServer

/-!
# Descriptions

A routine is described by a statement `COMMENT ON FUNCTION name(…) IS '…'`.
The statements about a name are looked for in the text itself, because the
description is a string; of the matches only those count that start in code.
The argument list may be missing, and may be anything up to the first closing
parenthesis.

The name is given as it is spelled and may begin with blanks, so that one text
can be divided in several ways. The steps below therefore answer every way to
go on, the preferred one first: a run of blanks is taken as long as possible,
and an argument list is taken if there is one.
-/

namespace Description

/-- The texts left after any number of blanks, longest run first. -/
def afterBlanks : Text → List Text
  | [] => [[]]
  | char :: rest =>
      if isBlank char then afterBlanks rest ++ [char :: rest] else [char :: rest]

/-- The texts left after one or more blanks, longest run first. -/
def afterSomeBlanks : Text → List Text
  | [] => []
  | char :: rest => if isBlank char then afterBlanks rest else []

/-- The text left after a word, letter case ignored. -/
def afterWord (word text : Text) : List Text :=
  (Text.dropFolded? word text).toList

/-- The text left after the name of a kind of routine. -/
def afterKind (text : Text) : List Text :=
  afterWord "function".toList text ++ afterWord "procedure".toList text

/-- The texts left after an argument list, or with it still to come. -/
def afterArguments : Text → List Text
  | '(' :: rest =>
      match rest.dropWhile (· != ')') with
      | ')' :: following => [following, '(' :: rest]
      | _ => ['(' :: rest]
  | text => [text]

/-- The texts left after a statement about a name up to its description. -/
def afterHead (name text : Text) : List Text :=
  let subject :=
    ((((afterWord "comment".toList text).flatMap afterSomeBlanks).flatMap
      (afterWord "on".toList)).flatMap afterSomeBlanks).flatMap afterKind
  let named := ((subject.flatMap afterSomeBlanks).flatMap (afterWord name)).flatMap afterBlanks
  (((named.flatMap afterArguments).flatMap afterSomeBlanks).flatMap
    (afterWord "is".toList)).flatMap afterSomeBlanks

/-- Whether a character opens or closes a description. -/
def isQuote (char : Char) : Bool :=
  char == '\x27' || char == '"'

/-- The description between quotes at the start of a text, and the text after it. -/
def quoted? : Text → Option (Text × Text)
  | [] => none
  | opening :: rest =>
      if isQuote opening then
        match rest.dropWhile (!isQuote ·) with
        | [] => none
        | _ :: following => some (rest.takeWhile (!isQuote ·), following)
      else
        none

/-- A text without the blanks and the semicolon it starts with. -/
def dropTerminator (text : Text) : Text :=
  match Text.trimStart text with
  | ';' :: rest => rest
  | rest => rest

/-- The statement at the start of a text: its length, semicolon included. -/
def statementAt? (name text : Text) : Option (Nat × Unit) :=
  ((afterHead name text).findSome? quoted?).map fun (_, rest) =>
    (text.length - (dropTerminator rest).length, ())

/-- A statement with a description that is not empty: its length and the description. -/
def describedAt? (name text : Text) : Option (Nat × Text) :=
  let bodies := (afterHead name text).filterMap quoted?
  (bodies.find? (!·.1.isEmpty)).map fun (description, rest) =>
    (text.length - rest.length, description)

/-- The spans of the statements about a name. -/
def statements (text name : Text) : List Span :=
  ((Text.findMatches (statementAt? name) text).map (·.1)).filter (isCodeAt text ·.start)

/-- The description of the routine with a name, if the document gives one. -/
def find? (text name : Text) : Option Text :=
  if name.isEmpty then
    none
  else
    ((Text.findMatches (describedAt? name) text).find? (isCodeAt text ·.1.start)).map (·.2)

end Description

end RoutineServer
