import RoutineServer.Files.Glob
import RoutineServer.Text.Blank

namespace RoutineServer

/-!
# Ignore rules

A rule is a line with a glob. A rule with an exclamation mark takes back what
the rules before it say. A rule with a slash in front or in the middle is about
the whole path below the directory that it belongs to; any other one is about
names at any depth. A slash at the end confines a rule to directories. The last
rule that matches decides.
-/

/-- A rule that matches paths. -/
structure IgnoreRule where
  /-- Whether the rule takes back earlier ones. -/
  negated : Bool
  onlyDirectories : Bool
  glob : Glob
  deriving Repr, DecidableEq

/-- What rules say about a path. -/
inductive Verdict where
  | ignore
  | keep
  deriving Repr, DecidableEq

namespace IgnoreRule

/-- Whether a text starts with two stars as a name of their own. -/
def matchesAnyDepth (pattern : Text) : Bool :=
  "**/".toList.isPrefixOf pattern || pattern == "**".toList

/--
The pattern that a line stands for. A pattern about names is put below any
directories, and a pattern for all that is in a directory does not match the
directory itself.
-/
def completePattern (anchored : Bool) (pattern : Text) : Text :=
  let pattern :=
    if anchored || pattern.contains '/' || matchesAnyDepth pattern then pattern
    else "**/".toList ++ pattern
  if "/**".toList.isSuffixOf pattern then pattern ++ "/*".toList else pattern

/-- A text without the slash at its end, if it has one, and without a backslash before that. -/
def dropFinalSlash? (pattern : Text) : Option Text :=
  match pattern.reverse with
  | '/' :: '\\' :: rest => some rest.reverse
  | '/' :: rest => some rest.reverse
  | _ => none

/--
The rule of a line. Comments, blank lines and malformed globs give no rule. A
backslash in front keeps an exclamation mark or a number sign as it is.
-/
def ofLine? (literalBrackets : Bool) (line : Text) : Option IgnoreRule :=
  let line := if "\\ ".toList.isSuffixOf line then line else Text.trimEnd line
  if line.isEmpty || line.head? == some '#' then
    none
  else
    let isEscaped := "\\!".toList.isPrefixOf line || "\\#".toList.isPrefixOf line
    let negated := line.head? == some '!'
    let pattern := if isEscaped || negated then line.drop 1 else line
    let anchored := !isEscaped && pattern.head? == some '/'
    let pattern := if anchored then pattern.drop 1 else pattern
    let onlyDirectories := (dropFinalSlash? pattern).isSome
    let pattern := (dropFinalSlash? pattern).getD pattern
    (Glob.parse? literalBrackets (completePattern anchored pattern)).map fun glob =>
      ⟨negated, onlyDirectories, glob⟩

/-- Whether a rule matches a path. -/
def isMatch (rule : IgnoreRule) (path : List UInt8) (isDirectory : Bool) : Bool :=
  (!rule.onlyDirectories || isDirectory) && rule.glob.isMatch path

/-- The last rule that matches a path. -/
def lastMatch? (rules : List IgnoreRule) (path : List UInt8) (isDirectory : Bool) :
    Option IgnoreRule :=
  rules.reverse.find? (·.isMatch path isDirectory)

/-- What the rules of an ignore file say about a path. -/
def verdict? (rules : List IgnoreRule) (path : List UInt8) (isDirectory : Bool) : Option Verdict :=
  (lastMatch? rules path isDirectory).map fun rule => if rule.negated then .keep else .ignore

/-- Cut bytes at line feeds. -/
def splitLines : List UInt8 → List (List UInt8)
  | [] => [[]]
  | byte :: rest =>
      if byte == 0x0A then
        [] :: splitLines rest
      else
        match splitLines rest with
        | line :: lines => (byte :: line) :: lines
        | [] => [[byte]]

/-- The lines up to the first that is not text; marks of the byte order in front are dropped. -/
def textLines (content : List UInt8) : List Text :=
  let lines := ((splitLines content).map Text.ofUtf8?).takeWhile (·.isSome)
  match lines.filterMap id with
  | [] => []
  | first :: rest => first.dropWhile (· == Char.ofNat 0xFEFF) :: rest

/-- The rules of an ignore file. -/
def ofFile (content : List UInt8) : List IgnoreRule :=
  (textLines content).filterMap (ofLine? true)

end IgnoreRule

end RoutineServer
