import RoutineServer.Text.Utf8

namespace RoutineServer

/-!
# Globs

Patterns for paths. A question mark stands for one byte and a star for any
number of bytes of a single name; two stars that take the place of whole names
stand for any number of names. Square brackets list bytes, braces list
alternatives, and a backslash takes the next character as it is.

Alternatives are multiplied out while a pattern is read, so that a glob is a
list of plain patterns of which one has to match.
-/

namespace Glob

/-- A piece of a plain pattern. -/
inductive Token where
  | byte (value : UInt8)
  /-- Any byte but a slash. -/
  | anyByte
  /-- Any bytes but slashes. -/
  | star
  /-- Nothing, or anything that ends in a slash. -/
  | leadingNames
  /-- A slash and anything. -/
  | trailingNames
  /-- A slash, or anything between two slashes. -/
  | innerNames
  /-- A byte in one of the ranges, or in none of them. -/
  | oneOf (negated : Bool) (ranges : List (UInt8 × UInt8))
  deriving Repr, DecidableEq

/-- The byte of the slash. -/
def slash : UInt8 :=
  0x2F

/-- Whether some rest of the bytes, after allowed ones only, is accepted. -/
def someRest (allowed : UInt8 → Bool) (accepts : List UInt8 → Bool) : List UInt8 → Bool
  | [] => accepts []
  | byte :: rest =>
      accepts (byte :: rest) || (allowed byte && someRest allowed accepts rest)

/-- Whether the rest after some slash is accepted. -/
def afterSomeSlash (accepts : List UInt8 → Bool) : List UInt8 → Bool
  | [] => false
  | byte :: rest => (byte == slash && accepts rest) || afterSomeSlash accepts rest

/-- Whether the bytes start with a byte that passes and a rest that is accepted. -/
def oneByte (passes : UInt8 → Bool) (accepts : List UInt8 → Bool) : List UInt8 → Bool
  | [] => false
  | byte :: rest => passes byte && accepts rest

/-- Whether a plain pattern matches all of the bytes. -/
def matchTokens : List Token → List UInt8 → Bool
  | [] => List.isEmpty
  | .byte value :: tokens => oneByte (· == value) (matchTokens tokens)
  | .anyByte :: tokens => oneByte (· != slash) (matchTokens tokens)
  | .star :: tokens => someRest (· != slash) (matchTokens tokens)
  | .leadingNames :: tokens => fun bytes =>
      matchTokens tokens bytes || afterSomeSlash (matchTokens tokens) bytes
  | .trailingNames :: tokens =>
      oneByte (· == slash) (someRest (fun _ => true) (matchTokens tokens))
  | .innerNames :: tokens =>
      oneByte (· == slash) fun rest =>
        matchTokens tokens rest || afterSomeSlash (matchTokens tokens) rest
  | .oneOf negated ranges :: tokens =>
      oneByte
        (fun byte => negated != ranges.any fun range => range.1 ≤ byte && byte ≤ range.2)
        (matchTokens tokens)

/-- The plain patterns read so far of one alternative, each with its last token first. -/
structure Branch where
  patterns : List (List Token)
  /-- Whether anything has been read. -/
  started : Bool
  deriving Repr, DecidableEq

namespace Branch

/-- Nothing has been read. -/
def empty : Branch :=
  ⟨[[]], false⟩

/-- Read a token. -/
def push (branch : Branch) (token : Token) : Branch :=
  ⟨branch.patterns.map (token :: ·), true⟩

/-- Read a character as it is. -/
def pushChar (branch : Branch) (char : Char) : Branch :=
  (String.utf8EncodeChar char).foldl (fun branch byte => branch.push (.byte byte)) branch

/-- Replace the last token of each pattern, unless it stands for whole names already. -/
def replaceLast (branch : Branch) (token : Token) : Branch :=
  let replace (pattern : List Token) : List Token :=
    match pattern with
    | .leadingNames :: rest => .leadingNames :: rest
    | .trailingNames :: rest => .trailingNames :: rest
    | _ :: rest => token :: rest
    | [] => [token]
  ⟨branch.patterns.map replace, true⟩

/-- Go on with any of the alternatives that are not empty. -/
def choose (branch : Branch) (alternatives : List Branch) : Branch :=
  let options := (alternatives.filter (·.patterns != [[]])).flatMap (·.patterns)
  if options.isEmpty then ⟨branch.patterns, true⟩
  else ⟨branch.patterns.flatMap fun pattern => options.map (· ++ pattern), true⟩

end Branch

/--
The bytes that a range of characters in brackets stands for: a range from the
last byte of the first character to the first byte of the last one, and each of
their other bytes.
-/
def rangeBytes (first last : Char) : List (UInt8 × UInt8) :=
  let low := String.utf8EncodeChar first
  let high := String.utf8EncodeChar last
  if first == last then
    low.map fun byte => (byte, byte)
  else
    match low.reverse, high with
    | lowest :: others, highest :: more =>
        (lowest, highest) :: (others ++ more).map fun byte => (byte, byte)
    | _, _ => []

/-- Why brackets list no bytes. -/
inductive BracketError where
  | unclosed
  /-- A range ends before it starts. -/
  | reversed
  deriving Repr, DecidableEq

/--
Read the inside of brackets after a possible negation. The ranges read so far
stand with the last one first; `ranging` tells that a minus follows them. A
closing bracket and a minus in first place stand for themselves.
-/
def brackets :
    List (Char × Char) → Bool → Text → Except BracketError (List (Char × Char) × Text)
  | _, _, [] => .error .unclosed
  | ranges, ranging, char :: rest =>
      match ranges, ranging with
      | [], _ => brackets [(char, char)] false rest
      | (first, last) :: others, true =>
          if char == ']' then .ok (('-', '-') :: (first, last) :: others, rest)
          else if char.toNat < first.toNat then .error .reversed
          else brackets ((first, char) :: others) false rest
      | ranges, false =>
          if char == ']' then .ok (ranges, rest)
          else if char == '-' then brackets ranges true rest
          else brackets ((char, char) :: ranges) false rest

/-- What has been read of a pattern: the open alternative, and the groups around it. -/
structure Reading where
  current : Branch
  /-- The finished alternatives of each open group and what stands before the group. -/
  groups : List (List Branch × Branch)
  deriving Repr, DecidableEq

/-- Change the open alternative. -/
def Reading.modify (reading : Reading) (change : Branch → Branch) : Reading :=
  { reading with current := change reading.current }

/--
Read two stars, knowing the character before them and the text after them. They
stand for whole names at the start of a pattern and after a slash, if a slash or
the end of the pattern follows; the slash that follows is part of them.
Elsewhere they are two single stars.
-/
def readNames (reading : Reading) (previous : Option Char) (rest : Text) : Reading × Text :=
  let plain := (reading.modify fun branch => (branch.push .star).push .star, rest)
  let inGroup := !reading.groups.isEmpty
  let atStart := !reading.current.started
  let afterSlash := previous == some '/' ||
    (inGroup && (previous == some ',' || previous == some '\x7b'))
  match rest with
  | [] =>
      if atStart then (reading.modify (·.push .leadingNames), [])
      else if afterSlash then (reading.modify (·.replaceLast .trailingNames), [])
      else plain
  | next :: following =>
      if next == '/' then
        if atStart then (reading.modify (·.push .leadingNames), following)
        else if afterSlash then (reading.modify (·.replaceLast .innerNames), following)
        else plain
      else if !atStart && afterSlash && inGroup && (next == ',' || next == '\x7d') then
        (reading.modify (·.replaceLast .trailingNames), rest)
      else
        plain

/-- Read a pattern, knowing the character before the text at hand. -/
def read? (literalBrackets : Bool) : Nat → Reading → Option Char → Text → Option Reading
  | _, reading, _, [] => some reading
  | 0, _, _, _ :: _ => none
  | steps + 1, reading, previous, char :: rest =>
      let goOn (reading : Reading) : Option Reading :=
        read? literalBrackets steps reading (some char) rest
      if char == '?' then
        goOn (reading.modify (·.push .anyByte))
      else if char == '*' then
        match rest with
        | '*' :: following =>
            let (reading, left) := readNames reading previous following
            let previous := if left.length < following.length then '/' else '*'
            read? literalBrackets steps reading (some previous) left
        | _ => goOn (reading.modify (·.push .star))
      else if char == '[' then
        let negated := rest.head? == some '!' || rest.head? == some '^'
        match brackets [] false (if negated then rest.drop 1 else rest) with
        | .ok (ranges, left) =>
            let bytes := ranges.reverse.flatMap fun range => rangeBytes range.1 range.2
            read? literalBrackets steps (reading.modify (·.push (.oneOf negated bytes))) (some ']')
              left
        | .error .unclosed =>
            if literalBrackets then goOn (reading.modify (·.pushChar '[')) else none
        | .error .reversed => none
      else if char == '\x7b' then
        goOn ⟨.empty, ([], reading.current) :: reading.groups⟩
      else if char == '\x7d' then
        match reading.groups with
        | [] => none
        | (finished, outer) :: groups => goOn ⟨outer.choose (finished ++ [reading.current]), groups⟩
      else if char == ',' then
        match reading.groups with
        | [] => goOn (reading.modify (·.pushChar ','))
        | (finished, outer) :: groups =>
            goOn ⟨.empty, (finished ++ [reading.current], outer) :: groups⟩
      else if char == '\\' then
        match rest with
        | [] => none
        | escaped :: following =>
            read? literalBrackets steps (reading.modify (·.pushChar escaped)) (some escaped)
              following
      else
        goOn (reading.modify (·.pushChar char))

end Glob

/-- The plain patterns of which one has to match. -/
structure Glob where
  patterns : List (List Glob.Token)
  deriving Repr, DecidableEq

namespace Glob

/-- Whether a pattern has two stars in place of every name. -/
def isAnything : Text → Bool
  | ['*', '*'] => true
  | '*' :: '*' :: '/' :: rest => rest.isEmpty || isAnything rest
  | _ => false

/--
Read a glob. A pattern of nothing but two stars matches everything. Brackets
without an end are an error, or stand for themselves.
-/
def parse? (literalBrackets : Bool) (text : Text) : Option Glob := do
  let reading ← read? literalBrackets text.length ⟨.empty, []⟩ none text
  if !reading.groups.isEmpty then none
  else if isAnything text then some ⟨[[.leadingNames, .star]]⟩
  else some ⟨reading.current.patterns.map List.reverse⟩

/-- Whether a glob matches a path. -/
def isMatch (glob : Glob) (path : List UInt8) : Bool :=
  glob.patterns.any (matchTokens · path)

end Glob

end RoutineServer
