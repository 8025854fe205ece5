import Mathlib.Data.List.Infix
import RoutineServer.Proofs.Lexical.ByteScan

namespace RoutineServer

/-!
# Tokens

The grammar behind the modes. The bytes of a text fall into tokens: a comment, a
string or a quoted identifier, delimiters included, or a single byte of code. A
token that is never closed reaches to the end. Every text has exactly one such
decomposition, and a scan gives each byte the mode of its token.

A scan can start at any byte. One that starts between two tokens of the document
gives the bytes from there on the modes that they have in the document.
-/

namespace Mode

/-- The bytes that open what is read in a mode; code has no delimiters. -/
def opening : Mode → List UInt8
  | .code => []
  | .string => Text.utf8 ['\x27']
  | .identifier => Text.utf8 ['"']
  | .lineComment => Text.utf8 ['-', '-']
  | .blockComment => Text.utf8 ['/', '*']

/-- The bytes that close it. -/
def closing : Mode → List UInt8
  | .code => []
  | .string => Text.utf8 ['\x27']
  | .identifier => Text.utf8 ['"']
  | .lineComment => Text.utf8 ['\n']
  | .blockComment => Text.utf8 ['*', '/']

theorem opening_ne_nil
    {mode : Mode}
    (delimited : mode ≠ .code) :
    mode.opening ≠ [] := by
  revert delimited
  cases mode <;> decide

theorem closing_ne_nil
    {mode : Mode}
    (delimited : mode ≠ .code) :
    mode.closing ≠ [] := by
  revert delimited
  cases mode <;> decide

/-- The first byte of an opening delimiter tells which one it is. -/
theorem eq_of_opening
    {mode other : Mode}
    {bytes : List UInt8}
    (delimited : mode ≠ .code)
    (otherDelimited : other ≠ .code)
    (opens : mode.opening <+: bytes)
    (otherOpens : other.opening <+: bytes) :
    mode = other := by
  have heads : mode.opening.head? = other.opening.head? := by
    obtain ⟨tail, rfl⟩ := opens
    obtain ⟨otherTail, same⟩ := otherOpens
    have first := congrArg List.head? same
    rwa [List.head?_append_of_ne_nil _ (opening_ne_nil otherDelimited),
      List.head?_append_of_ne_nil _ (opening_ne_nil delimited), eq_comm] at first
  revert delimited otherDelimited heads
  clear opens otherOpens
  cases mode <;> cases other <;> decide

end Mode

/-- A comment, a string, a quoted identifier or a byte of code. -/
structure Token where
  mode : Mode
  bytes : List UInt8
  deriving Repr, DecidableEq

/-- The mode of each byte of a token. -/
def Token.modes (token : Token) : List Mode :=
  List.replicate token.bytes.length token.mode

/-- The delimiter that follows some bytes does not begin anywhere before. -/
def ClosedFirst (closing body rest : List UInt8) : Prop :=
  ∀ place < body.length, ¬ closing <+: (body ++ (closing ++ rest)).drop place

instance (closing body rest : List UInt8) : Decidable (ClosedFirst closing body rest) :=
  inferInstanceAs (Decidable (∀ place < body.length, _))

/-- The bytes behind an opening delimiter, cut behind the first closing one or not at all. -/
inductive Cut (closing : List UInt8) : List UInt8 → List UInt8 → Prop
  | closed {body rest : List UInt8} :
      ClosedFirst closing body rest → Cut closing (body ++ closing) rest
  | unclosed {body : List UInt8} :
      ¬ closing <:+: body → Cut closing body []

/-- A token, given the bytes behind it. -/
inductive IsToken : Token → List UInt8 → Prop
  | code {byte : UInt8} {rest : List UInt8} :
      (∀ mode : Mode, mode ≠ .code → ¬ mode.opening <+: byte :: rest) →
        IsToken ⟨.code, [byte]⟩ rest
  | delimited {mode : Mode} {content rest : List UInt8} :
      mode ≠ .code → Cut mode.closing content rest →
        IsToken ⟨mode, mode.opening ++ content⟩ rest

/-- The tokens of some bytes, from left to right. -/
inductive Tokenized : List UInt8 → List Token → Prop
  | nil : Tokenized [] []
  | cons {token : Token} {rest : List UInt8} {tokens : List Token} :
      IsToken token rest → Tokenized rest tokens →
        Tokenized (token.bytes ++ rest) (token :: tokens)

section Cut

variable {closing body rest : List UInt8}

/-- The first place of a delimiter is not behind another place of it. -/
theorem ClosedFirst.length_le
    {other others : List UInt8}
    (first : ClosedFirst closing body rest)
    (same : body ++ (closing ++ rest) = other ++ (closing ++ others)) :
    body.length ≤ other.length := by
  apply Nat.le_of_not_lt
  intro shorter
  apply first other.length shorter
  rw [same, List.drop_left]
  exact List.prefix_append closing others

theorem ClosedFirst.not_infix
    (first : ClosedFirst closing body rest)
    (nonempty : closing ≠ []) :
    ¬ closing <:+: body := by
  rintro ⟨front, back, rfl⟩
  have positive := List.length_pos_iff.mpr nonempty
  have again :
      front ++ closing ++ back ++ (closing ++ rest) =
        front ++ (closing ++ (back ++ (closing ++ rest))) := by
    simp only [List.append_assoc]
  have bound := first.length_le again
  simp only [List.length_append] at bound
  omega

/-- One more byte in front, if no delimiter begins there. -/
theorem Cut.cons
    {byte : UInt8}
    {content : List UInt8}
    (cut : Cut closing content rest)
    (other : ¬ closing <+: byte :: (content ++ rest)) :
    Cut closing (byte :: content) rest := by
  cases cut with
  | @closed body _ first =>
      rw [← List.cons_append]
      refine .closed ?_
      intro place bound
      cases place with
      | zero =>
          simpa using other
      | succ less =>
          exact first less (Nat.lt_of_succ_lt_succ bound)
  | unclosed never =>
      refine .unclosed ?_
      rw [List.infix_cons_iff, not_or]
      exact ⟨by simpa using other, never⟩

/-- All bytes can be cut. -/
theorem Cut.exists_of_ne_nil
    (nonempty : closing ≠ [])
    (bytes : List UInt8) :
    ∃ content rest, bytes = content ++ rest ∧ Cut closing content rest := by
  induction bytes with
  | nil =>
      refine ⟨[], [], rfl, .unclosed ?_⟩
      rw [List.infix_nil]
      exact nonempty
  | cons byte more inductionHypothesis =>
      by_cases here : closing <+: byte :: more
      · obtain ⟨rest, shape⟩ := here
        have first : ClosedFirst closing [] rest := by
          intro place bound
          cases bound
        exact ⟨closing, rest, shape.symm, .closed first⟩
      · obtain ⟨content, rest, shape, cut⟩ := inductionHypothesis
        refine ⟨byte :: content, rest, by rw [shape]; rfl, cut.cons ?_⟩
        rwa [← shape]

/-- They can be cut in one place only. -/
theorem Cut.unique
    {content other others : List UInt8}
    (cut : Cut closing content rest)
    (otherCut : Cut closing other others)
    (same : content ++ rest = other ++ others) :
    content = other ∧ rest = others := by
  cases cut with
  | @closed body _ first =>
      rw [List.append_assoc] at same
      cases otherCut with
      | @closed otherBody _ otherFirst =>
          rw [List.append_assoc] at same
          have length :=
            Nat.le_antisymm (first.length_le same) (otherFirst.length_le same.symm)
          obtain ⟨bodies, rests⟩ := List.append_inj same length
          rw [bodies, List.append_cancel_left rests]
          exact ⟨rfl, rfl⟩
      | unclosed never =>
          rw [List.append_nil] at same
          exact absurd ⟨body, rest, by rw [← same, List.append_assoc]⟩ never
  | unclosed never =>
      rw [List.append_nil] at same
      cases otherCut with
      | @closed otherBody _ otherFirst =>
          exact absurd ⟨otherBody, others, same.symm⟩ never
      | unclosed otherNever =>
          rw [List.append_nil] at same
          exact ⟨same, rfl⟩

end Cut

/-- A token is the only one that some bytes start with. -/
theorem IsToken.unique
    {token other : Token}
    {rest others : List UInt8}
    (isToken : IsToken token rest)
    (otherIsToken : IsToken other others)
    (same : token.bytes ++ rest = other.bytes ++ others) :
    token = other ∧ rest = others := by
  cases isToken with
  | @code byte _ plain =>
      cases otherIsToken with
      | code _ =>
          obtain ⟨rfl, rfl⟩ := List.cons.inj same
          exact ⟨rfl, rfl⟩
      | @delimited mode content _ delimited _ =>
          refine absurd ?_ (plain mode delimited)
          exact ⟨content ++ others, by rw [← List.append_assoc, ← same]; rfl⟩
  | @delimited mode content _ delimited cut =>
      cases otherIsToken with
      | code plain =>
          refine absurd ?_ (plain mode delimited)
          exact ⟨content ++ rest, by rw [← List.append_assoc, same]; rfl⟩
      | @delimited otherMode otherContent _ otherDelimited otherCut =>
          simp only [List.append_assoc] at same
          have opens : mode.opening <+: otherMode.opening ++ (otherContent ++ others) :=
            ⟨content ++ rest, same⟩
          obtain rfl :=
            Mode.eq_of_opening delimited otherDelimited opens (List.prefix_append _ _)
          obtain ⟨rfl, rfl⟩ := cut.unique otherCut (List.append_cancel_left same)
          exact ⟨rfl, rfl⟩

theorem IsToken.bytes_ne_nil
    {token : Token}
    {rest : List UInt8}
    (isToken : IsToken token rest) :
    token.bytes ≠ [] := by
  cases isToken with
  | code _ =>
      exact List.cons_ne_nil _ _
  | delimited delimited _ =>
      exact List.append_ne_nil_of_left_ne_nil (Mode.opening_ne_nil delimited) _

/-- Every text starts with a token. -/
theorem IsToken.exists_of_cons
    (byte : UInt8)
    (more : List UInt8) :
    ∃ token rest, byte :: more = token.bytes ++ rest ∧ IsToken token rest := by
  by_cases plain : ∀ mode : Mode, mode ≠ .code → ¬ mode.opening <+: byte :: more
  · exact ⟨⟨.code, [byte]⟩, more, rfl, .code plain⟩
  · push Not at plain
    obtain ⟨mode, delimited, tail, opens⟩ := plain
    obtain ⟨content, rest, shape, cut⟩ := Cut.exists_of_ne_nil (Mode.closing_ne_nil delimited) tail
    refine ⟨⟨mode, mode.opening ++ content⟩, rest, ?_, .delimited delimited cut⟩
    rw [← opens, shape, List.append_assoc]

/-- Bytes fall into tokens. -/
theorem Tokenized.exists
    (bytes : List UInt8) :
    ∃ tokens, Tokenized bytes tokens := by
  induction size : bytes.length using Nat.strongRecOn generalizing bytes with
  | ind total inductionHypothesis =>
      cases bytes with
      | nil =>
          exact ⟨[], .nil⟩
      | cons byte more =>
          obtain ⟨token, rest, shape, isToken⟩ := IsToken.exists_of_cons byte more
          have shorter : rest.length < total := by
            rw [← size, shape, List.length_append]
            exact Nat.lt_add_of_pos_left (List.length_pos_iff.mpr isToken.bytes_ne_nil)
          obtain ⟨tokens, later⟩ := inductionHypothesis _ shorter rest rfl
          exact ⟨token :: tokens, shape ▸ .cons isToken later⟩

/-- They do so in one way only. -/
theorem Tokenized.unique
    {bytes : List UInt8}
    {tokens others : List Token}
    (tokenized : Tokenized bytes tokens)
    (otherTokenized : Tokenized bytes others) :
    tokens = others := by
  induction tokenized generalizing others with
  | nil =>
      generalize empty : ([] : List UInt8) = bytes at otherTokenized
      cases otherTokenized with
      | nil =>
          rfl
      | cons isToken _ =>
          exact absurd (List.append_eq_nil_iff.mp empty.symm).1 isToken.bytes_ne_nil
  | @cons token rest tokens isToken _ inductionHypothesis =>
      generalize same : token.bytes ++ rest = bytes at otherTokenized
      cases otherTokenized with
      | nil =>
          exact absurd (List.append_eq_nil_iff.mp same).1 isToken.bytes_ne_nil
      | cons otherIsToken later =>
          obtain ⟨rfl, rfl⟩ := isToken.unique otherIsToken same
          rw [inductionHypothesis later]

/-- The tokens behind a place are those of the bytes behind it. -/
theorem Tokenized.of_append
    {bytes : List UInt8}
    {front back : List Token}
    (tokenized : Tokenized bytes (front ++ back)) :
    Tokenized (bytes.drop (front.flatMap Token.bytes).length) back := by
  induction front generalizing bytes with
  | nil =>
      exact tokenized
  | cons token more inductionHypothesis =>
      rw [List.cons_append] at tokenized
      cases tokenized with
      | cons _ later =>
          rw [List.flatMap_cons, List.length_append, ← List.drop_drop, List.drop_left]
          exact inductionHypothesis later

/-- What a scan can have open in a token, behind the opening delimiter. -/
inductive Inside : Mode → ScanState → Prop
  | string : Inside .string .inString
  | identifier : Inside .identifier .inIdentifier
  | lineComment : Inside .lineComment .inLineComment
  | blockComment (afterStar : Bool) : Inside .blockComment (.inBlockComment afterStar)

/-- What a scan has open right behind an opening delimiter. -/
def Mode.entered : Mode → ScanState
  | .code => .code
  | .string => .inString
  | .identifier => .inIdentifier
  | .lineComment => .inLineComment
  | .blockComment => .inBlockComment false

/-- A scan enters a token at its opening delimiter. -/
theorem byteScan_opening
    {mode : Mode}
    (delimited : mode ≠ .code)
    (rest : List UInt8) :
    byteScan .code (mode.opening ++ rest) =
      List.replicate mode.opening.length mode ++ byteScan mode.entered rest := by
  cases mode with
  | code => exact absurd rfl delimited
  | string => rfl
  | identifier => rfl
  | lineComment => rfl
  | blockComment => rfl

/-- A scan leaves a token at its closing delimiter. -/
theorem byteScan_closing
    {mode : Mode}
    {state : ScanState}
    (inside : Inside mode state)
    (rest : List UInt8) :
    byteScan state (mode.closing ++ rest) =
      List.replicate mode.closing.length mode ++ byteScan .code rest := by
  cases inside with
  | string => rfl
  | identifier => rfl
  | lineComment => rfl
  | blockComment afterStar =>
      cases afterStar with
      | false => rfl
      | true => rfl

/-- A token with a closing delimiter of one byte stays open in front of that byte. -/
theorem byteScan_until
    {mode : Mode}
    {body : List UInt8}
    (state : ScanState)
    (closing : UInt8)
    (steps :
      ∀ byte next,
        state.step (Char.ofUInt8 byte) next = (mode, if byte = closing then .code else state))
    (never : ¬ [closing] <:+: body)
    (rest : List UInt8) :
    byteScan state (body ++ rest) = List.replicate body.length mode ++ byteScan state rest := by
  induction body with
  | nil =>
      rfl
  | cons byte more inductionHypothesis =>
      rw [List.infix_cons_iff, not_or] at never
      have other : byte ≠ closing := by
        rintro rfl
        exact never.1 ⟨more, rfl⟩
      rw [List.cons_append, byteScan_cons, steps, if_neg other, inductionHypothesis never.2]
      rfl

/-- A block comment stays open in front of its closing delimiter. -/
theorem byteScan_blockComment
    {body : List UInt8}
    (afterStar : Bool)
    (never : ¬ Mode.closing .blockComment <:+: body)
    (quiet : afterStar = true → body.head? ≠ some '/'.toUInt8)
    (rest : List UInt8) :
    ∃ later,
      byteScan (.inBlockComment afterStar) (body ++ rest) =
        List.replicate body.length .blockComment ++ byteScan (.inBlockComment later) rest := by
  induction body generalizing afterStar with
  | nil =>
      exact ⟨afterStar, rfl⟩
  | cons byte more inductionHypothesis =>
      rw [List.infix_cons_iff, not_or] at never
      have step
          (next : Option Char) :
          ScanState.step (.inBlockComment afterStar) (Char.ofUInt8 byte) next =
            (.blockComment, .inBlockComment (Char.ofUInt8 byte == '*')) := by
        have stays : (afterStar && Char.ofUInt8 byte == '/') = false := by
          cases afterStar with
          | false =>
              rfl
          | true =>
              rw [Bool.true_and, beq_eq_false_iff_ne, ne_eq, ofUInt8_eq_iff '/' (by decide)]
              rintro rfl
              exact quiet rfl rfl
        simp [ScanState.step, stays]
      -- A slash behind a star would have closed the comment.
      have nextQuiet :
          (Char.ofUInt8 byte == '*') = true → more.head? ≠ some '/'.toUInt8 := by
        intro star slash
        rw [beq_iff_eq, ofUInt8_eq_iff '*' (by decide)] at star
        obtain ⟨others, rfl⟩ := List.head?_eq_some_iff.mp slash
        exact never.1 ⟨others, by rw [star]; rfl⟩
      obtain ⟨later, scans⟩ := inductionHypothesis _ never.2 nextQuiet
      refine ⟨later, ?_⟩
      rw [List.cons_append, byteScan_cons, step, scans]
      rfl

/-- A token stays open in front of its closing delimiter. -/
theorem byteScan_body
    {mode : Mode}
    {body : List UInt8}
    (delimited : mode ≠ .code)
    (never : ¬ mode.closing <:+: body)
    (rest : List UInt8) :
    ∃ state,
      Inside mode state ∧
        byteScan mode.entered (body ++ rest) =
          List.replicate body.length mode ++ byteScan state rest := by
  cases mode with
  | code =>
      exact absurd rfl delimited
  | string =>
      refine ⟨.inString, .string, byteScan_until .inString '\x27'.toUInt8 ?_ never rest⟩
      intro byte next
      simp [ScanState.step, ofUInt8_eq_iff '\x27' (by decide)]
  | identifier =>
      refine ⟨.inIdentifier, .identifier,
        byteScan_until .inIdentifier '"'.toUInt8 ?_ never rest⟩
      intro byte next
      simp [ScanState.step, ofUInt8_eq_iff '"' (by decide)]
  | lineComment =>
      refine ⟨.inLineComment, .lineComment,
        byteScan_until .inLineComment '\n'.toUInt8 ?_ never rest⟩
      intro byte next
      simp [ScanState.step, ofUInt8_eq_iff '\n' (by decide)]
  | blockComment =>
      obtain ⟨later, scans⟩ := byteScan_blockComment false never (by simp) rest
      exact ⟨.inBlockComment later, .blockComment later, scans⟩

/-- A byte that opens nothing is code, and leaves nothing open. -/
theorem byteScan_code
    {byte : UInt8}
    {rest : List UInt8}
    (plain : ∀ mode : Mode, mode ≠ .code → ¬ mode.opening <+: byte :: rest) :
    byteScan .code (byte :: rest) = .code :: byteScan .code rest := by
  -- A delimiter of two bytes is recognised by the byte that comes next.
  have next (first second : Char) (ascii : first.toNat < 128) (otherAscii : second.toNat < 128)
      (absent : ¬ [first.toUInt8, second.toUInt8] <+: byte :: rest) :
      (Char.ofUInt8 byte == first && rest.head?.map Char.ofUInt8 == some second) = false := by
    rw [Bool.and_eq_false_iff, beq_eq_false_iff_ne, beq_eq_false_iff_ne, ne_eq, ne_eq,
      ofUInt8_eq_iff first ascii, ← not_and_or]
    rintro ⟨rfl, found⟩
    obtain ⟨following, head, same⟩ := Option.map_eq_some_iff.mp found
    obtain ⟨others, rfl⟩ := List.head?_eq_some_iff.mp head
    rw [ofUInt8_eq_iff second otherAscii] at same
    exact absent ⟨others, by rw [same]; rfl⟩
  have here (char : Char) (ascii : char.toNat < 128)
      (absent : ¬ [char.toUInt8] <+: byte :: rest) :
      (Char.ofUInt8 byte == char) = false := by
    rw [beq_eq_false_iff_ne, ne_eq, ofUInt8_eq_iff char ascii]
    rintro rfl
    exact absent ⟨rest, rfl⟩
  have dashes := next '-' '-' (by decide) (by decide) (plain .lineComment (by decide))
  have slashStar := next '/' '*' (by decide) (by decide) (plain .blockComment (by decide))
  have quote := here '\x27' (by decide) (plain .string (by decide))
  have doubleQuote := here '"' (by decide) (plain .identifier (by decide))
  rw [byteScan_cons]
  simp [ScanState.step, dashes, slashStar, quote, doubleQuote]

/-- A scan gives the bytes of a token its mode, and has nothing open behind it. -/
theorem byteScan_token
    {token : Token}
    {rest : List UInt8}
    (isToken : IsToken token rest) :
    byteScan .code (token.bytes ++ rest) = token.modes ++ byteScan .code rest := by
  cases isToken with
  | code plain =>
      exact byteScan_code plain
  | @delimited mode _ _ delimited cut =>
      rw [List.append_assoc, byteScan_opening delimited, Token.modes, List.length_append,
        ← List.replicate_append_replicate, List.append_assoc]
      congr 1
      cases cut with
      | @closed body _ first =>
          have never := first.not_infix (Mode.closing_ne_nil delimited)
          obtain ⟨state, inside, scans⟩ := byteScan_body delimited never (mode.closing ++ rest)
          rw [List.append_assoc, scans, byteScan_closing inside, List.length_append,
            ← List.replicate_append_replicate, List.append_assoc]
      | unclosed never =>
          obtain ⟨state, -, scans⟩ := byteScan_body delimited never []
          rw [scans]
          rfl

/-- A scan gives each byte the mode of its token. -/
theorem Tokenized.byteScan_eq
    {bytes : List UInt8}
    {tokens : List Token}
    (tokenized : Tokenized bytes tokens) :
    byteScan .code bytes = tokens.flatMap Token.modes := by
  induction tokenized with
  | nil =>
      rfl
  | cons isToken _ inductionHypothesis =>
      rw [byteScan_token isToken, inductionHypothesis, List.flatMap_cons]

/-- Whether an offset of a text lies between two of its tokens or at an end. -/
def IsTokenBoundary (text : Text) (offset : Nat) : Prop :=
  ∃ front back,
    Tokenized (Text.utf8 text) (front ++ back) ∧ (front.flatMap Token.bytes).length = offset

/--
A scan of the bytes from an offset on gives each the mode of its token, in the one
decomposition that they have; between tokens of the document these are the modes
of the document.
-/
theorem byteModesFrom_eq_tokens
    (text : Text)
    (offset : Nat) :
    (∃! tokens, Tokenized ((Text.utf8 text).drop offset) tokens) ∧
      (∀ tokens,
        Tokenized ((Text.utf8 text).drop offset) tokens →
          byteModesFrom offset text = tokens.flatMap Token.modes) ∧
        (IsTokenBoundary text offset →
          byteModesFrom offset text = (byteModesFrom 0 text).drop offset) := by
  refine ⟨?_, ?_, ?_⟩
  · obtain ⟨tokens, tokenized⟩ := Tokenized.exists ((Text.utf8 text).drop offset)
    exact ⟨tokens, tokenized, fun _ other => other.unique tokenized⟩
  · intro tokens tokenized
    rw [byteModesFrom_eq, tokenized.byteScan_eq]
  · rintro ⟨front, back, tokenized, rfl⟩
    have length :
        (front.flatMap Token.bytes).length = (front.flatMap Token.modes).length := by
      simp [List.length_flatMap, Token.modes]
    rw [byteModesFrom_eq, byteModesFrom_eq, List.drop_zero, tokenized.of_append.byteScan_eq,
      tokenized.byteScan_eq, List.flatMap_append, length, List.drop_left]

/--
A character of two bytes, a comment whose first slash and quote close and open
nothing, a string, a line comment, and an identifier that is never closed.
-/
def hooked : Text :=
  "é/*/\x27*/\x27a\x27--\x27\n\"b".toList

/-- A token that is closed, with the given text between its delimiters. -/
def Token.closed (mode : Mode) (body : Text) : Token :=
  ⟨mode, mode.opening ++ (Text.utf8 body ++ mode.closing)⟩

/-- The tokens of `hooked` in front of and behind the end of the comment. -/
def hookedTokens : List Token × List Token :=
  ([⟨.code, [0xC3]⟩, ⟨.code, [0xA9]⟩, .closed .blockComment ['/', '\x27']],
    [.closed .string ['a'], .closed .lineComment ['\x27'],
      ⟨.identifier, Mode.opening .identifier ++ Text.utf8 ['b']⟩])

theorem tokenized_hooked :
    Tokenized (Text.utf8 hooked) (hookedTokens.1 ++ hookedTokens.2) := by
  have shape :
      Text.utf8 hooked =
        [0xC3] ++ ([0xA9] ++ ((Token.closed .blockComment ['/', '\x27']).bytes ++
          ((Token.closed .string ['a']).bytes ++ ((Token.closed .lineComment ['\x27']).bytes ++
            ((Mode.opening .identifier ++ Text.utf8 ['b']) ++ []))))) := by
    decide
  rw [shape]
  refine .cons (.code ?_) (.cons (.code ?_)
    (.cons (.delimited (by decide) (.closed (by decide)))
      (.cons (.delimited (by decide) (.closed (by decide)))
        (.cons (.delimited (by decide) (.closed (by decide)))
          (.cons (.delimited (by decide) (.unclosed (by decide))) .nil)))))
  · intro mode
    cases mode <;> decide
  · intro mode
    cases mode <;> decide

theorem byteModesFrom_eq_tokens_hooked :
    IsTokenBoundary hooked 8 ∧
      byteModesFrom 8 hooked = (byteModesFrom 0 hooked).drop 8 ∧
        byteModesFrom 8 hooked = hookedTokens.2.flatMap Token.modes ∧
          byteModesFrom 4 hooked ≠ (byteModesFrom 0 hooked).drop 4 := by
  have length : (hookedTokens.1.flatMap Token.bytes).length = 8 := by decide
  have boundary : IsTokenBoundary hooked 8 :=
    ⟨hookedTokens.1, hookedTokens.2, tokenized_hooked, length⟩
  have behind : Tokenized ((Text.utf8 hooked).drop 8) hookedTokens.2 :=
    length ▸ tokenized_hooked.of_append
  have scanned := byteModesFrom_eq_tokens hooked 8
  exact ⟨boundary, scanned.2.2 boundary, scanned.2.1 _ behind, by decide⟩

end RoutineServer
