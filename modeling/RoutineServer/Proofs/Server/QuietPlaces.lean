import RoutineServer.Proofs.Lexical.OpenToken
import RoutineServer.Proofs.Text.Coordinates
import RoutineServer.Server.Request

namespace RoutineServer

/-!
# Where completion is quiet

Nothing is offered in a comment, a string or a quoted identifier. The server
judges this by the character in front of the cursor. That is right unless the
character ends a comment, or is a quote that leaves something open.
-/

namespace Text

/-- A position leads between two characters or to an end. -/
theorem isBoundary_of_offsetOf?
    {text : Text}
    {position : Position}
    {offset : Nat}
    (located : offsetOf? text position = some offset) :
    isBoundary offset text = true := by
  have isLine : position.line < lineCount text := by
    obtain ⟨span, found, -⟩ := Option.map_eq_some_iff.mp located
    obtain ⟨content, isContent, -⟩ := Option.map_eq_some_iff.mp found
    exact (List.getElem?_eq_some_iff.mp isContent).1
  obtain ⟨_, _, _, reached, _, -, isReached, boundary, -⟩ := exists_column_of_lt_lineCount isLine
  rw [located, Option.some.injEq] at isReached
  rwa [isReached]

/-- A text ends with an ASCII character if its bytes end with that of the character. -/
theorem getLast?_of_utf8
    {text : Text}
    {char : Char}
    (ascii : char.toNat < 128)
    (ends : (utf8 text).getLast? = some char.toUInt8) :
    text.getLast? = some char := by
  rcases List.eq_nil_or_concat text with rfl | ⟨front, last, rfl⟩
  · cases ends
  · obtain ⟨byte, isByte⟩ : ∃ byte, (String.utf8EncodeChar last).getLast? = some byte := by
      refine ⟨_, List.getLast?_eq_some_getLast ?_⟩
      rw [← List.length_pos_iff, String.length_utf8EncodeChar]
      exact last.utf8Size_pos
    rw [List.concat_eq_append, utf8_append, List.getLast?_append, utf8_cons] at ends
    simp only [utf8, List.flatMap_nil, List.append_nil, isByte, Option.some_or] at ends
    rw [Option.some.injEq] at ends
    have member := List.mem_of_getLast? isByte
    rw [ends, toUInt8_mem_utf8EncodeChar_iff ascii] at member
    rw [List.concat_eq_append, List.getLast?_concat, member]

/-- A quote stands right in front of an offset. -/
def QuoteBefore (text : Text) (offset : Nat) : Prop :=
  (before offset text).getLast? = some '\x27' ∨ (before offset text).getLast? = some '"'

end Text

section Read

open Text

variable {text : Text} {offset : Nat} {token : Token} {part : List UInt8}

/-- What is closed at an offset is a comment, or a quote stands in front of the offset. -/
theorem ReadUpTo.quoteBefore_iff
    (boundary : isBoundary offset text = true)
    (reads : ReadUpTo (utf8 text) offset token part)
    (delimited : token.mode ≠ .code)
    (closed : ¬ token.OpenAfter part) :
    QuoteBefore text offset ↔ ¬ (token.mode = .lineComment ∨ token.mode = .blockComment) := by
  obtain ⟨-, ends⟩ := reads.suffix_of_closed delimited closed
  have lastByte : (utf8 (before offset text)).getLast? = token.mode.closing.getLast? := by
    obtain ⟨front, rfl⟩ := ends
    rw [utf8_before boundary, reads.getLast?_take, List.getLast?_append,
      List.getLast?_eq_some_getLast (Mode.closing_ne_nil delimited), Option.some_or]
  cases mode : token.mode with
  | code =>
      exact absurd mode delimited
  | string =>
      rw [mode] at lastByte
      have isQuote := getLast?_of_utf8 (by decide) lastByte
      simp [QuoteBefore, isQuote]
  | identifier =>
      rw [mode] at lastByte
      have isQuote := getLast?_of_utf8 (by decide) lastByte
      simp [QuoteBefore, isQuote]
  | lineComment =>
      rw [mode] at lastByte
      have isNewline := getLast?_of_utf8 (by decide) lastByte
      simp [QuoteBefore, isNewline]
  | blockComment =>
      rw [mode] at lastByte
      have isSlash := getLast?_of_utf8 (by decide) lastByte
      simp [QuoteBefore, isSlash]

/-- The server is quiet behind what is not code, unless a quote is in front of the cursor. -/
theorem ReadUpTo.isSuppressed_iff
    (boundary : isBoundary offset text = true)
    (reads : ReadUpTo (utf8 text) offset token part) :
    Completion.isSuppressed text offset = true ↔
      token.mode ≠ .code ∧ ¬ QuoteBefore text offset := by
  have mode := reads.mode_eq
  rw [← byteModes_scanFrom] at mode
  have isCode : isCodeAt text (offset - 1) = (token.mode == .code) := by
    rw [isCodeAt, scan, mode]
    rfl
  obtain ⟨previous, isPrevious⟩ : ∃ previous, (before offset text).getLast? = some previous := by
    refine ⟨_, List.getLast?_eq_some_getLast ?_⟩
    intro nothing
    have noByte := reads.getLast?_take
    rw [← utf8_before boundary, nothing] at noByte
    obtain ⟨-, -, -, -, -, begun, -⟩ := reads
    exact begun (List.getLast?_eq_none_iff.mp noByte.symm)
  simp only [Completion.isSuppressed, isPrevious, isCode, QuoteBefore, Option.some.injEq,
    Bool.and_eq_true, Bool.not_eq_true', beq_eq_false_iff_ne, bne_iff_ne, ne_eq, not_or, and_assoc]

theorem isSuppressed_zero
    (text : Text) :
    Completion.isSuppressed text 0 = false := by
  have nothing : before 0 text = [] := by
    simp [before, index]
  rw [Completion.isSuppressed, nothing]
  rfl

/-- In front of the first character nothing is open, and no comment ends. -/
theorem not_readUpTo_zero :
    ¬ ReadUpTo (utf8 text) 0 token part := by
  rintro ⟨_, _, _, -, -, begun, size⟩
  rw [List.length_append] at size
  exact begun (List.length_eq_zero_iff.mp (by omega))

/-- The server is quiet where something is open, and only there, but for two kinds of places. -/
theorem isSuppressed_iff_openAt_iff
    (boundary : isBoundary offset text = true) :
    (Completion.isSuppressed text offset = true ↔ OpenAt text offset) ↔
      ¬ CommentEndsAt text offset ∧ ¬ (QuoteBefore text offset ∧ OpenAt text offset) := by
  rcases Nat.eq_zero_or_pos offset with rfl | positive
  · have noneOpen : ¬ OpenAt text 0 := by
      rintro ⟨token, part, reads, -⟩
      exact not_readUpTo_zero reads
    have noneEnds : ¬ CommentEndsAt text 0 := by
      rintro ⟨token, reads, -⟩
      exact not_readUpTo_zero reads
    simp [isSuppressed_zero, noneOpen, noneEnds]
  · obtain ⟨token, part, reads⟩ := exists_readUpTo boundary positive
    rw [reads.isSuppressed_iff boundary, reads.openAt_iff, reads.commentEndsAt_iff]
    by_cases delimited : token.mode = .code
    · simp [delimited, Token.OpenAfter]
    · by_cases remains : token.OpenAfter part
      · simp [delimited, remains]
      · have quoted := reads.quoteBefore_iff boundary delimited remains
        simp [delimited, remains, quoted]

end Read

namespace Server

open Text

/-- The reply to a request for completions is the list of them, unless the place is quiet. -/
theorem reply_complete
    {server : Server}
    {place : Place}
    {text : Text}
    (opened : server.text? place.uri.render = some text)
    (files : FileTree) :
    (server.complete files place).2 =
      if isQuiet text place.position then .answered .nothing
      else .answered (.completion (server.completionItems files place.uri text)) := by
  rw [complete, opened]
  simp only
  split
  · rfl
  · rfl

/--
Of an open document, a request for completions is answered with nothing where a
scan of the document has something open, and only there, exactly if no comment
ends at the place and no quote in front of it leaves something open.
-/
theorem complete_agrees_iff
    {server : Server}
    {place : Place}
    {text : Text}
    {offset : Nat}
    (opened : server.text? place.uri.render = some text)
    (located : offsetOf? text place.position = some offset)
    (files : FileTree) :
    (scan text).drop (Text.before offset text).length =
        scanFrom (stateAt text offset) (Text.after offset text) ∧
      (stateAt text offset ≠ .code ↔ OpenAt text offset) ∧
        (((server.complete files place).2 = .answered .nothing ↔ stateAt text offset ≠ .code) ↔
          ¬ CommentEndsAt text offset ∧ ¬ (QuoteBefore text offset ∧ OpenAt text offset)) := by
  have boundary := isBoundary_of_offsetOf? located
  refine ⟨drop_scan text offset, stateAt_ne_code_iff boundary, ?_⟩
  rw [stateAt_ne_code_iff boundary, ← isSuppressed_iff_openAt_iff boundary, reply_complete opened,
    isQuiet, located, Option.any_some]
  cases Completion.isSuppressed text offset with
  | true => simp
  | false => simp

def draftUri : Uri :=
  .ofFilePath ["draft.sql".toList]

/-- A server with one open document. -/
def drafting (text : Text) : Server :=
  { fresh with opened := [(draftUri.render, text)] }

theorem complete_agrees_iff_hooked :
    offsetOf? hooked ⟨0, 9⟩ = some 10 ∧
      ((drafting hooked).complete .empty ⟨draftUri, ⟨0, 9⟩⟩).2 = .answered .nothing ∧
        stateAt hooked 10 = .inString := by
  have located : offsetOf? hooked ⟨0, 9⟩ = some 10 := by decide +kernel
  have inside : stateAt hooked 10 = .inString := by decide +kernel
  have opened : (drafting hooked).text? draftUri.render = some hooked := by decide +kernel
  obtain ⟨-, -, agrees⟩ :=
    @complete_agrees_iff (drafting hooked) ⟨draftUri, ⟨0, 9⟩⟩ hooked 10 opened located .empty
  have noComment : ¬ CommentEndsAt hooked 10 := by
    rintro ⟨token, reads, isComment, -⟩
    have mode := reads.mode_eq
    rw [show (byteScan .code (utf8 hooked))[10 - 1]? = some .string by decide +kernel,
      Option.some.injEq] at mode
    simp [← mode] at isComment
  have noQuote : ¬ QuoteBefore hooked 10 := by
    unfold QuoteBefore
    decide +kernel
  refine ⟨located, ?_, inside⟩
  rw [agrees.mpr ⟨noComment, fun quoted => noQuote quoted.1⟩, inside]
  exact ScanState.noConfusion

/-- Nothing is offered on the line behind a comment, and all is offered right behind a quote. -/
theorem complete_disagrees :
    (((drafting "-- note\n".toList).complete .empty ⟨draftUri, ⟨1, 0⟩⟩).2 = .answered .nothing ∧
        offsetOf? "-- note\n".toList ⟨1, 0⟩ = some 8 ∧
          stateAt "-- note\n".toList 8 = .code) ∧
      ((drafting "select \x27".toList).complete .empty ⟨draftUri, ⟨0, 8⟩⟩).2 ≠ .answered .nothing ∧
        offsetOf? "select \x27".toList ⟨0, 8⟩ = some 8 ∧
          stateAt "select \x27".toList 8 = .inString := by
  have opened (text : Text) : (drafting text).text? draftUri.render = some text := by
    simp [drafting, text?]
  refine ⟨⟨?_, by decide +kernel, by decide +kernel⟩, ?_, by decide +kernel, by decide +kernel⟩
  · rw [reply_complete (opened _), if_pos (by decide +kernel)]
  · rw [reply_complete (opened _), if_neg (by decide +kernel)]
    exact fun same => by cases same

end Server

end RoutineServer
