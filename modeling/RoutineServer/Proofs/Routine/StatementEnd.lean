import RoutineServer.Proofs.Lexical.Resume
import RoutineServer.Proofs.Routine.Walk

namespace RoutineServer

/-!
# The semicolon of a statement

A declaration whose body has no block ends at the first semicolon outside of its
quoted body. Inside the body, semicolons are text, and `CASE` and `END` only
move the depth of the walk, which decides nothing as long as no block has begun.
-/

/-- No word of a text starts a block or the declarations before one. -/
def Blockless (code : Text) : Prop :=
  ∀ word ∈ codeWords code, ¬ IsKeyword "begin" word ∧ ¬ IsKeyword "declare" word

instance (code : Text) : Decidable (Blockless code) :=
  List.decidableBAll _ (codeWords code)

namespace BlockWalk

variable {walk : BlockWalk} {following : Text}

/--
While no block has begun, `END` is passed with at most the word behind it, and
moves only the depth. It reads nothing of a text that starts with neither a
blank nor a word.
-/
theorem meetEnd_unbegun
    (notBegun : walk.begun = false)
    (visible : following.head?.any isBlank = false)
    (outside : following.head?.any isKeywordChar = false)
    (rest : Text) :
    ∃ ahead more depth, rest = ahead ++ more ∧ (ahead = [] ∨ more.head?.any isKeywordChar = false) ∧
      walk.meetEnd (ahead ++ (more ++ following)) =
        .resume { walk with depth := depth } ahead.length := by
  have closes (text : Text) :
      walk.closeLevel text = .resume { walk with depth := walk.depth - 1 } 0 :=
    closeLevel_inside (.inr notBegun)
  -- The word behind `END` is looked for in the rest of the piece only.
  have same := nextKeyword?_append_of_head visible outside rest
  cases found : nextKeyword? rest with
  | none =>
      refine ⟨[], rest, walk.depth - 1, rfl, .inl rfl, ?_⟩
      rw [List.nil_append, meetEnd, same, found]
      exact closes _
  | some next =>
      obtain ⟨blanks, word⟩ := next
      obtain ⟨gap, more, isGap, isWord, ends, rfl, rfl⟩ := exists_of_nextKeyword? found
      rw [found] at same
      have shape : (gap ++ word) ++ (more ++ following) = (gap ++ (word ++ more)) ++ following := by
        simp
      by_cases uncounted : IsKeyword "if" word ∨ IsKeyword "loop" word
      · refine ⟨gap ++ word, more, walk.depth, by simp, .inr ends, ?_⟩
        rw [shape, meetEnd_eq same, if_pos uncounted, List.length_append]
      · by_cases isCase : IsKeyword "case" word
        · refine ⟨gap ++ word, more, walk.depth - 1, by simp, .inr ends, ?_⟩
          rw [shape, meetEnd_eq same, if_neg uncounted, if_pos isCase, List.length_append]
        · refine ⟨[], gap ++ (word ++ more), walk.depth - 1, rfl, .inl rfl, ?_⟩
          rw [List.nil_append, meetEnd_eq same, if_neg uncounted, if_neg isCase]
          exact closes _

/-- While no block has begun, a word that starts none moves only the depth. -/
theorem meetWord_unbegun
    {word : Text}
    (notBegun : walk.begun = false)
    (visible : following.head?.any isBlank = false)
    (outside : following.head?.any isKeywordChar = false)
    (notBegin : ¬ IsKeyword "begin" word)
    (notDeclare : ¬ IsKeyword "declare" word)
    (rest : Text) :
    ∃ ahead more depth, rest = ahead ++ more ∧ (ahead = [] ∨ more.head?.any isKeywordChar = false) ∧
      walk.meetWord word (ahead ++ (more ++ following)) =
        .resume { walk with depth := depth } ahead.length := by
  by_cases ends : IsKeyword "end" word
  · simp only [meetWord_end ends]
    exact meetEnd_unbegun notBegun visible outside rest
  · refine ⟨[], rest, if IsKeyword "case" word then walk.depth + 1 else walk.depth, rfl, .inl rfl,
      ?_⟩
    rw [meetWord_eq, if_neg notDeclare, if_neg notBegin, if_neg ends]
    split
    case isTrue => rfl
    case isFalse => rfl

/--
While no block has begun, code that starts none is passed: inside a quote
whatever its semicolons, outside of quotes without any. Only the depth moves.
-/
theorem passes_blockless
    {code : Text}
    (notBegun : walk.begun = false)
    (blockless : Blockless code)
    (dollars : dollarsBeforeDigits code = true)
    (quoted : walk.quote.isSome = true ∨ ';' ∉ code)
    (visible : following.head?.any isBlank = false)
    (outside : following.head?.any isKeywordChar = false) :
    ∃ depth, walk.Passes code following { walk with depth := depth } := by
  have carries : Carries code following fun _ reached =>
      ∃ depth, reached = { walk with depth := depth } := {
    dollars := dollars
    apart := .of_head outside code
    semicolon := by
      rintro passed rest reached rfl ⟨depth, rfl⟩
      have isQuoted : walk.quote.isSome = true := quoted.resolve_right (by simp)
      rw [endsAtSemicolon, ← Option.not_isSome, isQuoted]
      rfl
    other := fun _ _ _ _ kept => kept
    word := by
      rintro passed word rest reached whole isWord delimited member ⟨level, rfl⟩
      obtain ⟨notBegin, notDeclare⟩ := blockless word member
      have unbegun : BlockWalk.begun { walk with depth := level } = false := notBegun
      obtain ⟨ahead, more, depth, rfl, ends, met⟩ :=
        meetWord_unbegun unbegun visible outside notBegin notDeclare rest
      refine ⟨ahead, more, _, rfl, ?_, met, depth, rfl⟩
      rcases ends with rfl | ends
      · simpa using delimited.after
      · exact .of_head ends _ }
  obtain ⟨resumed, ⟨depth, rfl⟩, passes⟩ := carries.passes ⟨walk.depth, rfl⟩
  exact ⟨depth, passes⟩

end BlockWalk

/-- A part of a statement outside of quoted text. -/
structure StatementPart (part : Text) : Prop where
  plain : IsPlain part
  blockless : Blockless part
  noSemicolon : ';' ∉ part
  noDollar : '$' ∉ part

theorem IsTag.isPlain
    {tag : Text}
    (isTag : IsTag tag) :
    IsPlain tag := by
  obtain ⟨label, rfl, keywordChars, -⟩ := isTag
  apply IsPlain.of_all
  rw [List.all_eq_true]
  intro char member
  rw [List.mem_append, List.mem_cons, List.mem_singleton] at member
  rcases member with (rfl | inLabel) | rfl
  · rfl
  · have keyword := keywordChars char inLabel
    have others (other : Char) (fails : isKeywordChar other = false) : (char != other) = true :=
      bne_iff_ne.mpr (ne_of_holds keyword fails)
    simp only [opensNothing, Bool.and_eq_true]
    exact ⟨⟨⟨others _ (by decide), others _ (by decide)⟩, others _ (by decide)⟩,
      others _ (by decide)⟩
  · rfl

/-- A plain text is scanned on its own, if its last character does not look at what follows. -/
theorem IsPlain.scan_append
    {text following : Text}
    (plain : IsPlain text)
    (quiet :
      ∀ last, text.getLast? = some last →
        ∀ before : ScanState, before.step last following.head? = before.step last none) :
    scan (text ++ following) = Glyph.plain text ++ scan following := by
  rw [scan, scanFrom_append .code text following quiet, plain.scanEnd_eq]
  exact congrArg (· ++ scan following) plain.scan_eq

namespace IsTag

variable {tag : Text} (isTag : IsTag tag) (following : Text)

include isTag

theorem head_eq :
    (tag ++ following).head? = some '$' := by
  obtain ⟨label, rfl, -⟩ := isTag
  rfl

theorem head_visible :
    (tag ++ following).head?.any isBlank = false := by
  rw [isTag.head_eq]
  rfl

theorem head_outside :
    (tag ++ following).head?.any isKeywordChar = false := by
  rw [isTag.head_eq]
  rfl

/-- In front of a tag nothing is looked at in advance. -/
theorem step_before
    (state : ScanState)
    (char : Char) :
    state.step char (tag ++ following).head? = state.step char none := by
  rw [isTag.head_eq]
  exact state.step_of_ne char (by decide)

/-- A tag is scanned on its own. -/
theorem scan_append :
    scan (tag ++ following) = Glyph.plain tag ++ scan following := by
  apply isTag.isPlain.scan_append
  intro last isLast state
  obtain ⟨label, rfl, -⟩ := isTag
  rw [List.getLast?_concat, Option.some_inj] at isLast
  subst isLast
  cases state with
  | code => rfl
  | inString => rfl
  | inIdentifier => rfl
  | inLineComment => rfl
  | openingBlockComment => rfl
  | inBlockComment afterStar => rfl

end IsTag

/-- The scan of a statement with a quoted body, up to its semicolon. -/
theorem scan_quotedStatement
    {lead tag body tail : Text}
    (leadPlain : IsPlain lead)
    (isTag : IsTag tag)
    (closed : scanEnd .code body = .code)
    (tailPlain : IsPlain tail)
    (rest : Text) :
    scan (lead ++ (tag ++ (body ++ (tag ++ (tail ++ ';' :: rest))))) =
      Glyph.plain lead ++ (Glyph.plain tag ++ (scan body ++ (Glyph.plain tag ++
        (Glyph.plain tail ++ ⟨';', .code⟩ :: scan rest)))) := by
  have leadScan := leadPlain.scan_append fun last _ state =>
    isTag.step_before (body ++ (tag ++ (tail ++ ';' :: rest))) state last
  have bodyScan : scan (body ++ (tag ++ (tail ++ ';' :: rest))) =
      scan body ++ scan (tag ++ (tail ++ ';' :: rest)) := by
    rw [scan, scanFrom_append _ _ _ fun last _ state =>
      isTag.step_before (tail ++ ';' :: rest) state last, closed]
    rfl
  have tailScan : scan (tail ++ ';' :: rest) = Glyph.plain tail ++ scan (';' :: rest) :=
    tailPlain.scan_append fun last _ state => state.step_of_ne last (by decide)
  rw [leadScan, isTag.scan_append, bodyScan, isTag.scan_append, tailScan]
  rfl

open BlockWalk

/-- The walk stops at the first semicolon behind the quoted body. -/
theorem run_quotedStatement
    {lead tag code tail : Text}
    (leadPart : StatementPart lead)
    (isTag : IsTag tag)
    (blockless : Blockless code)
    (dollars : dollarsBeforeDigits code = true)
    (tailPart : StatementPart tail)
    (rest : Text) :
    BlockWalk.start.run 0 (lead ++ (tag ++ (code ++ (tag ++ (tail ++ ';' :: rest))))) =
      some ((lead ++ (tag ++ (code ++ (tag ++ tail)))).length + 1) := by
  have leadPasses (following : Text) :
      ∃ depth, BlockWalk.start.Passes lead (tag ++ following) ⟨depth, false, false, none⟩ :=
    passes_blockless rfl leadPart.blockless (dollarsBeforeDigits_of_not_mem leadPart.noDollar)
      (.inr leadPart.noSemicolon) (isTag.head_visible following) (isTag.head_outside following)
  have codePasses (level : Int) (following : Text) :
      ∃ depth, Passes ⟨level, false, false, some tag⟩ code (tag ++ following)
        ⟨depth, false, false, some tag⟩ :=
    passes_blockless rfl blockless dollars (.inl rfl) (isTag.head_visible following)
      (isTag.head_outside following)
  have tailPasses (level : Int) :
      ∃ depth, Passes ⟨level, false, false, none⟩ tail (';' :: rest)
        ⟨depth, false, false, none⟩ :=
    passes_blockless rfl tailPart.blockless (dollarsBeforeDigits_of_not_mem tailPart.noDollar)
      (.inr tailPart.noSemicolon) rfl rfl
  have closes (level : Int) :
      meetTag ⟨level, false, false, some tag⟩ tag = ⟨level, false, false, none⟩ := by
    simp [meetTag]
  obtain ⟨before, leadPasses⟩ := leadPasses (code ++ (tag ++ (tail ++ ';' :: rest)))
  have opening :=
    passes_tag ⟨before, false, false, none⟩ isTag (code ++ (tag ++ (tail ++ ';' :: rest)))
  obtain ⟨inside, codePasses⟩ := codePasses before (tail ++ ';' :: rest)
  have closing := passes_tag ⟨inside, false, false, some tag⟩ isTag (tail ++ ';' :: rest)
  rw [closes] at closing
  obtain ⟨behind, tailPasses⟩ := tailPasses inside
  have quoted := codePasses.append (closing.append tailPasses rfl) (by simp)
  have passes := leadPasses.append (opening.append quoted (by simp)) (by simp)
  have ends : run ⟨behind, false, false, none⟩ 0 (';' :: rest) = some 1 := run_semicolon _ rfl rest
  rw [Passes, ends] at passes
  simp only [List.append_assoc, Option.map_some, Nat.add_comm 1] at passes
  exact passes

/--
If the walk ends with a part of the text, whatever follows it, the declaration
does, unless the limit cuts a character of the mask.
-/
theorem declarationEnd?_of_front
    {front rest : Text}
    {glyphs later : List Glyph}
    {limit : Nat}
    (scans : scan (front ++ rest) = glyphs ++ later)
    (size : glyphs.length = front.length)
    (nonempty : front ≠ [])
    (reaches : Text.byteLength front ≤ limit)
    (ended : ∀ following,
      BlockWalk.start.run 0 (Glyph.code glyphs ++ following) = some front.length) :
    declarationEnd? (front ++ rest) 0 limit =
      if Text.isBoundary (min limit (Text.byteLength (front ++ rest)))
          (maskedText (front ++ rest)) then
        some (Text.byteLength front)
      else none := by
  have within : Text.byteLength front ≤ min limit (Text.byteLength (front ++ rest)) := by
    rw [Text.byteLength_append]
    omega
  have covered :
      glyphs.length ≤ Text.index (min limit (Text.byteLength (front ++ rest))) (front ++ rest) := by
    rw [size, ← Text.index_byteLength_append front rest]
    exact Text.index_mono within (front ++ rest)
  have positive : 0 < min limit (Text.byteLength (front ++ rest)) :=
    Nat.lt_of_lt_of_le (Text.byteLength_pos nonempty) within
  have found := declarationEnd?_of_run positive (by
    rw [scans, List.take_append, List.take_of_length_le covered, Glyph.code, List.map_append]
    exact ended _)
  rw [found, List.take_left, Nat.min_eq_right within]

/--
A declaration whose quoted body starts no block ends just past the semicolon of
its statement, whatever semicolons and `CASE` and `END` words the body has. The
limit can be anywhere behind the semicolon but inside of a character that the
mask shows; there is no answer for such a limit.
-/
theorem declarationEnd?_quotedStatement
    {lead tag body tail rest : Text}
    {limit : Nat}
    (leadPart : StatementPart lead)
    (isTag : IsTag tag)
    (closed : scanEnd .code body = .code)
    (blockless : Blockless (Glyph.code (scan body)))
    (dollars : dollarsBeforeDigits (Glyph.code (scan body)) = true)
    (tailPart : StatementPart tail)
    (reaches :
      Text.byteLength (lead ++ (tag ++ (body ++ (tag ++ (tail ++ [';']))))) ≤ limit) :
    let text := lead ++ (tag ++ (body ++ (tag ++ (tail ++ ';' :: rest))))
    declarationEnd? text 0 limit =
      if Text.isBoundary (min limit (Text.byteLength text)) (maskedText text) then
        some (Text.byteLength (lead ++ (tag ++ (body ++ (tag ++ (tail ++ [';']))))))
      else none := by
  intro text
  have shape : text = (lead ++ (tag ++ (body ++ (tag ++ (tail ++ [';']))))) ++ rest := by
    simp [text]
  have scans := scan_quotedStatement leadPart.plain isTag closed tailPart.plain rest
  have glyphs :
      scan ((lead ++ (tag ++ (body ++ (tag ++ (tail ++ [';']))))) ++ rest) =
        (Glyph.plain lead ++ (Glyph.plain tag ++ (scan body ++ (Glyph.plain tag ++
          (Glyph.plain tail ++ [⟨';', .code⟩]))))) ++ scan rest := by
    rw [← shape, scans]
    simp
  rw [shape]
  apply declarationEnd?_of_front glyphs
  · simp [Glyph.plain, scan]
  · simp
  · exact reaches
  · intro following
    have length : (Glyph.code (scan body)).length = body.length := by
      simp [Glyph.code, scan]
    have semicolon : Glyph.code [⟨';', .code⟩] = [';'] := rfl
    have ended := run_quotedStatement leadPart isTag blockless dollars tailPart following
    simp only [Glyph.code_append, Glyph.code_plain, semicolon, List.append_assoc,
      List.singleton_append, ended, List.length_append, List.length_singleton, length,
      Nat.add_assoc]

private def ratingBody : Text :=
  "SELECT CASE $1 'begin; $fn$' END; /* ;declare */ END IF; -- begin\n end CASE ; END ".toList

/--
The semicolons, tags and keywords of the body are quoted, commented out or
without a block. One limit lies inside of a hidden character behind the
statement, the other one inside of a character of the code there.
-/
theorem declarationEnd?_quotedStatement_rating :
    let text :=
      "() RETURNS int AS ".toList ++ ("$fn$".toList ++ (ratingBody ++ ("$fn$".toList ++
        (" LANGUAGE sql".toList ++ ';' :: " BEGIN 'é' é; END;".toList))))
    declarationEnd? text 0 131 = some 122 ∧ declarationEnd? text 0 135 = none := by
  have lead : StatementPart "() RETURNS int AS ".toList := {
    plain := .of_all (by decide +kernel)
    blockless := by decide +kernel
    noSemicolon := by decide +kernel
    noDollar := by decide +kernel }
  have tail : StatementPart " LANGUAGE sql".toList := {
    plain := .of_all (by decide +kernel)
    blockless := by decide +kernel
    noSemicolon := by decide +kernel
    noDollar := by decide +kernel }
  have tag : IsTag "$fn$".toList :=
    ⟨['f', 'n'], by decide +kernel, List.all_eq_true.mp (by decide), by decide⟩
  have closed : scanEnd .code ratingBody = .code := by decide +kernel
  constructor
  · refine (declarationEnd?_quotedStatement lead tag closed ?_ ?_ tail ?_).trans ?_
    all_goals decide +kernel
  · refine (declarationEnd?_quotedStatement lead tag closed ?_ ?_ tail ?_).trans ?_
    all_goals decide +kernel

/-- An empty statement with an empty body, and a letter of two bytes behind it. -/
private def cutLetter : Text :=
  "$$$$;é".toList

/-- A limit past the semicolon, but inside of the letter, leaves the end open. -/
theorem declarationEnd?_cutLetter :
    StatementPart [] ∧ IsTag "$$".toList ∧ scanEnd .code [] = .code ∧
      Blockless (Glyph.code (scan [])) ∧ dollarsBeforeDigits (Glyph.code (scan [])) = true ∧
        cutLetter = [] ++ ("$$".toList ++ ([] ++ ("$$".toList ++ ([] ++ ';' :: "é".toList)))) ∧
          Text.byteLength ([] ++ ("$$".toList ++ ([] ++ ("$$".toList ++ ([] ++ [';']))))) ≤ 6 ∧
            declarationEnd? cutLetter 0 6 = none := by
  have part : StatementPart [] := {
    plain := .of_all rfl
    blockless := by decide
    noSemicolon := List.not_mem_nil
    noDollar := List.not_mem_nil }
  exact ⟨part, ⟨[], by decide +kernel, by simp, rfl⟩, rfl, by decide, rfl, by decide +kernel,
    by decide +kernel, by decide +kernel⟩

end RoutineServer
