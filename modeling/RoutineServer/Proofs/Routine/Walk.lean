import RoutineServer.Proofs.Routine.CodeWords
import RoutineServer.Proofs.Routine.Mask

namespace RoutineServer

/-!
# Walking through code

The walk that looks for the end of a declaration reads words, dollar-quote tags
and single characters. This module says what it does with each of them, and
what it keeps on its way through a piece of code: if no step ends the
declaration and every step preserves a property of the walk, the walk arrives
behind the piece with this property.
-/

theorem map_add_map
    (found : Option Nat)
    (first second : Nat) :
    (found.map (· + first)).map (· + second) = found.map (· + (first + second)) := by
  simp [Function.comp_def, Nat.add_assoc]

namespace BlockWalk

/-- A walk goes through a piece of code without an end, and goes on as another walk. -/
def Passes (walk : BlockWalk) (code following : Text) (resumed : BlockWalk) : Prop :=
  walk.run 0 (code ++ following) = (resumed.run 0 following).map (· + code.length)

variable (walk : BlockWalk)

theorem Passes.nil
    (following : Text) :
    walk.Passes [] following walk := by
  simp [Passes]

theorem Passes.append
    {walk middle resumed : BlockWalk}
    {first second following behind : Text}
    (left : walk.Passes first behind middle)
    (right : middle.Passes second following resumed)
    (shape : behind = second ++ following) :
    walk.Passes (first ++ second) following resumed := by
  rw [Passes] at left right ⊢
  rw [List.append_assoc, ← shape, left, shape, right, map_add_map, List.length_append,
    Nat.add_comm]

/-- A word is met as a whole. -/
theorem run_word
    {word following : Text}
    (isWord : IsWord word)
    (apart : WordBreak word following) :
    walk.run 0 (word ++ following) =
      match walk.meetWord word following with
      | .finish length => some (word.length + length)
      | .resume resumed ahead =>
          (resumed.run 0 (following.drop ahead)).map (· + (word.length + ahead)) := by
  have read := isWord.takeWhile_append apart
  cases word with
  | nil => exact absurd rfl isWord.nonempty
  | cons char more =>
      have keyword := isWord.keywordChars char List.mem_cons_self
      rw [List.cons_append, List.takeWhile_cons_of_pos keyword, List.cons.injEq] at read
      have noTag := dollarTagLength?_of_ne (ne_of_holds keyword (by decide)) (more ++ following)
      have notSemicolon : (char == ';') = false := by
        simpa using ne_of_holds keyword (by decide : isKeywordChar ';' = false)
      rw [List.cons_append, run_cons, next, noTag, notSemicolon]
      simp only [Bool.false_and, Bool.false_eq_true, ↓reduceIte, keyword, read.2, List.drop_left]
      cases walk.meetWord (char :: more) following with
      | finish length => rfl
      | resume resumed ahead =>
          have behind :
              (char :: more ++ following).drop ((char :: more).length + ahead) =
                following.drop ahead :=
            List.drop_length_add_append ahead
          rw [List.cons_append, List.length_cons] at behind
          simp only [behind, List.length_cons]

/-- A word that does not end the declaration is passed with what is read behind it. -/
theorem passes_word
    {resumed : BlockWalk}
    {word ahead following : Text}
    (isWord : IsWord word)
    (apart : WordBreak word (ahead ++ following))
    (met : walk.meetWord word (ahead ++ following) = .resume resumed ahead.length) :
    walk.Passes (word ++ ahead) following resumed := by
  rw [Passes, List.append_assoc, walk.run_word isWord apart, met, List.length_append]
  simp only [List.drop_left]

theorem passes_keyword
    {resumed : BlockWalk}
    {word following : Text}
    (isWord : IsWord word)
    (apart : WordBreak word following)
    (met : walk.meetWord word following = .resume resumed 0) :
    walk.Passes word following resumed := by
  have passes : walk.Passes (word ++ []) following resumed := walk.passes_word isWord apart met
  rwa [List.append_nil] at passes

/-- Any other character is passed, unless it ends the statement. -/
theorem passes_other
    {char : Char}
    {rest : Text}
    (other : isKeywordChar char = false)
    (noTag : dollarTagLength? (char :: rest) = none)
    (goesOn : char = ';' → walk.endsAtSemicolon = false) :
    walk.Passes [char] rest walk := by
  have noEnd : (char == ';' && walk.endsAtSemicolon) = false := by
    by_cases semicolon : char = ';'
    · simp [goesOn semicolon]
    · simp [semicolon]
  rw [Passes, List.singleton_append, run_cons, next, noTag]
  simp [noEnd, other]

theorem run_semicolon
    (ends : walk.endsAtSemicolon = true)
    (rest : Text) :
    walk.run 0 (';' :: rest) = some 1 := by
  rw [run_cons, next, dollarTagLength?_of_ne (by decide)]
  simp [ends]

/-- A tag is met as a whole. -/
theorem passes_tag
    {tag : Text}
    (isTag : IsTag tag)
    (rest : Text) :
    walk.Passes tag rest (walk.meetTag tag) := by
  have found := dollarTagLength?_append isTag rest
  have read : (tag ++ rest).take tag.length = tag := List.take_left
  have behind : (tag ++ rest).drop tag.length = rest := List.drop_left
  obtain ⟨label, shape, -⟩ := isTag
  obtain ⟨more, whole⟩ : ∃ more, tag ++ rest = '$' :: more :=
    ⟨_, by rw [shape, List.cons_append, List.cons_append]⟩
  rw [whole] at found read behind
  rw [Passes, whole, run_cons, next, found]
  simp only [read, behind]

/--
What a walk keeps on its way through a piece of code, as a property of the code
passed and the walk there. No step inside the piece ends the declaration; a word
may be read together with some of the code behind it.
-/
structure Carries
    (code following : Text)
    (Keeps : Text → BlockWalk → Prop) : Prop where
  dollars : dollarsBeforeDigits code = true
  apart : WordBreak code following
  semicolon : ∀ passed rest walk, code = passed ++ ';' :: rest → Keeps passed walk →
    walk.endsAtSemicolon = false
  other : ∀ passed char walk, isKeywordChar char = false → Keeps passed walk →
    Keeps (passed ++ [char]) walk
  word : ∀ passed word rest walk, code = passed ++ (word ++ rest) → IsWord word →
    Delimited passed word rest → word ∈ codeWords code → Keeps passed walk →
      ∃ ahead more resumed, rest = ahead ++ more ∧ WordBreak (word ++ ahead) more ∧
        walk.meetWord word (ahead ++ (more ++ following)) = .resume resumed ahead.length ∧
        Keeps (passed ++ (word ++ ahead)) resumed

namespace Carries

variable {code following : Text} {Keeps : Text → BlockWalk → Prop}

theorem noTag
    (carries : Carries code following Keeps)
    {passed rest : Text}
    {char : Char}
    (whole : code = passed ++ char :: rest) :
    dollarTagLength? (char :: (rest ++ following)) = none := by
  by_cases dollar : char = '$'
  · subst dollar
    have digit := digit_of_dollarsBeforeDigits (whole ▸ carries.dollars)
    apply dollarTagLength?_digit
    cases rest with
    | nil => cases digit
    | cons next more => exact digit
  · exact dollarTagLength?_of_ne dollar _

/-- The word that starts at a place of the code, and what is behind it. -/
theorem exists_word
    (carries : Carries code following Keeps)
    {passed rest : Text}
    (whole : code = passed ++ rest)
    (apart : WordBreak passed rest)
    (starts : rest.head?.any isKeywordChar = true) :
    ∃ word behind, rest = word ++ behind ∧ IsWord word ∧
      Delimited passed word (behind ++ following) ∧ word ∈ codeWords code := by
  obtain ⟨word, behind, rfl, isWord, ends⟩ := exists_word_of_head starts
  refine ⟨word, behind, rfl, isWord, ⟨.of_getLast (apart.getLast starts) _, ?_⟩, ?_⟩
  · cases behind with
    | cons char more => exact .of_head ends _
    | nil =>
        refine .of_head (carries.apart.head ?_) _
        rw [whole, List.append_nil, List.getLast?_append_of_ne_nil _ isWord.nonempty]
        exact isWord.getLast
  · rw [whole, codeWords_append apart, codeWords_append (.of_head ends _), codeWords_word isWord]
    simp

/-- From any place between words, a walk arrives behind the code with what it keeps. -/
theorem passes_from
    (carries : Carries code following Keeps)
    {passed rest : Text}
    {walk : BlockWalk}
    (whole : code = passed ++ rest)
    (apart : WordBreak passed rest)
    (kept : Keeps passed walk) :
    ∃ resumed, Keeps code resumed ∧ walk.Passes rest following resumed := by
  induction size : rest.length using Nat.strongRecOn generalizing passed rest walk with
  | ind total inductionHypothesis =>
      cases rest with
      | nil =>
          rw [List.append_nil] at whole
          subst whole
          exact ⟨walk, kept, .nil walk following⟩
      | cons char more =>
          by_cases keyword : isKeywordChar char = true
          · obtain ⟨word, behind, shape, isWord, ⟨before, after⟩, member⟩ :=
              carries.exists_word whole apart (by simpa using keyword)
            rw [shape] at whole size ⊢
            obtain ⟨ahead, later, resumed, rfl, nextApart, met, nextKept⟩ :=
              carries.word passed word behind walk whole isWord ⟨before, after.of_append_right⟩
                member kept
            have nonempty : word ++ ahead ≠ [] := by simp [isWord.nonempty]
            have nextBreak : WordBreak (passed ++ (word ++ ahead)) later := by
              rwa [WordBreak, List.getLast?_append_of_ne_nil _ nonempty]
            have shorter : later.length < total := by
              have positive := List.length_pos_iff.mpr isWord.nonempty
              rw [List.length_append, List.length_append] at size
              omega
            obtain ⟨final, finalKept, passes⟩ :=
              inductionHypothesis later.length shorter (by simpa using whole) nextBreak nextKept rfl
            refine ⟨final, finalKept, ?_⟩
            rw [List.append_assoc] at after
            rw [← List.append_assoc]
            exact (walk.passes_word isWord after met).append passes rfl
          · have other : isKeywordChar char = false := by simpa using keyword
            have nextBreak : WordBreak (passed ++ [char]) more :=
              .of_getLast (by simpa using other) more
            obtain ⟨final, finalKept, passes⟩ :=
              inductionHypothesis more.length (by simp [← size]) (by simpa using whole) nextBreak
                (carries.other passed char walk other kept) rfl
            have first : walk.Passes [char] (more ++ following) walk :=
              walk.passes_other other (carries.noTag whole) fun semicolon =>
                carries.semicolon passed more walk (semicolon ▸ whole) kept
            exact ⟨final, finalKept, first.append passes rfl⟩

theorem passes
    (carries : Carries code following Keeps)
    {walk : BlockWalk}
    (kept : Keeps [] walk) :
    ∃ resumed, Keeps code resumed ∧ walk.Passes code following resumed :=
  carries.passes_from rfl (.of_getLast rfl code) kept

end Carries

variable {walk} {word following : Text}

/-- What a word means, keyword by keyword. -/
theorem meetWord_eq
    (walk : BlockWalk)
    (word following : Text) :
    walk.meetWord word following =
      if IsKeyword "declare" word then .resume { walk with declaring := true } 0
      else if IsKeyword "begin" word then
        .resume { walk with depth := walk.depth + 1, begun := true, declaring := false } 0
      else if IsKeyword "case" word then .resume { walk with depth := walk.depth + 1 } 0
      else if IsKeyword "end" word then walk.meetEnd following
      else .resume walk 0 := rfl

theorem meetWord_begin
    (begins : IsKeyword "begin" word) :
    walk.meetWord word following =
      .resume { walk with depth := walk.depth + 1, begun := true, declaring := false } 0 := by
  rw [meetWord_eq, if_neg (begins.other (by decide)), if_pos begins]

theorem meetWord_case
    (opens : IsKeyword "case" word) :
    walk.meetWord word following = .resume { walk with depth := walk.depth + 1 } 0 := by
  rw [meetWord_eq, if_neg (opens.other (by decide)), if_neg (opens.other (by decide)),
    if_pos opens]

theorem meetWord_end
    (ends : IsKeyword "end" word) :
    walk.meetWord word following = walk.meetEnd following := by
  rw [meetWord_eq, if_neg (ends.other (by decide)), if_neg (ends.other (by decide)),
    if_neg (ends.other (by decide)), if_pos ends]

/-- A word that bounds no block can at most start the declarations before one. -/
theorem meetWord_unbounding
    (notBegin : ¬ IsKeyword "begin" word)
    (notCase : ¬ IsKeyword "case" word)
    (notEnd : ¬ IsKeyword "end" word) :
    walk.meetWord word following =
      .resume { walk with declaring := walk.declaring || decide (IsKeyword "declare" word) } 0 := by
  rw [meetWord_eq, if_neg notBegin, if_neg notCase, if_neg notEnd]
  split
  case isTrue declares => simp [declares]
  case isFalse other => simp [other]

/-- What the word behind an `END` means. -/
theorem meetEnd_eq
    {blanks : Nat}
    (found : nextKeyword? following = some (blanks, word)) :
    walk.meetEnd following =
      if IsKeyword "if" word ∨ IsKeyword "loop" word then .resume walk (blanks + word.length)
      else if IsKeyword "case" word then
        .resume { walk with depth := walk.depth - 1 } (blanks + word.length)
      else walk.closeLevel following := by
  simp only [meetEnd, found, Bool.or_eq_true]
  rfl

/-- An `END` in front of a text closes a block or a `CASE` expression on its own. -/
structure PlainEnd (following : Text) : Prop where
  notIf : ¬ IsKeyword "if" (nextWord following)
  notLoop : ¬ IsKeyword "loop" (nextWord following)
  notCase : ¬ IsKeyword "case" (nextWord following)

instance (following : Text) : Decidable (PlainEnd following) :=
  decidable_of_iff
    (¬ IsKeyword "if" (nextWord following) ∧ ¬ IsKeyword "loop" (nextWord following) ∧
      ¬ IsKeyword "case" (nextWord following))
    ⟨fun ⟨notIf, notLoop, notCase⟩ => ⟨notIf, notLoop, notCase⟩,
      fun ⟨notIf, notLoop, notCase⟩ => ⟨notIf, notLoop, notCase⟩⟩

theorem meetEnd_plain
    (plain : PlainEnd following) :
    walk.meetEnd following = walk.closeLevel following := by
  by_cases none : nextWord following = []
  · rw [meetEnd, nextKeyword?_eq, if_pos none]
  · have found := nextKeyword?_eq following
    rw [if_neg none] at found
    rw [meetEnd_eq found, if_neg (not_or.mpr ⟨plain.notIf, plain.notLoop⟩), if_neg plain.notCase]

/-- Inside a block that stays open, closing a level only counts. -/
theorem closeLevel_inside
    (inside : 1 < walk.depth ∨ walk.begun = false) :
    walk.closeLevel following = .resume { walk with depth := walk.depth - 1 } 0 := by
  have goesOn : ¬ (walk.begun && decide (walk.depth - 1 ≤ 0)) = true := by
    rcases inside with deep | notBegun
    · simp [show ¬ walk.depth - 1 ≤ 0 by omega]
    · simp [notBegun]
  rw [closeLevel]
  exact if_neg goesOn

/-- The outermost level ends the declaration with what ends the block. -/
theorem closeLevel_outermost
    (begun : walk.begun = true)
    (outermost : walk.depth = 1) :
    walk.closeLevel following = .finish (terminatorLength following) := by
  have ends : (walk.begun && decide (walk.depth - 1 ≤ 0)) = true := by
    simp [begun, outermost]
  rw [closeLevel]
  exact if_pos ends

end BlockWalk

/-- A text without quotes and comments. -/
structure IsPlain (text : Text) : Prop where
  noString : '\x27' ∉ text
  noIdentifier : '"' ∉ text
  noLineComment : ¬ ['-', '-'] <:+: text
  noBlockComment : ¬ ['/', '*'] <:+: text

/-- Whether a character can neither open a string or a quoted identifier nor start a comment. -/
def opensNothing (char : Char) : Bool :=
  char != '\x27' && char != '"' && char != '-' && char != '/'

namespace IsPlain

theorem of_all
    {text : Text}
    (holds : text.all opensNothing = true) :
    IsPlain text := by
  rw [List.all_eq_true] at holds
  exact {
    noString := fun member => absurd (holds _ member) (by decide)
    noIdentifier := fun member => absurd (holds _ member) (by decide)
    noLineComment := fun found =>
      absurd (holds _ (found.subset List.mem_cons_self)) (by decide)
    noBlockComment := fun found =>
      absurd (holds _ (found.subset List.mem_cons_self)) (by decide) }

theorem tail
    {char : Char}
    {rest : Text}
    (plain : IsPlain (char :: rest)) :
    IsPlain rest := by
  have behind : rest <:+: char :: rest := (List.suffix_cons char rest).isInfix
  exact {
    noString := fun member => plain.noString (.tail _ member)
    noIdentifier := fun member => plain.noIdentifier (.tail _ member)
    noLineComment := fun found => plain.noLineComment (found.trans behind)
    noBlockComment := fun found => plain.noBlockComment (found.trans behind) }

/-- A character of a plain text is code and opens nothing. -/
theorem step_eq
    {char : Char}
    {rest : Text}
    (plain : IsPlain (char :: rest)) :
    ScanState.code.step char rest.head? = (.code, .code) := by
  have starts {next : Char} (follows : rest.head? = some next) :
      [char, next] <:+: char :: rest := by
    obtain ⟨more, rfl⟩ := List.head?_eq_some_iff.mp follows
    exact (List.prefix_append [char, next] more).isInfix
  have notLine : ¬ (char = '-' ∧ rest.head? = some '-') := by
    rintro ⟨rfl, follows⟩
    exact plain.noLineComment (starts follows)
  have notBlock : ¬ (char = '/' ∧ rest.head? = some '*') := by
    rintro ⟨rfl, follows⟩
    exact plain.noBlockComment (starts follows)
  have notString : char ≠ '\x27' := fun same => plain.noString (same ▸ List.mem_cons_self)
  have notIdentifier : char ≠ '"' := fun same => plain.noIdentifier (same ▸ List.mem_cons_self)
  simp [ScanState.step, notLine, notBlock, notString, notIdentifier]

/-- All of a plain text is code. -/
theorem scan_eq
    {text : Text}
    (plain : IsPlain text) :
    scan text = Glyph.plain text := by
  induction text with
  | nil => rfl
  | cons char rest inductionHypothesis =>
      rw [scan, scanFrom, plain.step_eq]
      exact congrArg (⟨char, .code⟩ :: ·) (inductionHypothesis plain.tail)

theorem scanEnd_eq
    {text : Text}
    (plain : IsPlain text) :
    scanEnd .code text = .code := by
  induction text with
  | nil => rfl
  | cons char rest inductionHypothesis =>
      rw [scanEnd, plain.step_eq]
      exact inductionHypothesis plain.tail

end IsPlain

/-- Where the walk ends, the declaration ends. -/
theorem declarationEnd?_of_run
    {text : Text}
    {limit length : Nat}
    (nonempty : 0 < min limit (Text.byteLength text))
    (ended :
      BlockWalk.start.run 0
        (Glyph.code ((scan text).take (Text.index (min limit (Text.byteLength text)) text))) =
          some length) :
    declarationEnd? text 0 limit =
      if Text.isBoundary (min limit (Text.byteLength text)) (maskedText text) then
        some (min (min limit (Text.byteLength text)) (Text.byteLength (text.take length)))
      else none := by
  have within := BlockWalk.run_le ended
  have found (previous : Option Char) :
      endingLength previous
        (Glyph.code ((scan text).take (Text.index (min limit (Text.byteLength text)) text))) =
          length := by
    rw [endingLength, ended]
  have settled (previous : Option Char) :
      endsByKeyword previous
        (Glyph.code ((scan text).take (Text.index (min limit (Text.byteLength text)) text))) =
          true := by
    rw [endsByKeyword, ended]
    rfl
  have start : Text.index 0 text = 0 := by
    rw [Text.index]
  rw [declarationEnd?]
  simp only [Nat.not_le.mpr nonempty, ↓reduceIte, start, List.drop_zero, found, settled,
    Nat.zero_add, Bool.or_true, Bool.and_true]
  rw [Glyph.code, List.length_map] at within
  have chars : Glyph.chars ((scan text).take length) = text.take length := by
    rw [Glyph.chars, List.map_take]
    exact congrArg (List.take length) (chars_scanFrom .code text)
  rw [List.take_take, Nat.min_eq_left (within.trans (List.length_take_le _ _)), Glyph.byteLength,
    chars]

/-- In a plain text, the walk goes through the text itself. -/
theorem declarationEnd?_plain
    {text : Text}
    {limit length : Nat}
    (plain : IsPlain text)
    (reaches : Text.byteLength text ≤ limit)
    (ended : BlockWalk.start.run 0 text = some length) :
    declarationEnd? text 0 limit = some (Text.byteLength (text.take length)) := by
  have whole : min limit (Text.byteLength text) = Text.byteLength text := Nat.min_eq_right reaches
  have every : Text.index (Text.byteLength text) text = text.length := by
    have found := Text.index_byteLength_append text []
    rwa [List.append_nil] at found
  have positive : 0 < Text.byteLength text := by
    refine Text.byteLength_pos ?_
    rintro rfl
    cases ended
  have boundary : Text.isBoundary (Text.byteLength text) (maskedText text) = true := by
    have atEnd := Text.isBoundary_byteLength (maskedText text)
    rwa [byteLength_maskedText] at atEnd
  have inside : Text.byteLength (text.take length) ≤ Text.byteLength text := by
    have parts := congrArg Text.byteLength (List.take_append_drop length text)
    rw [Text.byteLength_append] at parts
    omega
  have walked :
      BlockWalk.start.run 0
          (Glyph.code ((scan text).take (Text.index (min limit (Text.byteLength text)) text))) =
        some length := by
    rw [whole, every, plain.scan_eq, List.take_of_length_le (by simp [Glyph.plain]),
      Glyph.code_plain]
    exact ended
  rw [declarationEnd?_of_run (by rwa [whole]) walked, whole, if_pos boundary,
    Nat.min_eq_right inside]

end RoutineServer
