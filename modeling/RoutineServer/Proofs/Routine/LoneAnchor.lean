import RoutineServer.Proofs.Lexical.Enclosure
import RoutineServer.Proofs.Routine.CodeWords
import RoutineServer.Proofs.Routine.LineAnchor
import RoutineServer.Proofs.Text.Spelling

namespace RoutineServer

/-!
# Documents with a single anchor

The words of an anchor are letters and blanks, so none reaches over any other
character, and the first of them is `create`. A text that is cut at such
characters has no anchor if its pieces have none. A document whose only anchor
stands at its start is one segment, and one declaration if the segment can be
read.
-/

theorem isWordChar_of_isKeywordChar
    {char : Char}
    (keyword : isKeywordChar char = true) :
    isWordChar char = true := by
  have inside : char.toNat < 0x80 := by
    simp only [isKeywordChar, Bool.or_eq_true, beq_iff_eq] at keyword
    rcases keyword with alphanumeric | rfl
    · exact Text.ascii_of_isAlphanum alphanumeric
    · decide
  rw [isWordChar, if_pos inside]
  exact keyword

namespace Anchor

/-- The words of an anchor one by one, at the place where it is found. -/
theorem exists_phrase_of_at?
    {previous : Option Char}
    {code : Text}
    {anchor : Anchor}
    (found : at? previous code = some anchor) :
    Text.wordStart previous = true ∧
      ∃ create blanks replacing word rest,
        code = create ++ (blanks ++ (replacing ++ (word ++ rest))) ∧
          Phrase anchor.kind create blanks replacing word ∧
            anchor.length = (create ++ (blanks ++ (replacing ++ word))).length := by
  rw [at?_eq_rest?, Option.ite_none_right_eq_some, Option.map_eq_some_iff] at found
  obtain ⟨free, ⟨kind, rest⟩, restFound, rfl⟩ := found
  obtain ⟨create, blanks, replacing, word, rfl, phrase, -⟩ := exists_phrase restFound
  refine ⟨free, create, blanks, replacing, word, rest, rfl, phrase, ?_⟩
  simp only [List.length_append]
  omega

/-- An anchor consists of letters and blanks. -/
theorem isAlpha_or_isBlank_of_mem_take
    {previous : Option Char}
    {code : Text}
    {anchor : Anchor}
    {char : Char}
    (found : at? previous code = some anchor)
    (member : char ∈ code.take anchor.length) :
    char.isAlpha = true ∨ isBlank char = true := by
  obtain ⟨-, create, blanks, replacing, word, rest, rfl, phrase, length⟩ :=
    exists_phrase_of_at? found
  have words :
      (create ++ (blanks ++ (replacing ++ (word ++ rest)))).take anchor.length =
        create ++ (blanks ++ (replacing ++ word)) := by
    have split :
        create ++ (blanks ++ (replacing ++ (word ++ rest))) =
          create ++ (blanks ++ (replacing ++ word)) ++ rest := by
      simp
    rw [split, length, List.take_left]
  rw [words] at member
  simp only [List.mem_append] at member
  rcases member with inCreate | inBlanks | inReplacing | inWord
  · exact .inl (phrase.create_spelled.isAlpha (by decide) char inCreate)
  · exact .inr (phrase.blank char inBlanks)
  · exact phrase.letters_or_blanks char inReplacing
  · exact .inl (isAlpha_of_spells_kind phrase.kind_spelled char inWord)

/-- A character that belongs to no anchor and to no word. -/
structure IsBar (char : Char) : Prop where
  notLetter : char.isAlpha = false
  notBlank : isBlank char = false
  notWord : isWordChar char = false

theorem isBar_opening : IsBar '(' :=
  ⟨by decide, by decide, by decide⟩

theorem isBar_closing : IsBar ')' :=
  ⟨by decide, by decide, by decide⟩

/-- An anchor ends in front of a bar. -/
theorem at?_of_append_bar
    {previous : Option Char}
    {code rest : Text}
    {bar : Char}
    {anchor : Anchor}
    (isBar : IsBar bar)
    (found : at? previous (code ++ bar :: rest) = some anchor) :
    at? previous code = some anchor := by
  have wordEnd : Text.wordEnd (bar :: rest) = true := by
    simp [Text.wordEnd, isBar.notWord]
  refine (at?_append_iff wordEnd).mpr ⟨found, Nat.le_of_not_lt fun reaches => ?_⟩
  have inWords : bar ∈ (code ++ bar :: rest).take anchor.length := by
    refine List.mem_take_iff_getElem.mpr ⟨code.length, ?_, by simp⟩
    simp only [List.length_append, List.length_cons]
    omega
  rcases isAlpha_or_isBlank_of_mem_take found inWords with letter | blank
  · rw [isBar.notLetter] at letter
    cases letter
  · rw [isBar.notBlank] at blank
    cases blank

/-- No anchor starts at any place of a text. -/
def Absent (previous : Option Char) (code : Text) : Prop :=
  ∀ front back, code = front ++ back → at? (Text.previousAfter previous front) back = none

namespace Absent

variable {previous : Option Char} {code : Text}

/-- The next anchor is looked for up to the end of the text. -/
theorem distance_eq
    (absent : Absent previous code) :
    distance previous code = code.length := by
  by_contra other
  obtain ⟨front, back, anchor, whole, found⟩ := distance_ne_length_iff.mp other
  rw [absent front back whole] at found
  cases found

theorem cons
    {char : Char}
    (nothing : at? previous (char :: code) = none)
    (absent : Absent (some char) code) :
    Absent previous (char :: code) := by
  intro front back whole
  rcases List.cons_eq_append_iff.mp whole with ⟨rfl, rfl⟩ | ⟨more, rfl, shape⟩
  · exact nothing
  · rw [Text.previousAfter_cons]
    exact absent more back shape

/-- Pieces without an anchor make a text without one if a bar stands between them. -/
theorem append_bar
    {rest : Text}
    {bar : Char}
    (absent : Absent previous code)
    (isBar : IsBar bar)
    (restAbsent : Absent (some bar) rest) :
    Absent previous (code ++ bar :: rest) := by
  intro front back whole
  rcases List.append_eq_append_iff.mp whole with ⟨more, rfl, behind⟩ | ⟨more, shape, rfl⟩
  · cases more with
    | nil =>
        rw [← List.nil_append back, ← behind]
        refine at?_eq_none fun _ => ?_
        cases starts : Text.sameFolded 'c' bar with
        | false =>
            rfl
        | true =>
            have letter : bar.isAlpha = true := Text.isAlpha_of_sameFolded (by decide) starts
            rw [isBar.notLetter] at letter
            cases letter
    | cons first inner =>
        obtain ⟨rfl, rfl⟩ := List.cons_eq_cons.mp behind
        rw [Text.previousAfter_append, Text.previousAfter_cons]
        exact restAbsent inner back rfl
  · cases found : at? (Text.previousAfter previous front) (more ++ bar :: rest) with
    | none =>
        rfl
    | some anchor =>
        have inside := at?_of_append_bar isBar found
        rw [absent front more shape] at inside
        cases inside

/-- An anchor has a blank in it. -/
theorem of_visible
    (previous : Option Char)
    (visible : ∀ char ∈ code, isBlank char = false) :
    Absent previous code := by
  rintro front back rfl
  cases found : at? (Text.previousAfter previous front) back with
  | none =>
      rfl
  | some anchor =>
      obtain ⟨start, blank, word, rest, rfl, isBlank, -⟩ := exists_kind_word found
      rw [visible blank (by simp)] at isBlank
      cases isBlank

/-- An anchor has a letter in it. -/
theorem of_blank
    (previous : Option Char)
    (blank : ∀ char ∈ code, isBlank char = true) :
    Absent previous code := by
  rintro front back rfl
  cases found : at? (Text.previousAfter previous front) back with
  | none =>
      rfl
  | some anchor =>
      obtain ⟨-, first, inner, rest, rfl, -, words⟩ := at?_eq_some found
      have letter : first.isAlpha = true := Text.isAlpha_of_sameFolded (by decide) words.starts
      have notBlank := not_isBlank_of_isAlpha letter
      rw [blank first (by simp)] at notBlank
      cases notBlank

/-- The first word of an anchor is one of the words of the text. -/
theorem of_words
    (previous : Option Char)
    (uncreated : ∀ word ∈ codeWords code, ¬ IsKeyword "create" word) :
    Absent previous code := by
  rintro front back rfl
  cases found : at? (Text.previousAfter previous front) back with
  | none =>
      rfl
  | some anchor =>
      obtain ⟨free, create, blanks, replacing, word, rest, rfl, phrase, -⟩ :=
        exists_phrase_of_at? found
      have letters := phrase.create_spelled.isAlpha (by decide)
      have ascii : ∀ char ∈ "create".toList, char.toNat < 0x80 := by
        intro char member
        have all : ("create".toList.all fun other => decide (other.toNat < 0x80)) = true := by
          decide
        exact of_decide_eq_true (List.all_eq_true.mp all char member)
      have isCreate : IsKeyword "create" create := by
        refine isKeyword_iff.mpr (phrase.create_spelled.map_toLower ascii ?_).symm
        intro char member
        have range := isAlpha_iff_toNat.mp (letters char member)
        omega
      -- Nothing of a word stands directly before or behind it.
      have before : WordBreak front (create ++ (blanks ++ (replacing ++ (word ++ rest)))) := by
        refine WordBreak.of_getLast ?_ _
        cases isLast : front.getLast? with
        | none =>
            rfl
        | some last =>
            rw [Text.previousAfter, isLast] at free
            have notWord : isWordChar last = false := by
              simpa [Text.wordStart] using free
            cases keyword : isKeywordChar last with
            | false =>
                simp [keyword]
            | true =>
                rw [isWordChar_of_isKeywordChar keyword] at notWord
                cases notWord
      have behind : WordBreak create (blanks ++ (replacing ++ (word ++ rest))) := by
        refine WordBreak.of_head ?_ _
        obtain ⟨blank, more, rfl⟩ := List.exists_cons_of_ne_nil phrase.nonempty
        cases keyword : isKeywordChar blank with
        | false =>
            simp [keyword]
        | true =>
            have visible := not_isBlank_of_isKeywordChar keyword
            rw [phrase.blank blank (by simp)] at visible
            cases visible
      have isWord : IsWord create := isCreate.isWord (by decide)
      refine absurd isCreate (uncreated create ?_)
      rw [codeWords_append before, codeWords_append behind, codeWords_word isWord]
      simp

/-- Only whether a word can start matters about what stands in front. -/
theorem congr
    {other : Option Char}
    (absent : Absent previous code)
    (same : Text.wordStart previous = Text.wordStart other) :
    Absent other code := by
  intro front back whole
  have nothing := absent front back whole
  cases front with
  | nil =>
      rw [Text.previousAfter_nil, ← at?_congr same]
      exact nothing
  | cons char more =>
      rw [Text.previousAfter_cons] at nothing ⊢
      exact nothing

/-- A document whose mask has no anchor has none in its glyphs. -/
theorem of_allMatches
    {text : Text}
    (none : allMatches (maskedText text) = []) :
    Absent .none (Glyph.code (scan text)) := by
  rw [Segment.allMatches_maskedText, List.map_eq_nil_iff] at none
  intro front back whole
  obtain ⟨frontGlyphs, backGlyphs, split, rfl, rfl⟩ := List.map_eq_append_iff.mp whole
  cases found : at? (Text.previousAfter .none (frontGlyphs.map Glyph.shown))
      (backGlyphs.map Glyph.shown) with
  | none =>
      rfl
  | some anchor =>
      obtain ⟨segment, member, -⟩ :=
        (Segment.isSome_at?_iff 0 .none frontGlyphs backGlyphs).mp
          (Option.isSome_iff_exists.mpr ⟨anchor, found⟩)
      rw [← split] at member
      rw [Segment.segments] at none
      rw [none] at member
      cases member

end Absent

end Anchor

namespace Segment

/-- A document whose only anchor stands at its start is one segment. -/
theorem segments_eq_singleton
    {text : Text}
    {anchor : Anchor}
    {words region : List Glyph}
    (scanned : scan text = words ++ region)
    (found : Anchor.at? none (Glyph.code (words ++ region)) = some anchor)
    (length : anchor.length = words.length)
    (absent : Anchor.Absent (Glyph.code words).getLast? (Glyph.code region)) :
    segments text = [⟨anchor.kind, 0, words, region⟩] := by
  have isSegment : of anchor 0 (words ++ region) = ⟨anchor.kind, 0, words, region⟩ := by
    simp only [of, length, List.take_left, List.drop_left, absent.distance_eq,
      Glyph.length_code, List.take_length]
  obtain ⟨back, next, whole, -, cut, -⟩ := segmentsFrom_eq_cons 0 found isSegment
  have nothing : back = [] := by
    simpa using whole
  rw [segments, scanned, cut, nothing, segmentsFrom]

/-- What is read of a segment that is made of the pieces of a declaration. -/
theorem declaration?_eq_some
    {segment : Segment}
    {parts : Parts}
    (whole : segment.region = parts.glyphs)
    (named :
      Name.read? (Glyph.chars parts.glyphs) =
        some ⟨parts.blanks.length, Glyph.chars parts.name⟩)
    (nonempty : Name.normalize (Glyph.chars parts.name) ≠ [])
    (direct : parts.gap = [])
    (balanced : BalancedFrom 0 (parts.inside.flatMap Glyph.paren))
    (ended :
      endingLength (some ')') (Glyph.code (parts.body ++ parts.rest)) = parts.body.length) :
    segment.declaration? = some (parts.declaration segment) := by
  have fit :
      parts.Fit segment.region ⟨parts.blanks.length, Glyph.chars parts.name⟩ 0
        parts.inside.length :=
    ⟨whole, rfl, rfl, by rw [direct]; rfl, rfl, ended.symm⟩
  have nameEnd :
      parts.glyphs.drop (parts.blanks.length + (Glyph.chars parts.name).length) =
        ⟨'(', .code⟩ :: (parts.inside ++ ⟨')', .code⟩ :: (parts.body ++ parts.rest)) := by
    rw [Glyph.length_chars, ← List.length_append, Parts.glyphs, ← List.append_assoc,
      List.drop_left, direct, List.nil_append]
  have opened :
      (Glyph.code (parts.glyphs.drop
        (parts.blanks.length + (Glyph.chars parts.name).length))).findIdx? (· == '(') =
          some 0 := by
    rw [nameEnd]
    rfl
  have closed :
      closingParen? 0 (parts.glyphs.drop
        (parts.blanks.length + (Glyph.chars parts.name).length + 0 + 1)) =
          some parts.inside.length := by
    rw [Nat.add_zero, ← List.drop_drop, nameEnd]
    exact closingParen?_eq_length_iff.mpr balanced
  have readable : (Name.normalize (Glyph.chars parts.name)).isEmpty = false := by
    simpa using nonempty
  rw [declaration?, read?, whole, named]
  simp only [Option.bind_eq_bind, Option.bind_some, opened, closed, readable]
  rw [fit.declare_eq]
  rfl

end Segment

end RoutineServer
