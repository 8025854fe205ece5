import RoutineServer.Proofs.Routine.Division
import RoutineServer.Proofs.Routine.NameForm
import RoutineServer.Proofs.Text.Spelling

namespace RoutineServer

/-!
# The text around a declared name

The name of a declaration stands behind the last word of the anchor, with
nothing but blanks between. In front of that word the document has a blank or
the delimiter that closes what the mask hides. A plain name is as long as it can
be, and a quoted one is closed.
-/

/-- What is hidden in front of a code character ends with a delimiter or a newline. -/
theorem ScanState.closes_of_step
    {state : ScanState}
    {char : Char}
    {next : Option Char}
    (hidden : (state.step char next).1 ≠ .code)
    (closed : (state.step char next).2 = .code) :
    char = '\x27' ∨ char = '"' ∨ char = '\n' ∨ char = '/' := by
  revert hidden closed
  cases state with
  | code =>
      simp only [ScanState.step]
      grind
  | inString =>
      simp only [ScanState.step]
      grind
  | inIdentifier =>
      simp only [ScanState.step]
      grind
  | inLineComment =>
      simp only [ScanState.step]
      grind
  | openingBlockComment =>
      simp [ScanState.step]
  | inBlockComment afterStar =>
      simp only [ScanState.step]
      grind

/-- What is hidden behind a code character starts with a delimiter. -/
theorem ScanState.opens_of_step
    {char : Char}
    {next : Option Char}
    (hidden : (ScanState.code.step char next).1 ≠ .code) :
    char = '\x27' ∨ char = '"' ∨ char = '-' ∨ char = '/' := by
  revert hidden
  simp only [ScanState.step]
  grind

namespace Scanned

theorem closes_of_hidden
    {front back : List Glyph}
    {hidden visible : Glyph}
    (scanned : Scanned (front ++ hidden :: visible :: back))
    (isHidden : hidden.isCode = false)
    (isVisible : visible.isCode = true) :
    hidden.char = '\x27' ∨ hidden.char = '"' ∨ hidden.char = '\n' ∨ hidden.char = '/' := by
  induction front with
  | cons first rest inductionHypothesis =>
      exact inductionHypothesis scanned.tail
  | nil =>
      obtain ⟨state, text, shape⟩ := scanned
      match text with
      | [] =>
          cases shape
      | [char] =>
          cases shape
      | char :: next :: more =>
          simp only [List.nil_append, scanFrom, List.cons.injEq] at shape
          obtain ⟨rfl, rfl, -⟩ := shape
          refine ScanState.closes_of_step (by simpa [Glyph.isCode] using isHidden) ?_
          exact (ScanState.step_eq_code (by simpa [Glyph.isCode] using isVisible)).1

theorem opens_of_hidden
    {front back : List Glyph}
    {hidden visible : Glyph}
    (scanned : Scanned (front ++ visible :: hidden :: back))
    (isVisible : visible.isCode = true)
    (isHidden : hidden.isCode = false) :
    hidden.char = '\x27' ∨ hidden.char = '"' ∨ hidden.char = '-' ∨ hidden.char = '/' := by
  have anew := scanned.after_code isVisible
  rw [Glyph.chars_cons, RoutineServer.scan, scanFrom, List.cons.injEq] at anew
  rw [anew.1] at isHidden
  exact ScanState.opens_of_step (by simpa [Glyph.isCode] using isHidden)

end Scanned

namespace Glyph

/-- Letters that the mask shows are code of the document. -/
theorem chars_of_code_letters
    {glyphs : List Glyph}
    (letters : ∀ char ∈ code glyphs, char.isAlpha = true) :
    chars glyphs = code glyphs ∧ ∀ glyph ∈ glyphs, glyph.isCode = true := by
  induction glyphs with
  | nil =>
      simp
  | cons glyph rest inductionHypothesis =>
      rw [code_cons, List.forall_mem_cons] at letters
      obtain ⟨same, allCode⟩ := inductionHypothesis letters.2
      have visible : glyph.shown ≠ ' ' ∧ glyph.shown ≠ '\n' :=
        ⟨ne_of_holds letters.1 (by decide), ne_of_holds letters.1 (by decide)⟩
      have isShown := eq_of_shown rfl visible
      constructor
      · rw [chars_cons, code_cons, same, congrArg Glyph.char isShown]
      · rw [List.forall_mem_cons]
        exact ⟨by rw [isShown]; rfl, allCode⟩

theorem shown_of_isCode
    {glyph : Glyph}
    (visible : glyph.isCode = true) :
    glyph.shown = glyph.char := by
  simp [shown, visible]

end Glyph

namespace Declaration

/-- The text around the name of a declaration, from the last word of the anchor on. -/
structure Surroundings (text : Text) (declaration : Declaration) where
  /-- All that lies in front of the last word of the anchor. -/
  front : Text
  word : Text
  blanks : Text
  behind : Text
  whole : text = (front ++ (word ++ blanks)) ++ (declaration.spelling ++ behind)
  nameStart_eq : declaration.nameStart = Text.byteLength (front ++ (word ++ blanks))
  name_eq : declaration.name = Name.normalize declaration.spelling
  named : declaration.name ≠ []
  apart : ∃ last, front.getLast? = some last ∧ isNameChar last = false
  kind_spelled : Text.Spells declaration.kind.name word
  blank : ∀ char ∈ blanks, isBlank char = true
  free : blanks = [] → declaration.spelling.head?.any isWordChar = false
  token : Name.Token declaration.spelling behind

/-- The last word of an anchor in a document, and the character in front of it. -/
theorem exists_word_glyphs
    {tail words rest : List Glyph}
    {previous : Option Char}
    {anchor : Anchor}
    (shape : tail = words ++ rest)
    (size : words.length = anchor.length)
    (found : Anchor.at? previous (Glyph.code tail) = some anchor) :
    ∃ front blank word,
      words = front ++ blank :: word ∧ isBlank blank.shown = true ∧
        Text.Spells anchor.kind.name (Glyph.chars word) ∧ word ≠ [] ∧
          (∀ glyph ∈ word, glyph.isCode = true) ∧ Text.wordEnd (Glyph.code rest) = true := by
  obtain ⟨front, blank, word, behind, code, isBlank, spelled, ends, length⟩ :=
    Anchor.exists_kind_word found
  have split : Glyph.code words ++ Glyph.code rest = (front ++ blank :: word) ++ behind := by
    rw [← Glyph.code_append, ← shape, code]
    simp
  obtain ⟨wordsCode, rfl⟩ :=
    List.append_inj split (by rw [Glyph.length_code, size, length])
  obtain ⟨frontGlyphs, more, rfl, rfl, moreCode⟩ := List.map_eq_append_iff.mp wordsCode
  obtain ⟨blankGlyph, wordGlyphs, rfl, rfl, isWord⟩ := List.map_eq_cons_iff.mp moreCode
  have letters := Anchor.isAlpha_of_spells_kind spelled
  rw [← isWord] at letters
  obtain ⟨same, allCode⟩ := Glyph.chars_of_code_letters letters
  refine ⟨frontGlyphs, blankGlyph, wordGlyphs, rfl, isBlank, ?_, ?_, allCode, ends⟩
  · rw [same]
    rwa [← isWord] at spelled
  · rintro rfl
    exact Anchor.ne_nil_of_spells_kind spelled isWord.symm

section Word

variable {front word back : List Glyph} {glyph : Glyph}

/-- In front of a word of code the mask shows a blank only for what is in no plain name. -/
theorem not_isNameChar_in_front
    (scanned : Scanned (front ++ glyph :: (word ++ back)))
    (nonempty : word ≠ [])
    (allCode : ∀ glyph ∈ word, glyph.isCode = true)
    (shown : isBlank glyph.shown = true) :
    isNameChar glyph.char = false := by
  obtain ⟨first, others, rfl⟩ := List.exists_cons_of_ne_nil nonempty
  cases code : glyph.isCode with
  | true =>
      rw [Glyph.shown_of_isCode code] at shown
      by_contra inName
      rw [(isNameChar_visible (by simpa using inName)).1] at shown
      cases shown
  | false =>
      have isFirst := allCode first List.mem_cons_self
      rcases scanned.closes_of_hidden code isFirst with isChar | isChar | isChar | isChar
      all_goals
        rw [isChar]
        decide

/-- Behind a word of code the document has no word character where the mask shows none. -/
theorem not_isWordChar_behind
    (scanned : Scanned (front ++ (word ++ glyph :: back)))
    (nonempty : word ≠ [])
    (allCode : ∀ glyph ∈ word, glyph.isCode = true)
    (shown : isWordChar glyph.shown = false) :
    isWordChar glyph.char = false := by
  cases code : glyph.isCode with
  | true =>
      rwa [Glyph.shown_of_isCode code] at shown
  | false =>
      rcases List.eq_nil_or_concat word with empty | ⟨earlier, last, rfl⟩
      · exact absurd empty nonempty
      · have isLast := allCode last (by simp)
        have together : Scanned ((front ++ earlier) ++ last :: glyph :: back) := by
          simpa using scanned
        rcases together.opens_of_hidden isLast code with isChar | isChar | isChar | isChar
        all_goals
          rw [isChar]
          decide

end Word

/-- The name of a declaration stands behind the last word of its anchor. -/
theorem exists_surroundings
    {text : Text}
    {declaration : Declaration}
    (declared : declaration ∈ parse text) :
    Nonempty (Surroundings text declaration) := by
  rw [parse_eq_segments] at declared
  obtain ⟨segment, member, declares⟩ := List.mem_filterMap.mp declared
  obtain ⟨⟨_, count⟩, read, rfl⟩ := Option.map_eq_some_iff.mp declares
  obtain ⟨parts, reading, index, length, isRead, fit, rfl, named, -⟩ :=
    Segment.exists_fit_of_read? read
  obtain ⟨before, tail, anchor, whole, start, found, isSegment⟩ :=
    Segment.exists_anchor_of_mem member
  obtain ⟨back, _, shape, size, -⟩ := Segment.segmentsFrom_eq_cons segment.start found isSegment
  obtain ⟨front, blank, word, words, isBlank, spelled, nonempty, allCode, ends⟩ :=
    exists_word_glyphs shape size found
  have document :
      scan text = (before ++ front) ++ blank :: (word ++ (parts.glyphs ++ back)) := by
    rw [whole, shape, words, fit.whole]
    simp
  have scanned : Scanned ((before ++ front) ++ blank :: (word ++ (parts.glyphs ++ back))) := by
    rw [← document]
    exact .scan text
  -- What is read of the region says where its blanks and its name end.
  obtain ⟨blanks, rest, region, skipped, areBlank, token⟩ := Name.read?_eq_some isRead
  rw [fit.whole, Segment.Parts.glyphs, Glyph.chars_append, Glyph.chars_append] at region
  obtain ⟨isBlanks, behindBlanks⟩ :=
    List.append_inj region (by rw [Glyph.length_chars, fit.blanks, skipped])
  rw [fit.spelling] at behindBlanks
  have isRest := List.append_cancel_left behindBlanks
  have remains : rest ≠ [] := by
    rw [← isRest]
    simp
  refine ⟨{
    front := Glyph.chars (before ++ (front ++ [blank]))
    word := Glyph.chars word
    blanks := Glyph.chars parts.blanks
    behind := rest ++ Glyph.chars back
    whole := ?_
    nameStart_eq := ?_
    name_eq := rfl
    named := named
    apart := ⟨blank.char, by simp, ?_⟩
    kind_spelled := ?_
    blank := by rwa [isBlanks]
    free := ?_
    token := ?_
  }⟩
  · rw [← Glyph.chars_scan text, document, ← isRest]
    simp [Segment.Parts.glyphs, Segment.Parts.declaration]
  · simp [Segment.Parts.declaration, Segment.regionStart, start, words, Glyph.byteLength,
      Nat.add_assoc]
  · exact not_isNameChar_in_front scanned nonempty allCode isBlank
  · have isKind : segment.kind = anchor.kind := by rw [← isSegment]; rfl
    rwa [← isKind] at spelled
  · intro noBlanks
    have directly : parts.blanks = [] := by simpa [Glyph.chars] using noBlanks
    cases isName : parts.name with
    | nil => simp [Segment.Parts.declaration, isName]
    | cons glyph others =>
        have shown : isWordChar glyph.shown = false := by
          simpa [fit.whole, Segment.Parts.glyphs, directly, isName, Text.wordEnd] using ends
        rw [Segment.Parts.glyphs, directly, isName, List.append_cons] at scanned
        have raw := not_isWordChar_behind scanned nonempty allCode shown
        simpa [Segment.Parts.declaration, isName] using raw
  · have isToken := (token remains).append remains (Glyph.chars back)
    rwa [← fit.spelling] at isToken

end Declaration

end RoutineServer
