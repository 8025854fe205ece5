import RoutineServer.Lexical.Parens

namespace RoutineServer

/-!
# Scanning in pieces

A scan can be taken up again behind any code character, because nothing is open
there, and behind any text that is scanned to its end, if the first character
after it does not complete the opening of a comment. Matching parentheses looks
at glyphs only up to the partner.
-/

/-- What a scan has open at the end of a text. -/
def scanEnd : ScanState → Text → ScanState
  | state, [] => state
  | state, char :: rest => scanEnd (state.step char rest.head?).2 rest

/-- A character is read as code only while nothing is open, and opens nothing. -/
theorem ScanState.step_eq_code
    {state : ScanState}
    {char : Char}
    {next : Option Char}
    (code : (state.step char next).1 = .code) :
    state = .code ∧ (state.step char next).2 = .code := by
  cases state with
  | code =>
      refine ⟨rfl, ?_⟩
      revert code
      simp only [ScanState.step]
      split
      · intro code; cases code
      · split
        · intro code; cases code
        · split
          · intro code; cases code
          · split
            · intro code; cases code
            · intro _; rfl
  | inString => cases code
  | inIdentifier => cases code
  | inLineComment => cases code
  | openingBlockComment => cases code
  | inBlockComment afterStar =>
      simp only [ScanState.step] at code
      split at code
      · cases code
      · cases code

/-- A text whose last character does not look at what follows is scanned like a document. -/
theorem scanFrom_append
    (state : ScanState)
    (first second : Text)
    (quiet :
      ∀ last, first.getLast? = some last →
        ∀ before : ScanState, before.step last second.head? = before.step last none) :
    scanFrom state (first ++ second) =
      scanFrom state first ++ scanFrom (scanEnd state first) second := by
  induction first generalizing state with
  | nil =>
      rfl
  | cons char rest inductionHypothesis =>
      cases rest with
      | nil =>
          have same := quiet char rfl state
          simp only [List.cons_append, List.nil_append, scanFrom, scanEnd, List.head?_nil, same]
      | cons next more =>
          have tail :=
            inductionHypothesis (state.step char (some next)).2
              fun last isLast => quiet last (by simpa [List.getLast?_cons_cons] using isLast)
          simp only [List.cons_append] at tail
          simp only [List.cons_append, scanFrom, scanEnd, List.head?_cons]
          simp only [scanFrom] at tail
          rw [tail]
          rfl

/-- Glyphs that a scan gives, whatever was open at their start. -/
def Scanned (glyphs : List Glyph) : Prop :=
  ∃ state text, glyphs = scanFrom state text

namespace Scanned

theorem scan
    (text : Text) :
    Scanned (scan text) :=
  ⟨.code, text, rfl⟩

theorem tail
    {glyph : Glyph}
    {rest : List Glyph}
    (scanned : Scanned (glyph :: rest)) :
    Scanned rest := by
  obtain ⟨state, text, shape⟩ := scanned
  cases text with
  | nil =>
      cases shape
  | cons char more =>
      simp only [scanFrom, List.cons.injEq] at shape
      exact ⟨_, more, shape.2⟩

theorem drop
    {glyphs : List Glyph}
    (scanned : Scanned glyphs)
    (count : Nat) :
    Scanned (glyphs.drop count) := by
  induction count generalizing glyphs with
  | zero =>
      exact scanned
  | succ less inductionHypothesis =>
      cases glyphs with
      | nil => exact scanned
      | cons glyph rest => exact inductionHypothesis scanned.tail

/-- The glyphs behind a code character are those of a document of its own. -/
theorem after_code
    {front back : List Glyph}
    {glyph : Glyph}
    (scanned : Scanned (front ++ glyph :: back))
    (code : glyph.isCode = true) :
    back = RoutineServer.scan (Glyph.chars back) := by
  induction front with
  | cons first rest inductionHypothesis =>
      exact inductionHypothesis scanned.tail
  | nil =>
      obtain ⟨state, text, shape⟩ := scanned
      cases text with
      | nil =>
          cases shape
      | cons char more =>
          simp only [List.nil_append, scanFrom, List.cons.injEq] at shape
          obtain ⟨rfl, rfl⟩ := shape
          have mode : (state.step char more.head?).1 = .code := by
            simpa [Glyph.isCode] using code
          rw [(ScanState.step_eq_code mode).2, chars_scanFrom]
          rfl

/-- Glyphs that start with a code character are those of a document of its own. -/
theorem of_code
    {glyph : Glyph}
    {rest : List Glyph}
    (scanned : Scanned (glyph :: rest))
    (code : glyph.isCode = true) :
    glyph :: rest = RoutineServer.scan (Glyph.chars (glyph :: rest)) := by
  obtain ⟨state, text, shape⟩ := scanned
  cases text with
  | nil =>
      cases shape
  | cons char more =>
      have mode : (state.step char more.head?).1 = .code := by
        rw [scanFrom, List.cons.injEq] at shape
        rw [shape.1] at code
        simpa [Glyph.isCode] using code
      obtain ⟨rfl, -⟩ := ScanState.step_eq_code mode
      rw [shape, chars_scanFrom]
      rfl

end Scanned

/-- A character that completes no delimiter is not looked at in advance. -/
theorem ScanState.step_of_ne
    {next : Char}
    (state : ScanState)
    (char : Char)
    (plain : next ≠ '-' ∧ next ≠ '*') :
    state.step char (some next) = state.step char none := by
  cases state with
  | code => simp [ScanState.step, plain.1, plain.2]
  | inString => rfl
  | inIdentifier => rfl
  | inLineComment => rfl
  | openingBlockComment => rfl
  | inBlockComment afterStar => rfl

/-- In front of such a character, a document is scanned like a document of its own. -/
theorem scan_front
    {front back : Text}
    {glyphs rest : List Glyph}
    {next : Char}
    (scans : scan (front ++ next :: back) = glyphs ++ rest)
    (size : glyphs.length = front.length)
    (plain : next ≠ '-' ∧ next ≠ '*') :
    scan front = glyphs := by
  have pieces :=
    scanFrom_append .code front (next :: back) fun last _ before => before.step_of_ne last plain
  have same : scan front ++ _ = glyphs ++ rest := pieces.symm.trans scans
  exact (List.append_inj same (by rw [scan, length_scanFrom, size])).1

/-- A text that leaves nothing open is scanned apart from a text that starts with such a character. -/
theorem scan_append_of_closed
    {first second : Text}
    (closed : scanEnd .code first = .code)
    (plain : ∀ next ∈ second.head?, next ≠ '-' ∧ next ≠ '*') :
    scan (first ++ second) = scan first ++ scan second := by
  have pieces :
      scanFrom .code (first ++ second) =
        scanFrom .code first ++ scanFrom (scanEnd .code first) second := by
    refine scanFrom_append .code first second fun last _ before => ?_
    cases starts : second.head? with
    | none => rfl
    | some next => exact before.step_of_ne last (plain next starts)
  rw [closed] at pieces
  exact pieces

theorem Glyph.isCodeChar_iff
    {char : Char}
    {glyph : Glyph} :
    glyph.isCodeChar char = true ↔ glyph = ⟨char, .code⟩ := by
  cases glyph
  simp [isCodeChar, isCode, and_comm]

/-- The partner of a parenthesis is a closing one read as code. -/
theorem closingParen?_eq_some
    {depth length : Nat}
    {glyphs : List Glyph}
    (found : closingParen? depth glyphs = some length) :
    ∃ inside rest,
      glyphs = inside ++ ⟨')', .code⟩ :: rest ∧ inside.length = length := by
  induction glyphs generalizing depth length with
  | nil =>
      simp [closingParen?] at found
  | cons glyph more inductionHypothesis =>
      rw [closingParen?] at found
      split at found
      case isTrue closes =>
          simp only [Option.some.injEq] at found
          simp only [Glyph.isCodeChar, Glyph.isCode, Bool.and_eq_true, beq_iff_eq] at closes
          refine ⟨[], more, ?_, by simpa using found⟩
          obtain ⟨⟨mode, char⟩, -⟩ := closes
          cases glyph
          simp_all
      case isFalse =>
          simp only [Option.map_eq_some_iff] at found
          obtain ⟨less, tailFound, rfl⟩ := found
          obtain ⟨inside, rest, rfl, size⟩ := inductionHypothesis tailFound
          exact ⟨glyph :: inside, rest, rfl, by simp [size]⟩

/-- Glyphs behind a part that holds the partner do not matter, and those of the part alone do. -/
theorem closingParen?_append
    (depth : Nat)
    (first second : List Glyph) :
    (closingParen? depth (first ++ second)).filter (· < first.length) =
      closingParen? depth first := by
  induction first generalizing depth with
  | nil =>
      cases closingParen? depth ([] ++ second) with
      | none => rfl
      | some length => simp [closingParen?, Option.filter]
  | cons glyph rest inductionHypothesis =>
      simp only [List.cons_append, closingParen?]
      split
      · simp [Option.filter]
      · rw [← inductionHypothesis]
        cases closingParen? (depthAfter depth glyph) (rest ++ second) with
        | none => rfl
        | some length => simp [Option.filter, apply_ite (Option.map (· + 1))]

end RoutineServer
