import RoutineServer.Proofs.Routine.EndingAlignment
import RoutineServer.Proofs.Routine.NameForm

namespace RoutineServer

/-!
# Names and parameters in aligned glyphs

A name is read from the text itself, not from the mask. Where nothing is open at
the start of the text, the name is nevertheless made of glyphs that are not
hidden: blanks that are code, and then name characters that are code or a quoted
identifier. So aligned glyphs have the same name, and, if they declare something,
declare it at the same places.
-/

/-- A character that opens nothing, whatever follows it. -/
def isPlainCode (char : Char) : Bool :=
  char != '-' && char != '/' && char != '\x27' && char != '"'

theorem isPlainCode_of
    {property : Char → Bool}
    {char : Char}
    (excludes :
      property '-' = false ∧ property '/' = false ∧
        property '\x27' = false ∧ property '"' = false)
    (holds : property char = true) :
    isPlainCode char = true := by
  obtain ⟨dash, slash, quote, doubleQuote⟩ := excludes
  simp only [isPlainCode, bne_iff_ne, Bool.and_eq_true, ne_eq]
  exact ⟨⟨⟨ne_of_holds holds dash, ne_of_holds holds slash⟩, ne_of_holds holds quote⟩,
    ne_of_holds holds doubleQuote⟩

theorem ScanState.step_plain
    {char : Char}
    (plain : isPlainCode char = true)
    (next : Option Char) :
    ScanState.code.step char next = (.code, .code) := by
  simp only [isPlainCode, bne_iff_ne, Bool.and_eq_true, ne_eq] at plain
  obtain ⟨⟨⟨noDash, noSlash⟩, noQuote⟩, noDoubleQuote⟩ := plain
  simp [ScanState.step, noDash, noSlash, noQuote, noDoubleQuote]

theorem scan_cons_plain
    {char : Char}
    (plain : isPlainCode char = true)
    (rest : Text) :
    scan (char :: rest) = ⟨char, .code⟩ :: scan rest := by
  rw [scan, scanFrom, ScanState.step_plain plain]
  rfl

/-- A run of plain characters at the start of a document is code. -/
theorem takeWhile_scan
    {property : Char → Bool}
    (plain : ∀ char, property char = true → isPlainCode char = true)
    (text : Text) :
    Glyph.chars ((scan text).takeWhile fun glyph => glyph.isCode && property glyph.char) =
        text.takeWhile property ∧
      ((scan text).dropWhile fun glyph => glyph.isCode && property glyph.char) =
        scan (text.dropWhile property) := by
  induction text with
  | nil =>
      exact ⟨rfl, rfl⟩
  | cons char rest inductionHypothesis =>
      by_cases holds : property char = true
      · rw [scan_cons_plain (plain char holds)]
        simpa [Glyph.isCode, holds] using inductionHypothesis
      · simp [scan, scanFrom, holds]

/-- Whether a glyph belongs to a quoted identifier. -/
def Glyph.isIdentifier (glyph : Glyph) : Bool :=
  glyph.mode == .identifier

/-- A document starts with an identifier exactly if it starts with a double quote. -/
theorem head?_scan_isIdentifier
    (text : Text) :
    (scan text).head?.any Glyph.isIdentifier = (text.head? == some '"') := by
  cases text with
  | nil =>
      rfl
  | cons char rest =>
      simp only [scan, scanFrom, List.head?_cons, Option.any_some, Glyph.isIdentifier,
        ScanState.step]
      grind

/-- Inside an identifier, its glyphs reach to the first quote that is not doubled. -/
theorem length_takeWhile_isIdentifier
    (text : Text) :
    ((scanFrom .inIdentifier text).takeWhile Glyph.isIdentifier).length =
      Name.quotedLength text := by
  have first
      (char : Char)
      (rest : List Glyph) :
      (⟨char, .identifier⟩ :: rest).takeWhile Glyph.isIdentifier =
        ⟨char, .identifier⟩ :: rest.takeWhile Glyph.isIdentifier := rfl
  fun_induction Name.quotedLength text with
  | case1 rest inductionHypothesis =>
      simp [scanFrom, ScanState.step, Glyph.isIdentifier, ← inductionHypothesis]
  | case2 rest single =>
      -- The identifier is closed, and what follows does not open another one.
      have stops : (scan rest).takeWhile Glyph.isIdentifier = [] := by
        have noQuote : (rest.head? == some '"') = false := by
          cases rest with
          | nil => rfl
          | cons char more =>
              rw [List.head?_cons, beq_eq_false_iff_ne]
              intro quote
              exact single more (by rw [Option.some.inj quote])
        rw [← head?_scan_isIdentifier] at noQuote
        cases scanned : scan rest with
        | nil => rfl
        | cons glyph more =>
            rw [scanned, List.head?_cons, Option.any_some] at noQuote
            simp [noQuote]
      have shape : scanFrom .inIdentifier ('"' :: rest) = ⟨'"', .identifier⟩ :: scan rest := rfl
      rw [shape, first, stops]
      rfl
  | case3 char rest notDoubled notQuote inductionHypothesis =>
      have inside :
          scanFrom .inIdentifier (char :: rest) =
            ⟨char, .identifier⟩ :: scanFrom .inIdentifier rest := by
        have other : (char == '"') = false := beq_eq_false_iff_ne.mpr notQuote
        simp [scanFrom, ScanState.step, other]
      rw [inside, first, List.length_cons, inductionHypothesis]
  | case4 =>
      rfl

namespace Name

/-- A blank that is code. -/
def isBlankCode (glyph : Glyph) : Bool :=
  glyph.isCode && isBlank glyph.char

/-- A name character that is code. -/
def isNameCode (glyph : Glyph) : Bool :=
  glyph.isCode && isNameChar glyph.char

/-- The glyphs of a name at the start of a list. -/
def glyphs (named : List Glyph) : List Glyph :=
  if named.head?.any Glyph.isIdentifier then named.takeWhile Glyph.isIdentifier
  else named.takeWhile isNameCode

/-- Read a name from glyphs. -/
def readGlyphs? (text : List Glyph) : Option Reading :=
  let name := glyphs (text.dropWhile isBlankCode)
  if name.isEmpty then none
  else some ⟨(text.takeWhile isBlankCode).length, Glyph.chars name⟩

/-- The glyphs of a name at the start of a document spell it. -/
theorem chars_glyphs_scan
    (text : Text) :
    Glyph.chars (glyphs (scan text)) = text.take (Name.length text) := by
  have starts := head?_scan_isIdentifier text
  by_cases quoted : text.head? = some '"'
  · obtain ⟨rest, rfl⟩ : ∃ rest, text = '"' :: rest := List.head?_eq_some_iff.mp quoted
    have run : (scan ('"' :: rest)).takeWhile Glyph.isIdentifier = _ :=
      List.prefix_iff_eq_take.mp (List.takeWhile_prefix Glyph.isIdentifier)
    have size :
        ((scan ('"' :: rest)).takeWhile Glyph.isIdentifier).length = quotedLength rest + 1 := by
      rw [← length_takeWhile_isIdentifier rest]
      rfl
    rw [size] at run
    rw [glyphs, starts, quoted, if_pos (beq_self_eq_true _), run, Glyph.chars, List.map_take]
    exact congrArg (List.take _) (Glyph.chars_scan _)
  · have plain : ∀ char, isNameChar char = true → isPlainCode char = true := by
      intro char holds
      exact isPlainCode_of ⟨by decide, by decide, by decide, by decide⟩ holds
    have run : Glyph.chars ((scan text).takeWhile isNameCode) = text.takeWhile isNameChar :=
      (takeWhile_scan plain text).1
    have size : Name.length text = (text.takeWhile isNameChar).length := by
      unfold Name.length
      split
      case h_1 => exact absurd rfl quoted
      case h_2 => rfl
    rw [glyphs, starts, if_neg (by simpa using quoted), run, size]
    exact List.prefix_iff_eq_take.mp (List.takeWhile_prefix isNameChar)

/-- A name is read from a document as from its glyphs. -/
theorem read?_eq_readGlyphs?
    (text : Text) :
    read? text = readGlyphs? (scan text) := by
  have plain : ∀ char, isBlank char = true → isPlainCode char = true := by
    intro char holds
    exact isPlainCode_of ⟨by decide, by decide, by decide, by decide⟩ holds
  have blanks : Glyph.chars ((scan text).takeWhile isBlankCode) = text.takeWhile isBlank :=
    (takeWhile_scan plain text).1
  have named : (scan text).dropWhile isBlankCode = scan (Text.trimStart text) :=
    (takeWhile_scan plain text).2
  have spelling := chars_glyphs_scan (Text.trimStart text)
  have skipped : Text.leadingBlanks text = ((scan text).takeWhile isBlankCode).length := by
    rw [Text.leadingBlanks, ← blanks, Glyph.length_chars]
  have nothing :
      (Glyph.chars (glyphs (scan (Text.trimStart text)))).isEmpty =
        (glyphs (scan (Text.trimStart text))).isEmpty := by
    cases glyphs (scan (Text.trimStart text)) with
    | nil => rfl
    | cons glyph rest => rfl
  simp only [read?, readGlyphs?, named, ← spelling, skipped, nothing]

end Name

/-- The modes of strings and comments. -/
def Mode.isHidden : Mode → Bool
  | .string | .lineComment | .blockComment => true
  | .code | .identifier => false

/-- All glyphs of strings and comments. -/
def hiddenVeil : Veil where
  hides glyph := glyph.mode.isHidden = true
  shown_of_hides := by
    rintro ⟨char, mode⟩ hidden
    apply Glyph.shown_of_isCode_eq_false
    cases mode with
    | code => cases hidden
    | _ => rfl

namespace Name

variable {left right : List Glyph}

/-- The name is the same in aligned glyphs, and it is shared. -/
theorem glyphs_aligned
    (aligned : Aligned hiddenVeil left right) :
    glyphs left = glyphs right ∧ Shared hiddenVeil left right (glyphs left).length := by
  have identifierStops : ∀ glyph, hiddenVeil.hides glyph → glyph.isIdentifier = false := by
    rintro ⟨char, mode⟩ hidden
    cases mode with
    | identifier => cases hidden
    | _ => rfl
  have nameStops : ∀ glyph, hiddenVeil.hides glyph → isNameCode glyph = false := by
    rintro ⟨char, mode⟩ hidden
    cases mode with
    | code => cases hidden
    | _ => rfl
  obtain ⟨sameIdentifier, identifier⟩ := takeWhile_aligned identifierStops aligned
  obtain ⟨sameName, name⟩ := takeWhile_aligned nameStops aligned
  have sameStart :
      left.head?.any Glyph.isIdentifier = right.head?.any Glyph.isIdentifier := by
    rw [any_head?_eq, any_head?_eq, sameIdentifier]
  rw [glyphs, glyphs, ← sameStart, ← sameIdentifier, ← sameName]
  split
  · exact ⟨rfl, identifier⟩
  · exact ⟨rfl, name⟩

/-- A name is read from aligned glyphs alike and ends at the same level. -/
theorem readGlyphs?_aligned
    (aligned : Aligned hiddenVeil left right) :
    readGlyphs? left = readGlyphs? right ∧
      ∀ reading, readGlyphs? left = some reading →
        Level hiddenVeil left right reading.skipped reading.skipped ∧
          Level hiddenVeil left right (reading.skipped + reading.spelling.length)
            (reading.skipped + reading.spelling.length) := by
  have blankStops : ∀ glyph, hiddenVeil.hides glyph → isBlankCode glyph = false := by
    rintro ⟨char, mode⟩ hidden
    cases mode with
    | code => cases hidden
    | _ => rfl
  obtain ⟨sameBlanks, blanks⟩ := takeWhile_aligned blankStops aligned
  obtain ⟨sameName, name⟩ := glyphs_aligned blanks.level.rest
  simp only [readGlyphs?, ← drop_length_takeWhile]
  rw [← sameBlanks, ← sameName]
  refine ⟨rfl, ?_⟩
  intro reading found
  rw [Option.ite_none_left_eq_some, Option.some.injEq] at found
  obtain ⟨-, rfl⟩ := found
  rw [Glyph.length_chars]
  exact ⟨blanks.level, blanks.level.add name.level⟩

end Name

variable {veil : Veil} {left right : List Glyph}

/-- A hidden glyph opens and closes no parenthesis. -/
theorem Veil.isCodeChar_eq_false
    {glyph : Glyph}
    {char : Char}
    (visible : char ≠ ' ' ∧ char ≠ '\n')
    (hidden : veil.hides glyph) :
    glyph.isCodeChar char = false := by
  cases isChar : glyph.isCodeChar char with
  | false =>
      rfl
  | true =>
      rw [Glyph.isCodeChar, Bool.and_eq_true, beq_iff_eq] at isChar
      have shown : glyph.shown = char := by
        rw [Glyph.shown, isChar.1, Bool.true_or, if_pos rfl, isChar.2]
      rcases veil.shown_of_hides hidden with blank | newline
      · exact absurd (shown.symm.trans blank) visible.1
      · exact absurd (shown.symm.trans newline) visible.2

theorem closingParen?_append_hidden
    {run : List Glyph}
    (depth : Nat)
    (hidden : ∀ glyph ∈ run, veil.hides glyph)
    (rest : List Glyph) :
    closingParen? depth (run ++ rest) = (closingParen? depth rest).map (· + run.length) := by
  induction run with
  | nil =>
      simp
  | cons glyph more inductionHypothesis =>
      have later := inductionHypothesis fun other member => hidden other (by simp [member])
      have noOpening :=
        veil.isCodeChar_eq_false (by decide : '(' ≠ ' ' ∧ '(' ≠ '\n') (hidden glyph (by simp))
      have noClosing :=
        veil.isCodeChar_eq_false (by decide : ')' ≠ ' ' ∧ ')' ≠ '\n') (hidden glyph (by simp))
      have sameDepth : depthAfter depth glyph = depth := by
        simp [depthAfter, noOpening, noClosing]
      rw [List.cons_append, closingParen?, noClosing, sameDepth, later]
      simp only [Bool.false_and, Bool.false_eq_true, ↓reduceIte, Option.map_map, List.length_cons]
      rfl

/-- The partner of a parenthesis stands at the same level in aligned glyphs. -/
theorem closingParen?_aligned
    (depth : Nat)
    (aligned : Aligned veil left right) :
    Option.Rel (Landmark veil left right)
      (closingParen? depth left) (closingParen? depth right) := by
  induction aligned generalizing depth with
  | nil =>
      exact .none
  | @same glyph left right rest inductionHypothesis =>
      rw [closingParen?, closingParen?]
      split
      · exact .some (.first glyph rest)
      · exact optionRel_map (inductionHypothesis _) fun _ _ landmark => landmark.same glyph
  | @hidden first second left right _ _ firstHidden secondHidden _ _ inductionHypothesis =>
      rw [closingParen?_append_hidden depth firstHidden,
        closingParen?_append_hidden depth secondHidden]
      exact optionRel_map (inductionHypothesis depth)
        fun _ _ landmark => landmark.append first second

/-- A declaration but for what its parameters hold. -/
def Declaration.withoutParameters (declaration : Declaration) : Declaration :=
  { declaration with parameters := [] }

namespace Segment

theorem Alike.offsetOf_eq
    {first second : Segment}
    {firstPlace secondPlace : Nat}
    (alike : Alike veil first second)
    (level : Level veil first.region second.region firstPlace secondPlace) :
    first.offsetOf firstPlace = second.offsetOf secondPlace := by
  rw [offsetOf, offsetOf, alike.regionStart_eq, level.byteLength_take alike.region]

/-- The same name with parentheses at the same levels makes the same declaration. -/
theorem declare_alike
    {first second : Segment}
    {reading : Name.Reading}
    {opening otherOpening length otherLength : Nat}
    (alike : Alike veil first second)
    (name : Level veil first.region second.region reading.skipped reading.skipped)
    (opens : Landmark veil first.region second.region opening otherOpening)
    (closes :
      Landmark veil (first.region.drop (opening + 1)) (second.region.drop (otherOpening + 1))
        length otherLength) :
    (first.declare reading opening length).1.withoutParameters =
      (second.declare reading otherOpening otherLength).1.withoutParameters := by
  have closing := opens.behind.add closes.here
  have behindClosing := opens.behind.add closes.behind
  rw [← Nat.add_assoc, ← Nat.add_assoc] at behindClosing
  have stop := behindClosing.add (endingLength_aligned (some ')') behindClosing.rest)
  simp only [declare, Declaration.withoutParameters, alike.kind_eq, alike.start_eq,
    alike.offsetOf_eq name, alike.offsetOf_eq opens.here, alike.offsetOf_eq closing,
    alike.offsetOf_eq stop]

/-- Alike segments declare the same, but for what is hidden in their parameters. -/
theorem declaration?_alike
    {first second : Segment}
    (alike : Alike hiddenVeil first second)
    (firstScan : scan (Glyph.chars first.region) = first.region)
    (secondScan : scan (Glyph.chars second.region) = second.region) :
    first.declaration?.map Declaration.withoutParameters =
      second.declaration?.map Declaration.withoutParameters := by
  obtain ⟨sameName, levels⟩ := Name.readGlyphs?_aligned alike.region
  have sameReading :
      Name.read? (Glyph.chars first.region) = Name.read? (Glyph.chars second.region) := by
    rw [Name.read?_eq_readGlyphs?, Name.read?_eq_readGlyphs?, firstScan, secondScan, sameName]
  simp only [declaration?, read?, Option.bind_eq_bind]
  rw [← sameReading]
  cases named : Name.read? (Glyph.chars first.region) with
  | none =>
      rfl
  | some reading =>
      rw [Name.read?_eq_readGlyphs?, firstScan] at named
      obtain ⟨name, nameEnd⟩ := levels reading named
      have opened := findIdx?_aligned (by decide : '(' ≠ ' ' ∧ '(' ≠ '\n') nameEnd.rest
      simp only [Option.bind_some]
      generalize (Glyph.code (first.region.drop
        (reading.skipped + reading.spelling.length))).findIdx? (· == '(') = index at opened ⊢
      generalize (Glyph.code (second.region.drop
        (reading.skipped + reading.spelling.length))).findIdx? (· == '(') = otherIndex at opened ⊢
      cases opened with
      | none =>
          rfl
      | @some place otherPlace landmark =>
          have opens :
              Landmark hiddenVeil first.region second.region
                (reading.skipped + reading.spelling.length + place)
                (reading.skipped + reading.spelling.length + otherPlace) :=
            ⟨nameEnd.add landmark.here, nameEnd.add landmark.behind⟩
          have closed := closingParen?_aligned 0 opens.behind.rest
          simp only [Option.bind_some]
          generalize closingParen? 0 (first.region.drop
            (reading.skipped + reading.spelling.length + place + 1)) = length at closed ⊢
          generalize closingParen? 0 (second.region.drop
            (reading.skipped + reading.spelling.length + otherPlace + 1)) = otherLength at closed ⊢
          cases closed with
          | none =>
              rfl
          | some closes =>
              simp only [Option.bind_some]
              split
              · rfl
              · exact congrArg some (declare_alike alike name opens closes)

end Segment

end RoutineServer
