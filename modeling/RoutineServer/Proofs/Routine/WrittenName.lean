import RoutineServer.Proofs.Routine.NamePlace
import RoutineServer.Proofs.Routine.Reading

namespace RoutineServer

/-!
# How names are written

A name is written plainly, as a run of name characters, or in quotes, with the
quotes inside it doubled. Every declared name is written in one of the two ways.
A name so written is read back whole in front of anything that does not continue
it, and the scan of a text leaves nothing open behind it: a doubled quote closes
the identifier and opens it again.
-/

namespace Name

theorem double_append
    (first second : Text) :
    double (first ++ second) = double first ++ double second := by
  induction first with
  | nil =>
      rfl
  | cons char rest inductionHypothesis =>
      by_cases isQuote : char = '"'
      · simp [double, isQuote, inductionHypothesis]
      · simp [double, isQuote, inductionHypothesis]

theorem undouble_double
    (name : Text) :
    undouble (double name) = name := by
  induction name with
  | nil =>
      rfl
  | cons char rest inductionHypothesis =>
      by_cases isQuote : char = '"'
      · simp [double, isQuote, undouble, inductionHypothesis]
      · simp [double, isQuote, undouble, inductionHypothesis]

/-- A name and the ways to write it. -/
inductive Written : Text → Text → Prop where
  | plain
      {name : Text} :
      name ≠ [] →
      (∀ char ∈ name, isNameChar char = true) →
      Written name name
  | quoted
      {name : Text} :
      name ≠ [] →
      Written name (quote name)

/-- A doubled text is read up to the quote behind it, unless another one follows. -/
theorem quotedLength_double
    (name : Text)
    {rest : Text}
    (ends : rest.head? ≠ some '"') :
    quotedLength (double name ++ '"' :: rest) = (double name).length + 1 := by
  induction name with
  | nil =>
      cases rest with
      | nil =>
          rfl
      | cons char more =>
          have notQuote : char ≠ '"' := by simpa using ends
          simp [double, quotedLength, notQuote]
  | cons char more inductionHypothesis =>
      by_cases isQuote : char = '"'
      · simp [double, isQuote, quotedLength, inductionHypothesis]
      · simp [double, isQuote, quotedLength, inductionHypothesis]

/-- A quoted name is scanned as an identifier, with nothing open behind it. -/
theorem scan_quote_append
    (name rest : Text) :
    scan (quote name ++ rest) = (quote name).map (⟨·, .identifier⟩) ++ scan rest := by
  -- The opening quote is read as code; from then on the identifier is open.
  have inside :
      scanFrom .inIdentifier (double name ++ '"' :: rest) =
        (double name ++ ['"']).map (⟨·, .identifier⟩) ++ scan rest := by
    induction name with
    | nil =>
        rfl
    | cons char more inductionHypothesis =>
        by_cases isQuote : char = '"'
        · simp [double, isQuote, scanFrom, ScanState.step, inductionHypothesis]
        · simp [double, isQuote, scanFrom, ScanState.step, inductionHypothesis]
  have whole : quote name ++ rest = '"' :: (double name ++ '"' :: rest) := by
    simp [quote]
  have opened :
      scan ('"' :: (double name ++ '"' :: rest)) =
        ⟨'"', .identifier⟩ :: scanFrom .inIdentifier (double name ++ '"' :: rest) :=
    rfl
  rw [whole, opened, inside]
  simp [quote]

/-- Characters that open nothing are scanned as code, whatever follows them. -/
theorem scan_plain_append
    {text : Text}
    (plain : ∀ char ∈ text, isPlainCode char = true)
    (rest : Text) :
    scan (text ++ rest) = text.map (⟨·, .code⟩) ++ scan rest := by
  induction text with
  | nil =>
      rfl
  | cons char more inductionHypothesis =>
      rw [List.forall_mem_cons] at plain
      rw [List.cons_append, scan_cons_plain plain.1, inductionHypothesis plain.2]
      rfl

namespace Written

variable {name spelling : Text}

theorem name_ne_nil
    (written : Written name spelling) :
    name ≠ [] := by
  cases written with
  | plain named _ => exact named
  | quoted named => exact named

theorem normalize_eq
    (written : Written name spelling) :
    normalize spelling = name := by
  cases written with
  | plain _ inName =>
      exact normalize_eq_self fun char member => isNameChar_visible (inName char member)
  | quoted _ =>
      exact (normalize_quoted (double name)).trans (undouble_double name)

/-- Neither a blank nor a comment starts where a name does. -/
theorem exists_head
    (written : Written name spelling) :
    ∃ first rest,
      spelling = first :: rest ∧ isBlank first = false ∧ first ≠ '-' ∧ first ≠ '*' := by
  cases written with
  | plain named inName =>
      obtain ⟨first, rest, rfl⟩ := List.exists_cons_of_ne_nil named
      have inside := inName first List.mem_cons_self
      exact ⟨first, rest, rfl, (isNameChar_visible inside).1,
        ne_of_holds inside (by decide), ne_of_holds inside (by decide)⟩
  | quoted _ =>
      exact ⟨'"', double name ++ ['"'], rfl, by decide, by decide, by decide⟩

/-- Behind a name nothing is open, and the mask shows all of it or nothing but blanks. -/
theorem exists_glyphs
    (written : Written name spelling)
    (rest : Text) :
    ∃ glyphs,
      scan (spelling ++ rest) = glyphs ++ scan rest ∧ Glyph.chars glyphs = spelling ∧
        ((∀ char ∈ Glyph.code glyphs, isBlank char = false) ∨
          ∀ char ∈ Glyph.code glyphs, isBlank char = true) := by
  cases written with
  | plain _ inName =>
      have plain : ∀ char ∈ name, isPlainCode char = true := fun char member =>
        isPlainCode_of ⟨by decide, by decide, by decide, by decide⟩ (inName char member)
      refine ⟨_, scan_plain_append plain rest, ?_, .inl ?_⟩
      · rw [Glyph.chars, List.map_map]
        exact List.map_id name
      · intro char member
        have isChar : char ∈ name := by
          simpa [Glyph.code, Glyph.shown, Glyph.isCode] using member
        exact (isNameChar_visible (inName char isChar)).1
  | quoted _ =>
      refine ⟨_, scan_quote_append name rest, ?_, .inr ?_⟩
      · rw [Glyph.chars, List.map_map]
        exact List.map_id (quote name)
      · intro char member
        obtain ⟨glyph, isGlyph, rfl⟩ := List.mem_map.mp member
        obtain ⟨original, _, rfl⟩ := List.mem_map.mp isGlyph
        rcases @Glyph.shown_of_isCode_eq_false ⟨original, .identifier⟩ rfl with shown | shown
        · simp [shown, isBlank]
        · simp [shown, isBlank]

/-- A name is as long as it is written, if what follows does not continue it. -/
theorem length_append
    (written : Written name spelling)
    {rest : Text}
    (ends : rest.head?.any isNameChar = false)
    (unquoted : rest.head? ≠ some '"') :
    Name.length (spelling ++ rest) = spelling.length := by
  cases written with
  | plain named inName =>
      obtain ⟨first, more, rfl⟩ := List.exists_cons_of_ne_nil named
      have notQuote := (isNameChar_visible (inName first List.mem_cons_self)).2
      have outside : rest.takeWhile isNameChar = [] := by
        cases rest with
        | nil => rfl
        | cons char others => simpa using ends
      have run : (first :: more ++ rest).takeWhile isNameChar = first :: more := by
        rw [List.takeWhile_append_of_pos inName, outside, List.append_nil]
      rw [List.cons_append] at run ⊢
      simp [Name.length, notQuote, run]
  | quoted _ =>
      have size := quotedLength_double name unquoted
      simp [quote, Name.length, size]

/-- Behind blanks, a written name is read back as it is written. -/
theorem read?_append
    (written : Written name spelling)
    {blanks rest : Text}
    (blank : ∀ char ∈ blanks, isBlank char = true)
    (ends : rest.head?.any isNameChar = false)
    (unquoted : rest.head? ≠ some '"') :
    read? (blanks ++ (spelling ++ rest)) = some ⟨blanks.length, spelling⟩ := by
  obtain ⟨first, more, shape, visible, -⟩ := written.exists_head
  have stops : ¬ isBlank first = true := by simp [visible]
  have trimmed : Text.trimStart (blanks ++ (spelling ++ rest)) = spelling ++ rest := by
    rw [Text.trimStart, List.dropWhile_append_of_pos blank, shape, List.cons_append,
      List.dropWhile_cons_of_neg stops]
  have skipped : Text.leadingBlanks (blanks ++ (spelling ++ rest)) = blanks.length := by
    rw [Text.leadingBlanks, List.takeWhile_append_of_pos blank, shape, List.cons_append,
      List.takeWhile_cons_of_neg stops, List.append_nil]
  have spelled : (spelling ++ rest).take (Name.length (spelling ++ rest)) = spelling := by
    rw [written.length_append ends unquoted, List.take_left]
  have nonempty : spelling.isEmpty = false := by rw [shape]; rfl
  simp only [read?, trimmed, skipped, spelled, nonempty, Bool.false_eq_true, ↓reduceIte]

end Written

/-- What is read in front of other text is written, unless it names nothing. -/
theorem written_of_length
    {text : Text}
    (remains : text.drop (length text) ≠ [])
    (named : normalize (text.take (length text)) ≠ []) :
    Written (normalize (text.take (length text))) (text.take (length text)) := by
  have nonempty : text.take (length text) ≠ [] := by
    intro nothing
    rw [nothing] at named
    exact named rfl
  by_cases quoted : ∃ rest, text = '"' :: rest
  · obtain ⟨rest, rfl⟩ := quoted
    rw [length, List.drop_succ_cons] at remains
    rcases quotedLength_cases rest with all | ⟨name, taken⟩
    · exact absurd (List.drop_eq_nil_of_le (Nat.le_of_eq all.symm)) remains
    · have spelled : ('"' :: rest).take (length ('"' :: rest)) = quote name := by
        rw [length, List.take_succ_cons, taken]
        rfl
      have isName : normalize (quote name) = name :=
        (normalize_quoted (double name)).trans (undouble_double name)
      rw [spelled, isName] at named ⊢
      exact .quoted named
  · have token := token_of_length nonempty remains
    rcases token.plain_or_quoted with ⟨inName, -⟩ | ⟨inside, spelled⟩
    · have self :=
        normalize_eq_self fun char member => isNameChar_visible (inName char member)
      rw [self]
      exact .plain nonempty inName
    · have whole := List.take_append_drop (length text) text
      rw [spelled] at whole
      exact absurd ⟨_, whole.symm⟩ quoted

theorem written_of_read?
    {text : Text}
    {reading : Reading}
    (found : read? text = some reading)
    (remains : reading.skipped + reading.spelling.length < text.length)
    (named : normalize reading.spelling ≠ []) :
    Written (normalize reading.spelling) reading.spelling := by
  simp only [read?, Option.ite_none_left_eq_some, Option.some.injEq] at found
  obtain ⟨-, rfl⟩ := found
  refine written_of_length ?_ named
  intro nothing
  have size := congrArg List.length (List.take_append_drop (length (Text.trimStart text))
    (Text.trimStart text))
  rw [nothing, List.append_nil] at size
  have total := Text.leadingBlanks_add_length_trimStart text
  simp only at remains
  rw [size] at remains
  exact absurd total (Nat.ne_of_lt remains)

end Name

namespace Declaration

/-- A declared name is written plainly or in quotes. -/
theorem written_name
    {text : Text}
    {declaration : Declaration}
    (declared : declaration ∈ parse text) :
    Name.Written declaration.name declaration.spelling := by
  rw [parse_eq_segments] at declared
  obtain ⟨segment, -, declares⟩ := List.mem_filterMap.mp declared
  obtain ⟨⟨_, count⟩, read, rfl⟩ := Option.map_eq_some_iff.mp declares
  obtain ⟨parts, reading, index, length, isRead, fit, rfl, named, -⟩ :=
    Segment.exists_fit_of_read? read
  have isSpelling : Glyph.chars parts.name = reading.spelling := fit.spelling
  have remains :
      reading.skipped + reading.spelling.length < (Glyph.chars segment.region).length := by
    rw [fit.whole, ← fit.blanks, ← isSpelling]
    simp only [Segment.Parts.glyphs, Glyph.length_chars, List.length_append, List.length_cons]
    omega
  simp only [Segment.Parts.declaration] at named ⊢
  rw [isSpelling] at named ⊢
  exact Name.written_of_read? isRead remains named

end Declaration

end RoutineServer
