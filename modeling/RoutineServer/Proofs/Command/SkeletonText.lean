import RoutineServer.Command.Skeleton
import RoutineServer.Proofs.Routine.LoneAnchor
import RoutineServer.Proofs.Routine.OuterEnd
import RoutineServer.Proofs.Routine.WrittenName

namespace RoutineServer

/-!
# Skeletons are read back

A skeleton is a heading, a name, a parameter list, the clauses behind it and a
quoted block. Nothing that is asked for reaches over its place: the name ends at
the parenthesis, the parentheses of the parameters close inside them, and the
clauses neither start a declaration nor bound a block. So the skeleton is a
single declaration, of what was asked for, and ends with its block.
-/

namespace Skeleton

/-- Words and blanks that neither bound a block nor start a declaration. -/
structure IsClause (text : Text) : Prop where
  chars : (text.all fun char => isKeywordChar char || isBlank char) = true
  blockFree : BlockFree text
  uncreated : ∀ word ∈ codeWords text, ¬ IsKeyword "create" word

namespace IsClause

theorem append
    {left right : Text}
    (leftClause : IsClause left)
    (rightClause : IsClause right)
    (apart : WordBreak left right) :
    IsClause (left ++ right) where
  chars := by
    rw [List.all_append, leftClause.chars, rightClause.chars]
    rfl
  blockFree := by
    intro word member
    rw [codeWords_append apart, List.mem_append] at member
    exact member.elim (leftClause.blockFree word) (rightClause.blockFree word)
  uncreated := by
    intro word member
    rw [codeWords_append apart, List.mem_append] at member
    exact member.elim (leftClause.uncreated word) (rightClause.uncreated word)

variable {text : Text}

/-- A character that is neither a blank nor in a word is not in a clause. -/
theorem not_mem
    (clause : IsClause text)
    {char : Char}
    (other : (isKeywordChar char || isBlank char) = false) :
    char ∉ text := by
  intro member
  rw [List.all_eq_true.mp clause.chars char member] at other
  cases other

/-- A clause is code, whatever follows it. -/
theorem scan_append
    (clause : IsClause text)
    (rest : Text) :
    scan (text ++ rest) = Glyph.plain text ++ scan rest := by
  refine Name.scan_plain_append (fun char member => ?_) rest
  have others {other : Char} (fails : (isKeywordChar other || isBlank other) = false) :
      (char != other) = true :=
    bne_iff_ne.mpr fun same => clause.not_mem fails (same ▸ member)
  simp only [isPlainCode, Bool.and_eq_true]
  exact ⟨⟨⟨others (by decide), others (by decide)⟩, others (by decide)⟩, others (by decide)⟩

/-- A clause can stand in front of a block. -/
theorem lead
    (clause : IsClause text) :
    Lead text where
  blockFree := clause.blockFree
  noDollar := clause.not_mem (by decide)
  semicolons := by
    rintro front back rfl
    have noSemicolon : ';' ∉ front ++ ';' :: back := clause.not_mem (by decide)
    simp at noSemicolon

end IsClause

/-- What stands between the parameters and the block. -/
def clauses (kind : RoutineKind) (returns language : Option Text) : Text :=
  '\n' :: (returnType kind returns ++
    ("\nLANGUAGE ".toList ++ language.getD "plpgsql".toList))

/-- What the block encloses. -/
def items (kind : RoutineKind) : Text :=
  "\n  -- implementation goes here\n  ".toList ++
    (returnStatement kind ++
      "\nEXCEPTION WHEN OTHERS THEN\n  -- handle\n  RAISE;\n".toList)

/-- What opens the block. -/
def opening : Text :=
  "\nAS $$\nBEGIN".toList

/-- What stands behind the block. -/
def closing : Text :=
  "\n$$;\n".toList

/-- A skeleton is made of the heading, what is asked for, the clauses and the block. -/
theorem render_eq
    (kind : RoutineKind)
    (name parameters : Text)
    (returns language : Option Text) :
    render kind name parameters returns language =
      heading kind ++ ' ' :: (name ++ '(' :: (Text.trim parameters ++ ')' ::
        (clauses kind returns language ++
          (opening ++ (items kind ++ ("END;".toList ++ closing)))))) := by
  have parenthesis : ")\n".toList = [')', '\n'] := by
    decide +kernel
  have opened :
      "\nAS $$\nBEGIN\n  -- implementation goes here\n  ".toList =
        "\nAS $$\nBEGIN".toList ++ "\n  -- implementation goes here\n  ".toList := by
    decide +kernel
  have ended :
      "\nEXCEPTION WHEN OTHERS THEN\n  -- handle\n  RAISE;\nEND;\n$$;\n".toList =
        "\nEXCEPTION WHEN OTHERS THEN\n  -- handle\n  RAISE;\n".toList ++
          ("END;".toList ++ "\n$$;\n".toList) := by
    decide +kernel
  -- An equation lemma for a text would evaluate its literals; `delta` does not.
  delta render clauses opening items closing
  simp only [parenthesis, opened, ended, List.append_assoc, List.cons_append, List.nil_append]

/-- The heading is an anchor. -/
theorem at?_heading
    (kind : RoutineKind) :
    Anchor.at? none (heading kind) = some ⟨kind, (heading kind).length⟩ := by
  cases kind with
  | function => decide +kernel
  | procedure => decide +kernel

theorem all_isPlainCode_heading
    (kind : RoutineKind) :
    (heading kind).all isPlainCode = true := by
  cases kind with
  | function => decide +kernel
  | procedure => decide +kernel

/-- The clauses of a skeleton are clauses if what is asked for is. -/
theorem isClause_clauses
    (kind : RoutineKind)
    {returns language : Option Text}
    (returned : ∀ text ∈ returns, IsClause text)
    (inLanguage : ∀ text ∈ language, IsClause text) :
    IsClause (clauses kind returns language) := by
  have void : IsClause (returns.getD "void".toList) := by
    cases returns with
    | none => exact ⟨by decide +kernel, by decide +kernel, by decide +kernel⟩
    | some text => exact returned text rfl
  have plpgsql : IsClause (language.getD "plpgsql".toList) := by
    cases language with
    | none => exact ⟨by decide +kernel, by decide +kernel, by decide +kernel⟩
    | some text => exact inLanguage text rfl
  have languageClause : IsClause ("\nLANGUAGE ".toList ++ language.getD "plpgsql".toList) := by
    refine IsClause.append ⟨by decide +kernel, by decide +kernel, by decide +kernel⟩ plpgsql ?_
    exact .of_getLast (by decide +kernel) _
  have newline : IsClause ['\n'] := ⟨by decide, by decide, by decide⟩
  cases kind with
  | function =>
      have returnsClause : IsClause ("RETURNS ".toList ++ returns.getD "void".toList) := by
        refine IsClause.append ⟨by decide +kernel, by decide +kernel, by decide +kernel⟩ void ?_
        exact .of_getLast (by decide +kernel) _
      have apart :
          WordBreak ("RETURNS ".toList ++ returns.getD "void".toList)
            ("\nLANGUAGE ".toList ++ language.getD "plpgsql".toList) :=
        WordBreak.append_right (.of_head (by decide +kernel) _) (by decide +kernel) _
      exact newline.append (returnsClause.append languageClause apart)
        (.of_getLast (by decide) _)
  | procedure =>
      exact newline.append languageClause (.of_getLast (by decide) _)

/-- The inside of a block: it bounds none, starts no declaration and stands on lines of its own. -/
structure IsInner (text : Text) : Prop where
  closed : scanEnd .code text = .code
  neutral : Neutral (Glyph.code (scan text))
  uncreated : ∀ word ∈ codeWords (Glyph.code (scan text)), ¬ IsKeyword "create" word
  starts : (Glyph.code (scan text)).head? = some '\n'
  ends : (Glyph.code (scan text)).getLast? = some '\n'

instance (text : Text) : Decidable (IsInner text) :=
  decidable_of_iff
    (scanEnd .code text = .code ∧ Neutral (Glyph.code (scan text)) ∧
      (∀ word ∈ codeWords (Glyph.code (scan text)), ¬ IsKeyword "create" word) ∧
        (Glyph.code (scan text)).head? = some '\n' ∧
          (Glyph.code (scan text)).getLast? = some '\n')
    ⟨fun ⟨closed, neutral, uncreated, starts, ends⟩ => ⟨closed, neutral, uncreated, starts, ends⟩,
      fun ⟨closed, neutral, uncreated, starts, ends⟩ => ⟨closed, neutral, uncreated, starts, ends⟩⟩

theorem isInner_items
    (kind : RoutineKind) :
    IsInner (items kind) := by
  cases kind with
  | function => decide +kernel
  | procedure => decide +kernel

/-- Of the block, only its inside is not plain code. -/
theorem scan_block
    (kind : RoutineKind) :
    scan (opening ++ (items kind ++ ("END;".toList ++ closing))) =
      Glyph.plain opening ++
        (scan (items kind) ++ (Glyph.plain "END;".toList ++ Glyph.plain closing)) := by
  have openingPlain : opening.all isPlainCode = true := by
    decide +kernel
  have endPlain : ("END;".toList ++ closing).all isPlainCode = true := by
    decide +kernel
  have endScan : scan ("END;".toList ++ closing) = Glyph.plain ("END;".toList ++ closing) := by
    have scanned := Name.scan_plain_append (List.all_eq_true.mp endPlain) []
    rw [List.append_nil] at scanned
    rw [scanned]
    exact List.append_nil _
  have itemsScan :
      scan (items kind ++ ("END;".toList ++ closing)) =
        scan (items kind) ++ scan ("END;".toList ++ closing) := by
    refine scan_append_of_closed (isInner_items kind).closed fun next starts => ?_
    have isE : ("END;".toList ++ closing).head? = some 'E' := rfl
    rw [isE, Option.mem_some_iff] at starts
    subst starts
    decide
  rw [Name.scan_plain_append (List.all_eq_true.mp openingPlain), itemsScan, endScan,
    Glyph.plain_append]
  rfl

/-- The pieces of a skeleton behind its heading, given the glyphs of its name. -/
def parts
    (kind : RoutineKind)
    (name : List Glyph)
    (parameters : Text)
    (returns language : Option Text) :
    Segment.Parts where
  blanks := [⟨' ', .code⟩]
  name := name
  gap := []
  inside := scan (Text.trim parameters)
  body := Glyph.plain (clauses kind returns language) ++
    (Glyph.plain opening ++ (scan (items kind) ++ Glyph.plain "END;".toList))
  rest := Glyph.plain closing

section Asked

variable {kind : RoutineKind} {unquoted name parameters : Text} {returns language : Option Text}

/-- Each piece of a skeleton is scanned on its own. -/
theorem exists_scan_render
    (named : Name.Written unquoted name)
    (closed : scanEnd .code (Text.trim parameters) = .code)
    (clause : IsClause (clauses kind returns language)) :
    ∃ nameGlyphs,
      scan (render kind name parameters returns language) =
          Glyph.plain (heading kind) ++ (parts kind nameGlyphs parameters returns language).glyphs ∧
        Glyph.chars nameGlyphs = name ∧
          ((∀ char ∈ Glyph.code nameGlyphs, isBlank char = false) ∨
            ∀ char ∈ Glyph.code nameGlyphs, isBlank char = true) := by
  obtain ⟨nameGlyphs, nameScan, nameChars, shown⟩ :=
    named.exists_glyphs ('(' :: (Text.trim parameters ++ ')' ::
      (clauses kind returns language ++
        (opening ++ (items kind ++ ("END;".toList ++ closing))))))
  refine ⟨nameGlyphs, ?_, nameChars, shown⟩
  have headingScan := Name.scan_plain_append (List.all_eq_true.mp (all_isPlainCode_heading kind))
  have parametersScan :
      scan (Text.trim parameters ++ ')' ::
          (clauses kind returns language ++
            (opening ++ (items kind ++ ("END;".toList ++ closing))))) =
        scan (Text.trim parameters) ++ scan (')' ::
          (clauses kind returns language ++
            (opening ++ (items kind ++ ("END;".toList ++ closing))))) :=
    scan_append_of_closed closed (by simp)
  rw [render_eq, headingScan, scan_cons_plain (by decide), nameScan, scan_cons_plain (by decide),
    parametersScan, scan_cons_plain (by decide), clause.scan_append, scan_block]
  simp [parts, Segment.Parts.glyphs, Glyph.plain]

/-- The clauses, the quote and the block are read as an outer block. -/
theorem outerBlock
    (clause : IsClause (clauses kind returns language)) :
    OuterBlock
      (clauses kind returns language ++ "\nAS ".toList ++ ("$$".toList ++ "\n".toList))
      "BEGIN".toList (Glyph.code (scan (items kind))) "END".toList (';' :: closing) where
  isHeader := by
    have asClause : IsClause (clauses kind returns language ++ "\nAS ".toList) :=
      clause.append ⟨by decide +kernel, by decide +kernel, by decide +kernel⟩
        (.of_head (by decide +kernel) _)
    exact .quoted asClause.lead ⟨[], by decide +kernel, by simp, rfl⟩ (by decide +kernel)
      (by decide +kernel)
  begins := by decide +kernel
  areItems := .code (isInner_items kind).neutral
  ends := by decide +kernel
  plainEnd := by decide +kernel
  opened := by
    have quoteEnd : ("$$".toList ++ "\n".toList).getLast? = some '\n' := by
      decide +kernel
    refine ⟨.of_getLast ?_ _, .of_head ?_ _⟩
    · rw [List.getLast?_append, quoteEnd]
      rfl
    · rw [List.head?_append, (isInner_items kind).starts]
      rfl
  closed := by
    refine ⟨.of_getLast ?_ _, .of_head rfl _⟩
    rw [(isInner_items kind).ends]
    rfl

/-- A skeleton ends with the semicolon of its block. -/
theorem endingLength_body
    (nameGlyphs : List Glyph)
    (clause : IsClause (clauses kind returns language)) :
    endingLength (some ')')
        (Glyph.code ((parts kind nameGlyphs parameters returns language).body ++
          (parts kind nameGlyphs parameters returns language).rest)) =
      (parts kind nameGlyphs parameters returns language).body.length := by
  have opened :
      opening = "\nAS ".toList ++ (("$$".toList ++ "\n".toList) ++ "BEGIN".toList) := by
    decide +kernel
  have ended : "END;".toList = "END".toList ++ [';'] := by
    decide +kernel
  have terminated : terminatorLength (';' :: closing) = 1 := by
    decide +kernel
  have code :
      Glyph.code ((parts kind nameGlyphs parameters returns language).body ++
          (parts kind nameGlyphs parameters returns language).rest) =
        clauses kind returns language ++ "\nAS ".toList ++ ("$$".toList ++ "\n".toList) ++
          ("BEGIN".toList ++ (Glyph.code (scan (items kind)) ++ "END".toList)) ++
            ';' :: closing := by
    simp only [parts, opened, ended, Glyph.code_append, Glyph.code_plain, List.append_assoc,
      List.cons_append, List.nil_append]
  have run := (outerBlock clause).run_eq
  rw [terminated] at run
  rw [code, endingLength, run]
  simp only [parts, opened, ended, Glyph.plain, List.length_append, List.length_map,
    Glyph.length_code, List.length_singleton]
  omega

/-- Behind its parameters, a skeleton does not have the first word of an anchor. -/
theorem uncreated_tail
    (clause : IsClause (clauses kind returns language)) :
    ∀ word ∈ codeWords (clauses kind returns language ++
        (opening ++ (Glyph.code (scan (items kind)) ++ ("END;".toList ++ closing)))),
      ¬ IsKeyword "create" word := by
  have inner := isInner_items kind
  have openingApart :
      WordBreak opening (Glyph.code (scan (items kind)) ++ ("END;".toList ++ closing)) := by
    refine .of_head ?_ _
    rw [List.head?_append, inner.starts]
    rfl
  have itemsApart : WordBreak (Glyph.code (scan (items kind))) ("END;".toList ++ closing) := by
    refine .of_getLast ?_ _
    rw [inner.ends]
    rfl
  have inOpening : ∀ word ∈ codeWords opening, ¬ IsKeyword "create" word := by
    decide +kernel
  have inEnd : ∀ word ∈ codeWords ("END;".toList ++ closing), ¬ IsKeyword "create" word := by
    decide +kernel
  intro word member
  rw [codeWords_append (.of_head rfl _), codeWords_append openingApart,
    codeWords_append itemsApart, List.mem_append, List.mem_append, List.mem_append] at member
  rcases member with inClauses | isOpening | isInner | isEnd
  · exact clause.uncreated word inClauses
  · exact inOpening word isOpening
  · exact inner.uncreated word isInner
  · exact inEnd word isEnd

/-- Behind its heading, a skeleton has no anchor. -/
theorem absent_parts
    {nameGlyphs : List Glyph}
    (shown :
      (∀ char ∈ Glyph.code nameGlyphs, isBlank char = false) ∨
        ∀ char ∈ Glyph.code nameGlyphs, isBlank char = true)
    (unanchored : Anchor.allMatches (maskedText (Text.trim parameters)) = [])
    (clause : IsClause (clauses kind returns language))
    (previous : Option Char) :
    Anchor.Absent previous
      (Glyph.code (parts kind nameGlyphs parameters returns language).glyphs) := by
  have code :
      Glyph.code (parts kind nameGlyphs parameters returns language).glyphs =
        (' ' :: Glyph.code nameGlyphs) ++ '(' ::
          (Glyph.code (scan (Text.trim parameters)) ++ ')' ::
            (clauses kind returns language ++
              (opening ++ (Glyph.code (scan (items kind)) ++ ("END;".toList ++ closing))))) := by
    simp [parts, Segment.Parts.glyphs, Glyph.shown, Glyph.isCode]
  have inName : Anchor.Absent previous (' ' :: Glyph.code nameGlyphs) := by
    rcases shown with visible | blank
    · exact .cons (Anchor.at?_eq_none fun _ => by decide) (.of_visible _ visible)
    · exact .of_blank _ (List.forall_mem_cons.mpr ⟨by decide, blank⟩)
  have inParameters : Anchor.Absent (some '(') (Glyph.code (scan (Text.trim parameters))) :=
    (Anchor.Absent.of_allMatches unanchored).congr rfl
  have inTail := Anchor.Absent.of_words (some ')') (uncreated_tail clause)
  rw [code]
  exact inName.append_bar Anchor.isBar_opening
    (inParameters.append_bar Anchor.isBar_closing inTail)

/-- The segment that a skeleton is. -/
def segment
    (kind : RoutineKind)
    (name : List Glyph)
    (parameters : Text)
    (returns language : Option Text) :
    Segment :=
  ⟨kind, 0, Glyph.plain (heading kind), (parts kind name parameters returns language).glyphs⟩

theorem segments_render
    {nameGlyphs : List Glyph}
    (scanned :
      scan (render kind name parameters returns language) =
        Glyph.plain (heading kind) ++ (parts kind nameGlyphs parameters returns language).glyphs)
    (absent :
      Anchor.Absent (Glyph.code (Glyph.plain (heading kind))).getLast?
        (Glyph.code (parts kind nameGlyphs parameters returns language).glyphs)) :
    Segment.segments (render kind name parameters returns language) =
      [segment kind nameGlyphs parameters returns language] := by
  have found :
      Anchor.at? none (Glyph.code (Glyph.plain (heading kind) ++
          (parts kind nameGlyphs parameters returns language).glyphs)) =
        some ⟨kind, (heading kind).length⟩ := by
    rw [Glyph.code_append, Glyph.code_plain]
    exact ((Anchor.at?_append_iff rfl).mp (at?_heading kind)).1
  exact Segment.segments_eq_singleton scanned found (by simp [Glyph.plain]) absent

/-- The segment is read as the declaration of its pieces. -/
theorem declaration?_segment
    {nameGlyphs : List Glyph}
    (named : Name.Written unquoted name)
    (nameChars : Glyph.chars nameGlyphs = name)
    (balanced :
      Balanced
        (codeParens (byteModes (scan (Text.trim parameters)))
          (Text.utf8 (Text.trim parameters))))
    (clause : IsClause (clauses kind returns language)) :
    (segment kind nameGlyphs parameters returns language).declaration? =
      some ((parts kind nameGlyphs parameters returns language).declaration
        (segment kind nameGlyphs parameters returns language)) := by
  have isName :
      Glyph.chars (parts kind nameGlyphs parameters returns language).name = name :=
    nameChars
  refine Segment.declaration?_eq_some rfl ?_ ?_ rfl ?_ (endingLength_body nameGlyphs clause)
  · have chars :
        Glyph.chars (parts kind nameGlyphs parameters returns language).glyphs =
          [' '] ++ (name ++ '(' :: (Text.trim parameters ++ ')' ::
            Glyph.chars ((parts kind nameGlyphs parameters returns language).body ++
              (parts kind nameGlyphs parameters returns language).rest))) := by
      simp [parts, Segment.Parts.glyphs, nameChars]
    rw [chars, isName]
    exact named.read?_append (List.forall_mem_singleton.mpr (by decide)) rfl (by simp)
  · rw [isName, named.normalize_eq]
    exact named.name_ne_nil
  · have parens := Glyph.codeParens_byteModes (scan (Text.trim parameters))
    rw [Glyph.chars_scan] at parens
    rw [parens, balanced_iff] at balanced
    exact balanced

/-- The declaration ends where the block does. -/
theorem stop_declaration
    {nameGlyphs : List Glyph}
    (nameChars : Glyph.chars nameGlyphs = name) :
    ((parts kind nameGlyphs parameters returns language).declaration
        (segment kind nameGlyphs parameters returns language)).stop =
      Text.byteLength
        (heading kind ++ ' ' :: (name ++ '(' :: (Text.trim parameters ++ ')' ::
          (clauses kind returns language ++ (opening ++ items kind)))) ++ "END;".toList) := by
  have nameLength : Glyph.byteLength nameGlyphs = Text.byteLength name := by
    rw [Glyph.byteLength, nameChars]
  have blankSize : ' '.utf8Size = 1 := rfl
  have openingSize : '('.utf8Size = 1 := rfl
  have closingSize : ')'.utf8Size = 1 := rfl
  simp only [Segment.Parts.declaration, Segment.regionStart, parts, segment, nameLength,
    Glyph.byteLength_append, Glyph.byteLength_cons, Glyph.byteLength_nil, Glyph.byteLength_plain,
    Glyph.byteLength_scan, Text.byteLength_append, Text.byteLength_cons, blankSize, openingSize,
    closingSize]
  omega

end Asked

/--
A skeleton is read back as the one declaration that was asked for: of the kind,
under the name and with the parameters asked for. It starts with the skeleton and
ends with the `END;` of the block.
-/
theorem parse_render
    {kind : RoutineKind}
    {unquoted name parameters : Text}
    {returns language : Option Text}
    (named : Name.Written unquoted name)
    (closed : scanEnd .code (Text.trim parameters) = .code)
    (balanced :
      Balanced
        (codeParens (byteModes (scan (Text.trim parameters)))
          (Text.utf8 (Text.trim parameters))))
    (unanchored : Anchor.allMatches (maskedText (Text.trim parameters)) = [])
    (returned : ∀ text ∈ returns, IsClause text)
    (inLanguage : ∀ text ∈ language, IsClause text) :
    ∃ declaration body,
      Declaration.parse (render kind name parameters returns language) = [declaration] ∧
        declaration.kind = kind ∧ declaration.spelling = name ∧ declaration.name = unquoted ∧
          declaration.parameters = Text.trim parameters ∧ declaration.start = 0 ∧
            render kind name parameters returns language =
                body ++ ("END;".toList ++ "\n$$;\n".toList) ∧
              declaration.stop = Text.byteLength (body ++ "END;".toList) := by
  have clause := isClause_clauses kind returned inLanguage
  obtain ⟨nameGlyphs, scanned, nameChars, shown⟩ := exists_scan_render named closed clause
  have segments := segments_render scanned (absent_parts shown unanchored clause _)
  have read := declaration?_segment named nameChars balanced clause
  have normalized : Name.normalize (Glyph.chars nameGlyphs) = unquoted := by
    rw [nameChars, named.normalize_eq]
  refine ⟨(parts kind nameGlyphs parameters returns language).declaration
      (segment kind nameGlyphs parameters returns language),
    heading kind ++ ' ' :: (name ++ '(' :: (Text.trim parameters ++ ')' ::
      (clauses kind returns language ++ (opening ++ items kind)))),
    ?_, rfl, nameChars, normalized, Glyph.chars_scan _, rfl, ?_, stop_declaration nameChars⟩
  · rw [Declaration.parse_eq_segments, segments, List.filterMap_cons_some read, List.filterMap_nil]
  · rw [render_eq]
    delta closing
    simp only [List.append_assoc, List.cons_append]

private def oddName : Text :=
  "Net (\"\n; create function ".toList

private def oddParameters : Text :=
  " a numeric(10, 2), b text = \x27)\x27 /* ( create function */ ".toList

/-- The name and the parameters hide parentheses, a quote and the words of an anchor. -/
theorem parse_render_odd :
    ∃ declaration body,
      Declaration.parse
          (render .function (Name.quote oddName) oddParameters (some "SETOF Case_1".toList) none) =
          [declaration] ∧
        declaration.kind = .function ∧ declaration.spelling = Name.quote oddName ∧
          declaration.name = oddName ∧ declaration.parameters = Text.trim oddParameters ∧
            declaration.start = 0 ∧
              render .function (Name.quote oddName) oddParameters (some "SETOF Case_1".toList)
                  none =
                  body ++ ("END;".toList ++ "\n$$;\n".toList) ∧
                declaration.stop = Text.byteLength (body ++ "END;".toList) := by
  have returned : ∀ text ∈ some "SETOF Case_1".toList, IsClause text := by
    rintro text ⟨⟩
    exact ⟨by decide +kernel, by decide +kernel, by decide +kernel⟩
  exact parse_render (.quoted (by decide +kernel)) (by decide +kernel) (by decide +kernel)
    (by decide +kernel) returned (fun _ absent => nomatch absent)

end Skeleton

end RoutineServer
