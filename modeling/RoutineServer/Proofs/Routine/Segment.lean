import RoutineServer.Proofs.Lexical.Resume
import RoutineServer.Proofs.Routine.Anchor
import RoutineServer.Proofs.Routine.Ending
import RoutineServer.Routine.Declaration

namespace RoutineServer

/-!
# Segments of a document

The anchors of a document cut it into segments: an anchor and its region, which
reaches to the next anchor or to the end. What a segment declares can be read
from the segment alone, and the declarations of a document are those of its
segments, in order. The jumps of the search change nothing about this, because
no anchor starts in what is jumped over.
-/

namespace Glyph

@[simp] theorem code_nil : code [] = [] := rfl

@[simp] theorem code_cons
    (glyph : Glyph)
    (rest : List Glyph) :
    code (glyph :: rest) = glyph.shown :: code rest := rfl

@[simp] theorem code_append
    (first second : List Glyph) :
    code (first ++ second) = code first ++ code second := by
  simp [code]

@[simp] theorem length_code
    (glyphs : List Glyph) :
    (code glyphs).length = glyphs.length := by
  simp [code]

theorem code_take
    (count : Nat)
    (glyphs : List Glyph) :
    code (glyphs.take count) = (code glyphs).take count := by
  simp [code]

theorem code_drop
    (count : Nat)
    (glyphs : List Glyph) :
    code (glyphs.drop count) = (code glyphs).drop count := by
  simp [code]

@[simp] theorem chars_nil : chars [] = [] := rfl

@[simp] theorem chars_cons
    (glyph : Glyph)
    (rest : List Glyph) :
    chars (glyph :: rest) = glyph.char :: chars rest := rfl

@[simp] theorem chars_append
    (first second : List Glyph) :
    chars (first ++ second) = chars first ++ chars second := by
  simp [chars]

@[simp] theorem length_chars
    (glyphs : List Glyph) :
    (chars glyphs).length = glyphs.length := by
  simp [chars]

@[simp] theorem byteLength_nil : byteLength [] = 0 := rfl

@[simp] theorem byteLength_cons
    (glyph : Glyph)
    (rest : List Glyph) :
    byteLength (glyph :: rest) = glyph.char.utf8Size + byteLength rest := rfl

@[simp] theorem byteLength_append
    (first second : List Glyph) :
    byteLength (first ++ second) = byteLength first + byteLength second := by
  simp [byteLength]

@[simp] theorem chars_scan
    (text : Text) :
    chars (scan text) = text :=
  chars_scanFrom .code text

@[simp] theorem byteLength_scan
    (text : Text) :
    byteLength (scan text) = Text.byteLength text := by
  rw [byteLength, chars_scan]

/-- A glyph that the mask shows as something else than a blank is code. -/
theorem eq_of_shown
    {glyph : Glyph}
    {char : Char}
    (shown : glyph.shown = char)
    (visible : char ≠ ' ' ∧ char ≠ '\n') :
    glyph = ⟨char, .code⟩ := by
  rcases glyph with ⟨own, mode⟩
  simp only [Glyph.shown, Glyph.isCode, Bool.or_eq_true, beq_iff_eq] at shown
  split at shown
  case isTrue either =>
      subst own
      rcases either with code | newline
      · rw [code]
      · exact absurd newline visible.2
  case isFalse =>
      exact absurd shown.symm visible.1

/-- Of a glyph that is not code, the mask shows a blank or a newline. -/
theorem shown_of_isCode_eq_false
    {glyph : Glyph}
    (hidden : glyph.isCode = false) :
    glyph.shown = ' ' ∨ glyph.shown = '\n' := by
  by_cases newline : glyph.char = '\n'
  · right
    simp [shown, newline]
  · left
    simp [shown, hidden, newline]

/-- The first place where the mask shows a visible character. -/
theorem findIdx?_code_eq_some
    {char : Char}
    {glyphs : List Glyph}
    {index : Nat}
    (visible : char ≠ ' ' ∧ char ≠ '\n')
    (found : (code glyphs).findIdx? (· == char) = some index) :
    ∃ front back,
      glyphs = front ++ ⟨char, .code⟩ :: back ∧ front.length = index := by
  induction glyphs generalizing index with
  | nil =>
      simp at found
  | cons glyph rest inductionHypothesis =>
      rw [code_cons, List.findIdx?_cons] at found
      split at found
      case isTrue here =>
          simp only [Option.some.injEq] at found
          have glyphShape := eq_of_shown (beq_iff_eq.mp here) visible
          exact ⟨[], rest, by rw [glyphShape]; rfl, by simpa using found⟩
      case isFalse =>
          obtain ⟨less, later, rfl⟩ := Option.map_eq_some_iff.mp found
          obtain ⟨front, back, rfl, size⟩ := inductionHypothesis later
          exact ⟨glyph :: front, back, rfl, by simp [size]⟩

end Glyph

/-- An anchor and its region. The start is a byte offset into the document. -/
structure Segment where
  kind : RoutineKind
  start : Nat
  /-- The words of the anchor. -/
  words : List Glyph
  /-- What lies between the anchor and the next one or the end. -/
  region : List Glyph
  deriving Repr, DecidableEq

namespace Segment

/-- Where the region starts. -/
def regionStart (segment : Segment) : Nat :=
  segment.start + Glyph.byteLength segment.words

/-- Where the region ends. -/
def limit (segment : Segment) : Nat :=
  segment.regionStart + Glyph.byteLength segment.region

/-- The byte offset of a place in the region. -/
def offsetOf (segment : Segment) (count : Nat) : Nat :=
  segment.regionStart + Glyph.byteLength (segment.region.take count)

/-- The segment of an anchor at the start of the given glyphs. -/
def of (anchor : Anchor) (start : Nat) (glyphs : List Glyph) : Segment :=
  let words := glyphs.take anchor.length
  let tail := glyphs.drop anchor.length
  {
    kind := anchor.kind
    start := start
    words := words
    region := tail.take (Anchor.distance (Glyph.code words).getLast? (Glyph.code tail))
  }

/--
The declaration of a segment whose name is given, with its parentheses at
`opening` and, `length` characters further in, behind the parameters. The
number is that of the characters of the region that belong to the declaration.
-/
def declare (segment : Segment) (reading : Name.Reading) (opening length : Nat) :
    Declaration × Nat :=
  let closing := opening + 1 + length
  let rest := segment.region.drop (closing + 1)
  let count := closing + 1 + endingLength (some ')') (Glyph.code rest)
  let declaration : Declaration := {
    spelling := reading.spelling
    name := Name.normalize reading.spelling
    kind := segment.kind
    parameters := Glyph.chars ((segment.region.drop (opening + 1)).take length)
    start := segment.start
    stop := segment.offsetOf count
    nameStart := segment.offsetOf reading.skipped
    paramsOpen := segment.offsetOf opening
    paramsClose := segment.offsetOf closing
  }
  (declaration, count)

/-- Read the declaration of a segment, from the segment alone. -/
def read? (segment : Segment) : Option (Declaration × Nat) := do
  let reading ← Name.read? (Glyph.chars segment.region)
  let nameEnd := reading.skipped + reading.spelling.length
  let opening :=
    nameEnd + (← (Glyph.code (segment.region.drop nameEnd)).findIdx? (· == '('))
  let length ← closingParen? 0 (segment.region.drop (opening + 1))
  if (Name.normalize reading.spelling).isEmpty then none
  else some (segment.declare reading opening length)

/-- The declaration of a segment, if it has one. -/
def declaration? (segment : Segment) : Option Declaration :=
  segment.read?.map Prod.fst

theorem offsetOf_of
    (anchor : Anchor)
    (start : Nat)
    (glyphs : List Glyph)
    {count : Nat}
    (within : count ≤ (of anchor start glyphs).region.length) :
    (of anchor start glyphs).offsetOf count =
      start + Glyph.byteLength (glyphs.take (anchor.length + count)) := by
  have inner :
      (of anchor start glyphs).region.take count =
        (glyphs.drop anchor.length).take count := by
    simp only [of, List.length_take] at within
    simp only [of, List.take_take]
    congr 1
    omega
  rw [List.take_add, Glyph.byteLength_append, ← Nat.add_assoc, offsetOf, inner]
  rfl

/--
The partner of a parenthesis that is code, looked for in all of the text that is
scanned anew behind it, is found in the region or counts as not found.
-/
theorem closingParen?_region
    {front back after : List Glyph}
    (scanned : Scanned (front ++ ⟨'(', .code⟩ :: (back ++ after))) :
    (closingParen? 0 (scan (Glyph.chars (back ++ after)))).filter (· < back.length) =
      closingParen? 0 back := by
  have again : back ++ after = scan (Glyph.chars (back ++ after)) :=
    scanned.after_code rfl
  rw [← again]
  exact closingParen?_append 0 back after

/-- The first parenthesis that the mask shows behind the name splits the region. -/
theorem region_split
    {region : List Glyph}
    {nameEnd index : Nat}
    (found : (Glyph.code (region.drop nameEnd)).findIdx? (· == '(') = some index) :
    ∃ front back,
      region = front ++ ⟨'(', .code⟩ :: back ∧ front.length = nameEnd + index := by
  obtain ⟨gap, back, shape, size⟩ := Glyph.findIdx?_code_eq_some (by decide) found
  have whole : region = region.take nameEnd ++ gap ++ ⟨'(', .code⟩ :: back := by
    rw [List.append_assoc, ← shape, List.take_append_drop]
  refine ⟨region.take nameEnd ++ gap, back, whole, ?_⟩
  have inside : nameEnd ≤ region.length := by
    by_contra past
    rw [List.drop_eq_nil_of_le (by omega)] at shape
    simp at shape
  simp only [List.length_append, List.length_take, size]
  omega

/--
A declaration is read from the segment of its anchor.

The reader looks for the closing parenthesis in all of the text, scanned anew
from the opening one. It reads the same glyphs again, because nothing is open
behind a parenthesis that is code, and it discards a partner outside the region.
-/
theorem read?_of
    {anchor : Anchor}
    {glyphs : List Glyph}
    (start : Nat)
    (scanned : Scanned glyphs) :
    Declaration.read? anchor start glyphs =
      (of anchor start glyphs).read?.map fun found => (found.1, anchor.length + found.2) := by
  obtain ⟨after, tailShape⟩ :
      ∃ after, glyphs.drop anchor.length = (of anchor start glyphs).region ++ after :=
    ⟨_, (List.take_append_drop _ _).symm⟩
  have tailScanned : Scanned (glyphs.drop anchor.length) :=
    scanned.drop anchor.length
  simp only [Declaration.read?, read?, Option.bind_eq_bind]
  rw [show (glyphs.drop anchor.length).take
      (Anchor.distance (Glyph.code (glyphs.take anchor.length)).getLast?
        (Glyph.code (glyphs.drop anchor.length))) = (of anchor start glyphs).region by rfl]
  cases read : Name.read? (Glyph.chars (of anchor start glyphs).region) with
  | none =>
      rfl
  | some reading =>
      simp only [Option.bind_some]
      cases found :
          (Glyph.code ((of anchor start glyphs).region.drop
            (reading.skipped + reading.spelling.length))).findIdx? (· == '(') with
      | none =>
          rfl
      | some index =>
          obtain ⟨front, back, shape, size⟩ := region_split found
          have behindTail :
              (glyphs.drop anchor.length).drop (front.length + 1) = back ++ after := by
            rw [tailShape, shape]
            simp
          have behindRegion :
              (of anchor start glyphs).region.drop (front.length + 1) = back := by
            rw [shape]
            simp
          have partner :=
            closingParen?_region (by simpa [tailShape, shape] using tailScanned)
          simp only [Option.bind_some, ← size, behindTail, behindRegion]
          cases matched : closingParen? 0 (scan (Glyph.chars (back ++ after))) with
          | none =>
              rw [matched] at partner
              rw [← partner]
              rfl
          | some length =>
              have regionLength :
                  (of anchor start glyphs).region.length = front.length + 1 + back.length := by
                rw [shape, List.length_append, List.length_cons]
                omega
              rw [matched, Option.filter_some] at partner
              by_cases within : length < back.length
              · rw [if_pos (by simpa using within)] at partner
                rw [← partner]
                have reaches :
                    ¬ (of anchor start glyphs).region.length ≤ front.length + 1 + length := by
                  omega
                simp only [Option.bind_some, reaches, decide_false, Bool.or_false]
                split
                · rfl
                · have bodyWithin :=
                    endingLength_le (some ')')
                      (Glyph.code
                        ((of anchor start glyphs).region.drop (front.length + 1 + length + 1)))
                  rw [Glyph.length_code, List.length_drop] at bodyWithin
                  have parameters :
                      (Glyph.chars (back ++ after)).take length =
                        Glyph.chars (back.take length) := by
                    simp [Glyph.chars, List.take_append_of_le_length, Nat.le_of_lt within]
                  simp only [Option.map_some, declare, behindRegion]
                  rw [offsetOf_of anchor start glyphs (by omega),
                    offsetOf_of anchor start glyphs (by omega),
                    offsetOf_of anchor start glyphs (by omega),
                    offsetOf_of anchor start glyphs (by omega), Nat.add_sub_cancel_left, parameters]
                  rfl
              · -- A partner past the region: one reader rejects it, the other never sees it.
                rw [if_neg (by simpa using within)] at partner
                rw [← partner]
                have beyond :
                    (of anchor start glyphs).region.length ≤ front.length + 1 + length := by
                  omega
                simp [beyond]

/-- The pieces of a region that holds a declaration, without its two parentheses. -/
structure Parts where
  blanks : List Glyph
  name : List Glyph
  gap : List Glyph
  inside : List Glyph
  body : List Glyph
  rest : List Glyph

namespace Parts

/-- The pieces put together. -/
def glyphs (parts : Parts) : List Glyph :=
  parts.blanks ++ (parts.name ++ (parts.gap ++ ⟨'(', .code⟩ ::
    (parts.inside ++ ⟨')', .code⟩ :: (parts.body ++ parts.rest))))

/-- The declaration that the pieces make behind an anchor. -/
def declaration (parts : Parts) (segment : Segment) : Declaration :=
  let nameStart := segment.regionStart + Glyph.byteLength parts.blanks
  let opening := nameStart + Glyph.byteLength parts.name + Glyph.byteLength parts.gap
  let closing := opening + 1 + Glyph.byteLength parts.inside
  {
    spelling := Glyph.chars parts.name
    name := Name.normalize (Glyph.chars parts.name)
    kind := segment.kind
    parameters := Glyph.chars parts.inside
    start := segment.start
    stop := closing + 1 + Glyph.byteLength parts.body
    nameStart := nameStart
    paramsOpen := opening
    paramsClose := closing
  }

end Parts

/-- A name that is read stands in the text behind blanks. -/
theorem nameRead?_eq_some
    {text : Text}
    {reading : Name.Reading}
    (found : Name.read? text = some reading) :
    ∃ blanks rest,
      text = blanks ++ (reading.spelling ++ rest) ∧
        blanks.length = reading.skipped ∧ reading.spelling ≠ [] := by
  simp only [Name.read?, Option.ite_none_left_eq_some, Option.some.injEq] at found
  obtain ⟨nonempty, rfl⟩ := found
  refine ⟨text.takeWhile isBlank, (Text.trimStart text).drop (Name.length (Text.trimStart text)),
    ?_, rfl, ?_⟩
  · rw [List.take_append_drop]
    exact List.takeWhile_append_dropWhile.symm
  · simpa [List.isEmpty_iff] using nonempty

/-- A list of characters that is split splits its glyphs. -/
private theorem exists_glyphs_append
    {glyphs : List Glyph}
    {first second : Text}
    (shape : Glyph.chars glyphs = first ++ second) :
    ∃ front back,
      glyphs = front ++ back ∧ Glyph.chars front = first ∧ Glyph.chars back = second :=
  List.map_eq_append_iff.mp shape

private theorem offsetOf_length
    {segment : Segment}
    {front back : List Glyph}
    {count : Nat}
    (shape : segment.region = front ++ back)
    (size : front.length = count) :
    segment.offsetOf count = segment.regionStart + Glyph.byteLength front := by
  rw [offsetOf, shape, List.take_left' size]

/-- The pieces fit what has been read of a region. -/
structure Parts.Fit
    (parts : Parts)
    (region : List Glyph)
    (reading : Name.Reading)
    (index length : Nat) : Prop where
  whole : region = parts.glyphs
  blanks : parts.blanks.length = reading.skipped
  spelling : Glyph.chars parts.name = reading.spelling
  gap : parts.gap.length = index
  inside : parts.inside.length = length
  body : parts.body.length = endingLength (some ')') (Glyph.code (parts.body ++ parts.rest))

/-- A name, a parenthesis behind it and its partner take a region apart. -/
theorem exists_fit
    {region : List Glyph}
    {reading : Name.Reading}
    {index length : Nat}
    (named : Name.read? (Glyph.chars region) = some reading)
    (opened :
      (Glyph.code (region.drop (reading.skipped + reading.spelling.length))).findIdx? (· == '(') =
        some index)
    (closed :
      closingParen? 0
          (region.drop (reading.skipped + reading.spelling.length + index + 1)) =
        some length) :
    ∃ parts : Parts, parts.Fit region reading index length := by
  obtain ⟨blankChars, restChars, nameShape, blankCount, -⟩ := nameRead?_eq_some named
  obtain ⟨blanks, behindBlanks, rfl, rfl, behindShape⟩ := exists_glyphs_append nameShape
  obtain ⟨name, behindName, rfl, nameChars, -⟩ := exists_glyphs_append behindShape
  rw [Glyph.length_chars] at blankCount
  have nameLength : name.length = reading.spelling.length := by
    rw [← nameChars, Glyph.length_chars]
  have nameEnd :
      (blanks ++ (name ++ behindName)).drop (reading.skipped + reading.spelling.length) =
        behindName := by
    rw [← blankCount, ← nameLength, ← List.append_assoc]
    exact List.drop_left' (by simp)
  rw [nameEnd] at opened
  rw [Nat.add_assoc _ index 1, ← List.drop_drop, nameEnd] at closed
  obtain ⟨gap, behindOpening, rfl, gapLength⟩ :=
    Glyph.findIdx?_code_eq_some (by decide) opened
  have openingEnd :
      (gap ++ ⟨'(', .code⟩ :: behindOpening).drop (index + 1) = behindOpening := by
    rw [← gapLength, List.append_cons]
    exact List.drop_left' (by simp)
  rw [openingEnd] at closed
  obtain ⟨inside, behindClosing, rfl, insideLength⟩ := closingParen?_eq_some closed
  have bodyWithin := endingLength_le (some ')') (Glyph.code behindClosing)
  rw [Glyph.length_code] at bodyWithin
  refine
    ⟨⟨blanks, name, gap, inside,
        behindClosing.take (endingLength (some ')') (Glyph.code behindClosing)),
        behindClosing.drop (endingLength (some ')') (Glyph.code behindClosing))⟩,
      ?_, blankCount, nameChars, gapLength, insideLength, ?_⟩
  · rw [Parts.glyphs, List.take_append_drop]
  · rw [List.take_append_drop, List.length_take]
    exact Nat.min_eq_left bodyWithin

/-- The declaration of a segment, from pieces that fit its region. -/
theorem Parts.Fit.declare_eq
    {parts : Parts}
    {segment : Segment}
    {reading : Name.Reading}
    {index length : Nat}
    (fit : parts.Fit segment.region reading index length) :
    segment.declare reading (reading.skipped + reading.spelling.length + index) length =
      (parts.declaration segment,
        reading.skipped + reading.spelling.length + index + 1 + length + 1 +
          parts.body.length) := by
  have nameLength : parts.name.length = reading.spelling.length := by
    rw [← fit.spelling, Glyph.length_chars]
  have blanks := fit.blanks
  have gap := fit.gap
  have inside := fit.inside
  have whole := fit.whole
  simp only [Parts.glyphs] at whole
  have nameStart : segment.offsetOf reading.skipped = _ :=
    offsetOf_length whole blanks
  have opening :
      segment.offsetOf (reading.skipped + reading.spelling.length + index) =
        segment.regionStart + Glyph.byteLength (parts.blanks ++ (parts.name ++ parts.gap)) :=
    offsetOf_length (by simpa using whole) (by simp; omega)
  have closing :
      segment.offsetOf (reading.skipped + reading.spelling.length + index + 1 + length) =
        segment.regionStart +
          Glyph.byteLength
            (parts.blanks ++ (parts.name ++ (parts.gap ++ ⟨'(', .code⟩ :: parts.inside))) :=
    offsetOf_length (by simpa using whole) (by simp; omega)
  have stop :
      segment.offsetOf
          (reading.skipped + reading.spelling.length + index + 1 + length + 1 +
            parts.body.length) =
        segment.regionStart +
          Glyph.byteLength
            (parts.blanks ++ (parts.name ++ (parts.gap ++ ⟨'(', .code⟩ ::
              (parts.inside ++ ⟨')', .code⟩ :: parts.body)))) :=
    offsetOf_length (by simpa using whole) (by simp; omega)
  have behindOpening :
      segment.region.drop (reading.skipped + reading.spelling.length + index + 1) =
        parts.inside ++ ⟨')', .code⟩ :: (parts.body ++ parts.rest) := by
    have shape :
        segment.region =
          parts.blanks ++ (parts.name ++ (parts.gap ++ [⟨'(', .code⟩])) ++
            (parts.inside ++ ⟨')', .code⟩ :: (parts.body ++ parts.rest)) := by
      simpa using whole
    rw [shape]
    exact List.drop_left' (by simp; omega)
  have behindClosing :
      segment.region.drop
          (reading.skipped + reading.spelling.length + index + 1 + length + 1) =
        parts.body ++ parts.rest := by
    rw [Nat.add_assoc _ length 1, ← List.drop_drop, behindOpening, List.append_cons]
    exact List.drop_left' (by simp; omega)
  have openingSize : Char.utf8Size '(' = 1 := by decide
  have closingSize : Char.utf8Size ')' = 1 := by decide
  simp only [Glyph.byteLength_append, Glyph.byteLength_cons, openingSize, closingSize]
    at opening closing stop
  simp only [declare, Parts.declaration, behindClosing, ← fit.body, behindOpening,
    List.take_left' inside, fit.spelling, nameStart, opening, closing, stop, Prod.mk.injEq,
    Declaration.mk.injEq, true_and, and_true]
  omega

/-- A segment that declares something is made of pieces that fit what is read of it. -/
theorem exists_fit_of_read?
    {segment : Segment}
    {declaration : Declaration}
    {count : Nat}
    (found : segment.read? = some (declaration, count)) :
    ∃ (parts : Parts) (reading : Name.Reading) (index length : Nat),
      Name.read? (Glyph.chars segment.region) = some reading ∧
        parts.Fit segment.region reading index length ∧
          declaration = parts.declaration segment ∧ declaration.name ≠ [] ∧
            count =
              reading.skipped + reading.spelling.length + index + 1 + length + 1 +
                parts.body.length := by
  simp only [read?, Option.bind_eq_bind, Option.bind_eq_some_iff, Option.ite_none_left_eq_some,
    Option.some.injEq] at found
  obtain ⟨reading, named, index, opened, length, closed, nonempty, declared⟩ := found
  obtain ⟨parts, fit⟩ := exists_fit named opened closed
  rw [fit.declare_eq, Prod.mk.injEq] at declared
  obtain ⟨rfl, rfl⟩ := declared
  refine ⟨parts, reading, index, length, named, fit, rfl, ?_, rfl⟩
  rw [Parts.declaration, fit.spelling]
  simpa [List.isEmpty_iff] using nonempty

/-- The pieces of a segment that declares something. -/
theorem exists_parts
    {segment : Segment}
    {declaration : Declaration}
    {count : Nat}
    (found : segment.read? = some (declaration, count)) :
    ∃ parts : Parts,
      segment.region = parts.glyphs ∧
        declaration = parts.declaration segment ∧
          declaration.name ≠ [] ∧ count ≤ segment.region.length := by
  obtain ⟨parts, reading, index, length, -, fit, isDeclaration, named, rfl⟩ :=
    exists_fit_of_read? found
  refine ⟨parts, fit.whole, isDeclaration, named, ?_⟩
  have nameLength : parts.name.length = reading.spelling.length := by
    rw [← fit.spelling, Glyph.length_chars]
  have regionLength := congrArg List.length fit.whole
  simp only [Parts.glyphs, List.length_append, List.length_cons, fit.blanks, nameLength, fit.gap,
    fit.inside] at regionLength
  omega

end Segment

end RoutineServer
