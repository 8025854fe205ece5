import RoutineServer.Proofs.Lexical.Enclosure
import RoutineServer.Proofs.Routine.Site
import RoutineServer.Proofs.Routine.Stretch

namespace RoutineServer

/-!
# Anchors yield declarations independently

What an anchor yields can be told from its site, and even from the text between
the anchor and the next one, taken for a document of its own. The search for
declarations gives just that for each anchor, so an anchor without a declaration
changes nothing about the others.
-/

/-- The first byte offset in a span where a character stands. -/
def Text.find? (char : Char) (span : Span) (text : Text) : Option Nat :=
  let part := Text.slice span text
  (part.findIdx? (· == char)).map fun index => span.start + Text.offsetOfIndex index part

namespace Site

/-- The text between an anchor and the next one. -/
def region (text : Text) (site : Site) : Text :=
  Text.slice ⟨site.stop, site.limit⟩ text

/-- The byte offset of a name in the region. -/
def nameStart (text : Text) (site : Site) (reading : Name.Reading) : Nat :=
  site.stop + Text.offsetOfIndex reading.skipped (site.region text)

/-- The parenthesis that the mask shows first behind a name. -/
def opening? (text : Text) (site : Site) (reading : Name.Reading) : Option Nat :=
  Text.find? '(' ⟨site.nameStart text reading + Text.byteLength reading.spelling, site.limit⟩
    (maskedText text)

/-- What a parenthesis encloses, if it is closed in the region. -/
def enclosed? (text : Text) (site : Site) (opening : Nat) : Option Enclosed :=
  (enclosedAt? text opening).filter fun enclosed => enclosed.close < site.limit

/-- The declaration of an anchor, from its site in the text. -/
def declaration? (text : Text) (site : Site) : Option Declaration := do
  let reading ← Name.read? (site.region text)
  let opening ← site.opening? text reading
  let enclosed ← site.enclosed? text opening
  if (Name.normalize reading.spelling).isEmpty then none
  else
    let stop ← declarationEnd? text (enclosed.close + 1) site.limit
    some {
      spelling := reading.spelling
      name := Name.normalize reading.spelling
      kind := site.kind
      parameters := enclosed.content
      start := site.start
      stop := stop
      nameStart := site.nameStart text reading
      paramsOpen := opening
      paramsClose := enclosed.close
    }

/--
An anchor declares something: a name with a normal form stands in its region, the
mask shows a parenthesis behind the name, and that one is closed in the region.
-/
def Declares (text : Text) (site : Site) : Prop :=
  ∃ reading opening enclosed,
    Name.read? (site.region text) = some reading ∧
      Name.normalize reading.spelling ≠ [] ∧
        site.opening? text reading = some opening ∧
          enclosedAt? text opening = some enclosed ∧ enclosed.close < site.limit

/-- A closing parenthesis is a character of its own. -/
theorem isBoundary_behind_close
    {text : Text}
    {opening : Nat}
    {enclosed : Enclosed}
    (closed : enclosedAt? text opening = some enclosed) :
    Text.isBoundary (enclosed.close + 1) text = true := by
  have opened : Text.charAt? opening text = some '(' := by
    by_contra other
    rw [enclosedAt?, if_neg (by simpa using other)] at closed
    cases closed
  obtain ⟨front, inside, whole, place⟩ := Text.exists_of_charAt? opened
  obtain ⟨content, rest, parted, rfl⟩ := (enclosedAt?_eq_some_iff whole place).mp closed
  obtain ⟨through, parts, size⟩ := exists_through_opening whole place
  have closingSize : ')'.utf8Size = 1 := rfl
  refine Text.isBoundary_iff.mpr
    ⟨through ++ (Glyph.chars content ++ [')']), Glyph.chars rest, ?_, ?_⟩
  · rw [parts, parted.inside_eq]
    simp
  · simp only [Text.byteLength_append, Text.byteLength_cons, Text.byteLength_nil, closingSize,
      size, Glyph.byteLength]
    omega

/-- Between boundaries, a declaration has an end. -/
theorem isSome_declarationEnd?
    {text : Text}
    {start limit : Nat}
    (starts : Text.isBoundary start text = true)
    (stops : Text.isBoundary limit text = true) :
    (declarationEnd? text start limit).isSome = true := by
  have within : min limit (Text.byteLength text) = limit := by
    obtain ⟨front, back, rfl, rfl⟩ := Text.isBoundary_iff.mp stops
    rw [Text.byteLength_append, Nat.min_eq_left (Nat.le_add_right _ _)]
  simp only [declarationEnd?, within, isBoundary_maskedText starts, isBoundary_maskedText stops,
    Bool.true_or, Bool.and_true, ↓reduceIte]
  split
  case isTrue => rfl
  case isFalse => rfl

theorem isSome_declaration?_iff
    {text : Text}
    {site : Site}
    (stops : Text.isBoundary site.limit text = true) :
    (site.declaration? text).isSome = true ↔ site.Declares text := by
  rw [Option.isSome_iff_exists]
  constructor
  · rintro ⟨declaration, declares⟩
    simp only [declaration?, Option.bind_eq_bind, Option.bind_eq_some_iff, enclosed?,
      Option.filter_eq_some_iff, decide_eq_true_eq, Option.ite_none_left_eq_some,
      List.isEmpty_iff] at declares
    obtain ⟨reading, named, opening, opened, enclosed, ⟨closed, within⟩, normal, -⟩ := declares
    exact ⟨reading, opening, enclosed, named, normal, opened, closed, within⟩
  · rintro ⟨reading, opening, enclosed, named, normal, opened, closed, within⟩
    obtain ⟨stop, ends⟩ :=
      Option.isSome_iff_exists.mp (isSome_declarationEnd? (isBoundary_behind_close closed) stops)
    simp [declaration?, named, opened, enclosed?, closed, Option.filter_some, within, normal, ends]

end Site

namespace Glyph

/-- The first visible character of the byte mask stands where the mask of the glyphs has it. -/
theorem find_masked
    {char : Char}
    (visible : char ≠ ' ' ∧ char ≠ '\n')
    (glyphs : List Glyph) :
    ((glyphs.flatMap masked).findIdx? (· == char)).map
        (fun index => Text.offsetOfIndex index (glyphs.flatMap masked)) =
      ((code glyphs).findIdx? (· == char)).map fun index => byteLength (glyphs.take index) := by
  induction glyphs with
  | nil =>
      rfl
  | cons glyph rest inductionHypothesis =>
      rw [List.flatMap_cons, code_cons, List.findIdx?_append, List.findIdx?_cons]
      by_cases here : glyph.shown = char
      · obtain rfl := eq_of_shown here visible
        simp [masked, isCode, shown, Text.offsetOfIndex]
      · have absent : glyph.masked.findIdx? (· == char) = none := by
          rw [List.findIdx?_eq_none_iff]
          intro other member
          rw [eq_shown_of_mem_masked member]
          simpa using here
        have notHere : (glyph.shown == char) = false := by simpa using here
        -- Behind the glyph, both sides count its bytes and then the rest.
        have bytes :
            (fun index =>
                Text.offsetOfIndex (index + glyph.masked.length)
                  (glyph.masked ++ rest.flatMap masked)) =
              (fun count => glyph.char.utf8Size + count) ∘
                fun index => Text.offsetOfIndex index (rest.flatMap masked) := by
          funext index
          simp only [Text.offsetOfIndex, Function.comp_apply]
          rw [Nat.add_comm, List.take_length_add_append, Text.byteLength_append, byteLength_masked]
        have glyphBytes :
            (fun index => byteLength ((glyph :: rest).take (index + 1))) =
              (fun count => glyph.char.utf8Size + count) ∘
                fun index => byteLength (rest.take index) := by
          funext index
          rfl
        simp only [absent, Option.none_or, notHere, Bool.false_eq_true, ↓reduceIte, Option.map_map,
          Function.comp_def] at bytes glyphBytes ⊢
        rw [bytes, glyphBytes, ← Function.comp_def, ← Function.comp_def, ← Option.map_map,
          ← Option.map_map, inductionHypothesis]

/-- A cut lies in the first piece if it has fewer bytes in front than the piece has. -/
theorem byteLength_take_append_lt_iff
    {first second : List Glyph}
    {count : Nat} :
    byteLength ((first ++ second).take count) < byteLength first ↔ count < first.length := by
  induction first generalizing count with
  | nil =>
      simp
  | cons glyph rest inductionHypothesis =>
      have size := Char.utf8Size_pos glyph.char
      cases count with
      | zero =>
          simp only [List.take_zero, byteLength_nil, byteLength_cons, List.length_cons]
          omega
      | succ less =>
          simp only [List.cons_append, List.take_succ_cons, byteLength_cons, List.length_cons,
            Nat.add_lt_add_iff_left, Nat.add_lt_add_iff_right]
          exact inductionHypothesis

end Glyph

namespace Segment

/-- The end of the region, from a place in it. -/
theorem limit_eq
    (segment : Segment)
    (place : Nat) :
    segment.limit = segment.offsetOf place + Glyph.byteLength (segment.region.drop place) := by
  rw [offsetOf, Nat.add_assoc, ← Glyph.byteLength_append, List.take_append_drop, limit]

theorem offsetOf_add
    (segment : Segment)
    (place more : Nat) :
    segment.offsetOf (place + more) =
      segment.offsetOf place + Glyph.byteLength ((segment.region.drop place).take more) := by
  rw [offsetOf, offsetOf, Nat.add_assoc, ← Glyph.byteLength_append, ← List.take_add]

theorem limit_eq_offsetOf
    (segment : Segment) :
    segment.limit = segment.offsetOf segment.region.length := by
  simp [limit, offsetOf]

namespace Stands

variable {text : Text} {segment : Segment} {front back : List Glyph}

/-- A place in the region splits the document. -/
theorem split
    (stands : Stands text segment front back)
    (place : Nat) :
    scan text =
      (front ++ (segment.words ++ segment.region.take place)) ++
        (segment.region.drop place ++ back) := by
  have region := List.take_append_drop place segment.region
  calc
    scan text
        = front ++ (segment.words ++
            ((segment.region.take place ++ segment.region.drop place) ++ back)) := by
          rw [region, stands.whole]
    _ = _ := by simp only [List.append_assoc]

theorem offsetOf_eq
    (stands : Stands text segment front back)
    (place : Nat) :
    segment.offsetOf place =
      Glyph.byteLength (front ++ (segment.words ++ segment.region.take place)) := by
  rw [offsetOf, regionStart, stands.start_eq]
  simp [Nat.add_assoc]

/-- A place in the region, counted in characters of the document. -/
theorem index_offsetOf
    (stands : Stands text segment front back)
    (place : Nat) :
    Text.index (segment.offsetOf place) text =
      (front ++ (segment.words ++ segment.region.take place)).length := by
  have characters := congrArg Glyph.chars (stands.split place)
  rw [Glyph.chars_scan, Glyph.chars_append] at characters
  rw [Text.index_eq characters (stands.offsetOf_eq place), Glyph.length_chars]

/-- Places in the region lie between two characters. -/
theorem isBoundary_offsetOf
    (stands : Stands text segment front back)
    (place : Nat) :
    Text.isBoundary (segment.offsetOf place) text = true := by
  have characters := congrArg Glyph.chars (stands.split place)
  rw [Glyph.chars_scan, Glyph.chars_append] at characters
  exact Text.isBoundary_iff.mpr ⟨_, _, characters, (stands.offsetOf_eq place).symm⟩

theorem isBoundary_limit
    (stands : Stands text segment front back) :
    Text.isBoundary segment.limit text = true := by
  rw [limit_eq_offsetOf]
  exact stands.isBoundary_offsetOf _

theorem index_limit
    (stands : Stands text segment front back) :
    Text.index segment.limit text = (front ++ (segment.words ++ segment.region)).length := by
  rw [limit_eq_offsetOf, stands.index_offsetOf, List.take_length]

/-- The text from a place in the region to its end. -/
theorem slice_text
    (stands : Stands text segment front back)
    (place : Nat) :
    Text.slice ⟨segment.offsetOf place, segment.limit⟩ text =
      Glyph.chars (segment.region.drop place) := by
  have whole := congrArg Glyph.chars (stands.split place)
  rw [Glyph.chars_scan, Glyph.chars_append, Glyph.chars_append _ back] at whole
  exact Text.slice_eq whole (stands.offsetOf_eq place) (segment.limit_eq place)

/-- The mask from a place in the region to its end. -/
theorem slice_mask
    (stands : Stands text segment front back)
    (place : Nat) :
    Text.slice ⟨segment.offsetOf place, segment.limit⟩ (maskedText text) =
      (segment.region.drop place).flatMap Glyph.masked := by
  have whole :
      maskedText text =
        (front ++ (segment.words ++ segment.region.take place)).flatMap Glyph.masked ++
          ((segment.region.drop place).flatMap Glyph.masked ++ back.flatMap Glyph.masked) := by
    rw [maskedText, stands.split place]
    simp only [List.flatMap_append]
  refine Text.slice_eq whole ?_ ?_
  · rw [stands.offsetOf_eq place, Glyph.byteLength_flatMap_masked]
  · rw [segment.limit_eq place, Glyph.byteLength_flatMap_masked]

theorem region_eq
    (stands : Stands text segment front back) :
    (Site.ofSegment segment).region text = Glyph.chars segment.region := by
  have start : segment.regionStart = segment.offsetOf 0 := by
    simp [offsetOf]
  have slice := stands.slice_text 0
  rw [← start] at slice
  exact slice

theorem nameStart_eq
    (stands : Stands text segment front back)
    (reading : Name.Reading) :
    (Site.ofSegment segment).nameStart text reading = segment.offsetOf reading.skipped := by
  rw [Site.nameStart, stands.region_eq, offsetOf, Glyph.byteLength, Glyph.chars, Glyph.chars,
    List.map_take]
  rfl

theorem opening?_eq
    {reading : Name.Reading}
    (stands : Stands text segment front back)
    (named : Name.read? (Glyph.chars segment.region) = some reading) :
    (Site.ofSegment segment).opening? text reading =
      ((Glyph.code (segment.region.drop (reading.skipped + reading.spelling.length))).findIdx?
          (· == '(')).map
        fun index => segment.offsetOf (reading.skipped + reading.spelling.length + index) := by
  obtain ⟨blanks, rest, shape, blankCount, -⟩ := nameRead?_eq_some named
  have nameStop :
      segment.offsetOf reading.skipped + Text.byteLength reading.spelling =
        segment.offsetOf (reading.skipped + reading.spelling.length) := by
    have taken :
        Glyph.chars (segment.region.take (reading.skipped + reading.spelling.length)) =
          Glyph.chars (segment.region.take reading.skipped) ++ reading.spelling := by
      simp only [Glyph.chars, List.map_take] at shape ⊢
      rw [shape, ← blankCount, List.take_left, ← List.append_assoc]
      exact List.take_left' (by simp)
    rw [offsetOf, offsetOf, Glyph.byteLength, Glyph.byteLength, taken, Text.byteLength_append,
      Nat.add_assoc]
  have limit : (Site.ofSegment segment).limit = segment.limit := rfl
  rw [Site.opening?, stands.nameStart_eq, nameStop, Text.find?, limit, stands.slice_mask]
  have found :=
    Glyph.find_masked (by decide : '(' ≠ ' ' ∧ '(' ≠ '\n')
      (segment.region.drop (reading.skipped + reading.spelling.length))
  have shifted :=
    congrArg
      (Option.map (segment.offsetOf (reading.skipped + reading.spelling.length) + ·)) found
  simp only [Option.map_map, Function.comp_def, ← offsetOf_add] at shifted
  exact shifted

/-- The partner of a parenthesis is found at the same place, or not in the region. -/
theorem enclosed?_eq
    {gap inner : List Glyph}
    (stands : Stands text segment front back)
    (shape : segment.region = gap ++ ⟨'(', .code⟩ :: inner) :
    (Site.ofSegment segment).enclosed? text (segment.offsetOf gap.length) =
      (closingParen? 0 inner).map fun length =>
        ⟨Glyph.chars (inner.take length), segment.offsetOf (gap.length + 1 + length)⟩ := by
  have opening := stands.offsetOf_eq gap.length
  rw [shape, List.take_left] at opening
  have whole :
      scan text = (front ++ (segment.words ++ gap)) ++ ⟨'(', .code⟩ :: (inner ++ back) := by
    rw [stands.whole, shape]
    simp
  have partner : (closingParen? 0 (scan (Glyph.chars (inner ++ back)))).filter _ = _ :=
    closingParen?_region (whole ▸ Scanned.scan text)
  have characters := congrArg Glyph.chars whole
  rw [Glyph.chars_scan, Glyph.chars_append, Glyph.chars_cons] at characters
  have opens : Text.charAt? (segment.offsetOf gap.length) text = some '(' :=
    Text.charAt?_eq characters opening
  have behind :
      Text.after (segment.offsetOf gap.length + 1) text = Glyph.chars (inner ++ back) := by
    have place :
        segment.offsetOf gap.length + 1 =
          Text.byteLength (Glyph.chars (front ++ (segment.words ++ gap)) ++ ['(']) := by
      rw [opening, Text.byteLength_append]
      rfl
    exact Text.after_eq (characters.trans (List.append_cons _ _ _)) place
  have behindOpening :
      segment.region.drop gap.length = ⟨'(', .code⟩ :: inner := by
    rw [shape, List.drop_left]
  have openingSize : Char.utf8Size '(' = 1 := by decide
  have limit := segment.limit_eq gap.length
  rw [behindOpening, Glyph.byteLength_cons, openingSize, ← Nat.add_assoc] at limit
  have close
      (length : Nat) :
      segment.offsetOf (gap.length + 1 + length) =
        segment.offsetOf gap.length + 1 + Glyph.byteLength (inner.take length) := by
    rw [Nat.add_assoc gap.length, segment.offsetOf_add, behindOpening, Nat.add_comm 1 length,
      List.take_succ_cons, Glyph.byteLength_cons, openingSize, Nat.add_assoc]
  have siteLimit : (Site.ofSegment segment).limit = segment.limit := rfl
  rw [Site.enclosed?, enclosedAt?, opens, behind, siteLimit, limit, ← partner]
  simp only [beq_self_eq_true, ↓reduceIte]
  cases closingParen? 0 (scan (Glyph.chars (inner ++ back))) with
  | none =>
      rfl
  | some length =>
      have content :
          (Glyph.chars (inner ++ back)).take length =
            Glyph.chars ((inner ++ back).take length) := by
        rw [Glyph.chars, Glyph.chars, List.map_take]
      have closes :
          segment.offsetOf gap.length + 1 +
                Text.byteLength (Glyph.chars ((inner ++ back).take length)) <
              segment.offsetOf gap.length + 1 + Glyph.byteLength inner ↔
            length < inner.length := by
        rw [Nat.add_lt_add_iff_left]
        exact Glyph.byteLength_take_append_lt_iff
      simp only [Option.map_some, Option.filter_some, content, closes]
      by_cases within : length < inner.length
      · rw [if_pos (by simpa using within), if_pos (by simpa using within), Option.map_some, close,
          List.take_append_of_le_length (Nat.le_of_lt within)]
        rfl
      · rw [if_neg (by simpa using within), if_neg (by simpa using within)]
        rfl

theorem declarationEnd?_eq
    {inner rest : List Glyph}
    (stands : Stands text segment front back)
    (shape : segment.region = inner ++ ⟨')', .code⟩ :: rest) :
    declarationEnd? text (segment.offsetOf inner.length + 1) segment.limit =
      some (segment.offsetOf
        (inner.length + 1 + endingLength (some ')') (Glyph.code rest))) := by
  have closingSize : Char.utf8Size ')' = 1 := by decide
  have behindClosing : segment.region.drop (inner.length + 1) = rest := by
    rw [shape, List.append_cons]
    exact List.drop_left' (by simp)
  have start : segment.offsetOf inner.length + 1 = segment.offsetOf (inner.length + 1) := by
    rw [segment.offsetOf_add, shape, List.drop_left]
    simp [closingSize]
  have limit := segment.limit_eq (inner.length + 1)
  rw [behindClosing] at limit
  have stop
      (count : Nat) :
      segment.offsetOf (inner.length + 1 + count) =
        segment.offsetOf (inner.length + 1) + Glyph.byteLength (rest.take count) := by
    rw [segment.offsetOf_add, behindClosing]
  rw [declarationEnd?, Nat.min_eq_left stands.limit_le, start, stop]
  have within :
      segment.offsetOf (inner.length + 1) +
          Glyph.byteLength (rest.take (endingLength (some ')') (Glyph.code rest))) ≤
        segment.limit := by
    have parts := congrArg Glyph.byteLength
      (List.take_append_drop (endingLength (some ')') (Glyph.code rest)) rest)
    rw [Glyph.byteLength_append] at parts
    omega
  by_cases reached : segment.limit ≤ segment.offsetOf (inner.length + 1)
  · -- Nothing is left behind the parenthesis.
    simp only [if_pos reached, Option.some.injEq]
    omega
  · obtain ⟨leading, leadingShape⟩ :
        ∃ leading, leading = front ++ (segment.words ++ (inner ++ [⟨')', .code⟩])) := ⟨_, rfl⟩
    have startIndex := stands.index_offsetOf (inner.length + 1)
    have taken : segment.region.take (inner.length + 1) = inner ++ [⟨')', .code⟩] := by
      rw [shape, List.append_cons]
      exact List.take_left' (by simp)
    rw [taken, ← leadingShape] at startIndex
    have upToLimit : front ++ (segment.words ++ segment.region) = leading ++ rest := by
      rw [shape, leadingShape]
      simp
    have limitIndex := stands.index_limit
    rw [upToLimit] at limitIndex
    have region : (scan text).take (leading ++ rest).length = leading ++ rest := by
      rw [stands.whole, ← upToLimit, ← List.append_assoc, ← List.append_assoc,
        ← List.append_assoc]
      exact List.take_left
    have closing : (Glyph.code leading).getLast? = some ')' := by
      rw [leadingShape]
      simp [Glyph.shown, Glyph.isCode]
    have leadingSize : Glyph.byteLength leading = segment.offsetOf (inner.length + 1) := by
      rw [stands.offsetOf_eq, taken, ← leadingShape]
    simp only [if_neg reached, limitIndex, startIndex, region, List.take_left, List.drop_left,
      closing, isBoundary_maskedText stands.isBoundary_limit,
      isBoundary_maskedText (stands.isBoundary_offsetOf _), Bool.true_or, Bool.and_true,
      ↓reduceIte, List.take_length_add_append, Glyph.byteLength_append, leadingSize,
      Nat.min_eq_right within]

/-- What an anchor yields at its site is what its segment declares. -/
theorem declaration?_eq
    (stands : Stands text segment front back) :
    (Site.ofSegment segment).declaration? text = segment.declaration? := by
  simp only [Site.declaration?, declaration?, read?, Option.bind_eq_bind, stands.region_eq]
  cases named : Name.read? (Glyph.chars segment.region) with
  | none =>
      rfl
  | some reading =>
      simp only [Option.bind_some, stands.opening?_eq named]
      cases opened :
          (Glyph.code (segment.region.drop
            (reading.skipped + reading.spelling.length))).findIdx? (· == '(') with
      | none =>
          rfl
      | some index =>
          obtain ⟨gap, inner, shape, gapLength⟩ := region_split opened
          have behindOpening : segment.region.drop (gap.length + 1) = inner := by
            rw [shape, List.append_cons]
            exact List.drop_left' (by simp)
          simp only [Option.map_some, Option.bind_some, ← gapLength, stands.enclosed?_eq shape,
            behindOpening]
          cases closed : closingParen? 0 inner with
          | none =>
              rfl
          | some length =>
              obtain ⟨inside, rest, innerShape, insideLength⟩ := closingParen?_eq_some closed
              have regionShape :
                  segment.region = (gap ++ ⟨'(', .code⟩ :: inside) ++ ⟨')', .code⟩ :: rest := by
                rw [shape, innerShape]
                simp
              have closing :
                  (gap ++ ⟨'(', .code⟩ :: inside).length = gap.length + 1 + length := by
                simp only [List.length_append, List.length_cons, insideLength]
                omega
              have stop := stands.declarationEnd?_eq regionShape
              rw [closing] at stop
              have behindClosing : segment.region.drop (gap.length + 1 + length + 1) = rest := by
                rw [regionShape, List.append_cons]
                exact List.drop_left' (by rw [List.length_append, closing]; rfl)
              simp only [Option.map_some, Option.bind_some]
              by_cases unnamed : (Name.normalize reading.spelling).isEmpty = true
              · rw [if_pos unnamed, if_pos unnamed]
                rfl
              · rw [if_neg unnamed, if_neg unnamed]
                have limit : (Site.ofSegment segment).limit = segment.limit := rfl
                simp only [Option.map_some, declare, behindClosing, behindOpening, limit, stop,
                  stands.nameStart_eq]
                rfl

theorem slice_segment
    (stands : Stands text segment front back) :
    Text.slice ⟨segment.start, segment.limit⟩ text =
      Glyph.chars (segment.words ++ segment.region) := by
  have whole :
      text =
        Glyph.chars front ++
          (Glyph.chars (segment.words ++ segment.region) ++ Glyph.chars back) := by
    rw [← Glyph.chars_scan text, stands.whole]
    simp
  refine Text.slice_eq whole stands.start_eq ?_
  rw [limit, regionStart, Nat.add_assoc, ← Glyph.byteLength_append]
  rfl

end Stands

end Segment

namespace Declaration

/--
The declarations of a document are those that its anchors yield, each read at its
own site, or from the text between it and the next anchor alone.
-/
theorem parse_eq_sites
    (text : Text) :
    parse text = (Site.sites text).filterMap (Site.declaration? text) ∧
      ∀ site ∈ Site.sites text,
        ((site.declaration? text).isSome = true ↔ site.Declares text) ∧
          (site.declaration? text).toList =
            (parse (Text.slice ⟨site.start, site.limit⟩ text)).map (shift site.start) := by
  have yields :
      ∀ segment ∈ Segment.segments text,
        (Site.ofSegment segment).declaration? text = segment.declaration? := by
    intro segment member
    obtain ⟨front, back, stands⟩ := Segment.exists_stands member
    exact stands.declaration?_eq
  rw [Site.sites_eq_segments]
  constructor
  · rw [parse_eq_segments, List.filterMap_map]
    exact List.filterMap_congr fun segment member => (yields segment member).symm
  · intro site member
    obtain ⟨segment, segmentMember, rfl⟩ := List.mem_map.mp member
    obtain ⟨front, back, stands⟩ := Segment.exists_stands segmentMember
    refine ⟨Site.isSome_declaration?_iff stands.isBoundary_limit, ?_⟩
    have stretch :
        Text.slice ⟨(Site.ofSegment segment).start, (Site.ofSegment segment).limit⟩ text =
          Glyph.chars (segment.words ++ segment.region) :=
      stands.slice_segment
    have moved :
        segment.declaration? =
          ({ segment with start := 0 } : Segment).declaration?.map (shift segment.start) :=
      Segment.declaration?_shift segment.start { segment with start := 0 }
    rw [yields segment segmentMember, stretch, parse_eq_segments,
      Segment.segments_alone segmentMember, moved, List.filterMap_cons, List.filterMap_nil]
    cases ({ segment with start := 0 } : Segment).declaration? with
    | none => rfl
    | some declaration => rfl

/-- An anchor without a name, one with an open parameter list, and one between them
that declares. -/
def malformed : Text :=
  "create function (x);\ncreate function f(a) begin end;\ncreate procedure p(b".toList

theorem parse_eq_sites_malformed :
    (Site.sites malformed).map (fun site => (site.start, site.stop, site.limit)) =
        [(0, 15, 21), (21, 36, 53), (53, 69, 73)] ∧
      parse malformed = (Site.sites malformed).filterMap (Site.declaration? malformed) ∧
        ∃ site ∈ Site.sites malformed,
          site.start = 21 ∧
            ((site.declaration? malformed).isSome = true ↔ site.Declares malformed) ∧
              (site.declaration? malformed).toList =
                (parse (Text.slice ⟨site.start, site.limit⟩ malformed)).map
                  (shift site.start) := by
  obtain ⟨together, each⟩ := parse_eq_sites malformed
  obtain ⟨site, member, start⟩ : ∃ site ∈ Site.sites malformed, site.start = 21 := by
    decide +kernel
  exact ⟨by decide +kernel, together, site, member, start, each site member⟩

end Declaration

end RoutineServer
