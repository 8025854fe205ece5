import RoutineServer.Proofs.Routine.Division
import RoutineServer.Proofs.Routine.Seam

namespace RoutineServer

/-!
# Segments of documents put together

In front of a seam the segments of a document are those of its front alone, and
behind it those of its back alone, moved by the size of the front. What a
segment declares moves with it.
-/

/-- The same declaration in a document with more bytes in front. -/
def Declaration.shift (count : Nat) (declaration : Declaration) : Declaration :=
  { declaration with
    start := count + declaration.start
    stop := count + declaration.stop
    nameStart := count + declaration.nameStart
    paramsOpen := count + declaration.paramsOpen
    paramsClose := count + declaration.paramsClose }

namespace Segment

/-- The same segment in a document with more bytes in front. -/
def shift (count : Nat) (segment : Segment) : Segment :=
  { segment with start := count + segment.start }

theorem offsetOf_shift
    (count : Nat)
    (segment : Segment)
    (place : Nat) :
    (segment.shift count).offsetOf place = count + segment.offsetOf place := by
  simp [offsetOf, regionStart, shift, Nat.add_assoc]

/-- What a segment declares moves with the segment. -/
theorem declaration?_shift
    (count : Nat)
    (segment : Segment) :
    (segment.shift count).declaration? =
      segment.declaration?.map (Declaration.shift count) := by
  have declared
      (reading : Name.Reading)
      (opening length : Nat) :
      ((segment.shift count).declare reading opening length).1 =
        (segment.declare reading opening length).1.shift count := by
    simp only [declare, Declaration.shift, offsetOf_shift]
    rfl
  simp only [declaration?, read?, Option.bind_eq_bind, Option.map_bind, Function.comp_def,
    apply_ite (Option.map _), Option.map_none, Option.map_some, declared]
  rfl

theorem segmentsFrom_shift
    (count offset : Nat)
    (previous : Option Char)
    (glyphs : List Glyph) :
    segmentsFrom (count + offset) previous glyphs =
      (segmentsFrom offset previous glyphs).map (shift count) := by
  induction glyphs generalizing offset previous with
  | nil =>
      rfl
  | cons glyph rest inductionHypothesis =>
      have later := inductionHypothesis (offset + glyph.char.utf8Size) (some glyph.shown)
      rw [← Nat.add_assoc] at later
      rw [segmentsFrom, segmentsFrom]
      cases Anchor.at? previous (Glyph.code (glyph :: rest)) with
      | none =>
          exact later
      | some anchor =>
          rw [List.map_cons, ← later]
          rfl

/-- Of the character in front, it only matters whether a word can start behind it. -/
theorem segmentsFrom_congr
    {previous other : Option Char}
    (offset : Nat)
    (sameStart : Text.wordStart previous = Text.wordStart other)
    (glyphs : List Glyph) :
    segmentsFrom offset previous glyphs = segmentsFrom offset other glyphs := by
  cases glyphs with
  | nil =>
      rfl
  | cons glyph rest =>
      rw [segmentsFrom, segmentsFrom, Anchor.at?_eq_rest?, Anchor.at?_eq_rest?, sameStart]

/-- In front of a seam, a segment is that of the front alone. -/
theorem of_append
    {previous : Option Char}
    {front back : List Glyph}
    {anchor : Anchor}
    (start : Nat)
    (seam : Anchor.Seam (Glyph.code front) (Glyph.code back))
    (anchored :
      (Anchor.at? (Text.previousAfter previous (Glyph.code front)) (Glyph.code back)).isSome = true)
    (found : Anchor.at? previous (Glyph.code front) = some anchor) :
    of anchor start (front ++ back) = of anchor start front := by
  obtain ⟨-, first, inner, following, codeShape, length, -⟩ := Anchor.at?_eq_some found
  have within : anchor.length ≤ front.length := by
    rw [← Glyph.length_code, codeShape, List.length_cons, List.length_append]
    omega
  obtain ⟨words, tail, rfl, wordsLength⟩ :
      ∃ words tail, front = words ++ tail ∧ words.length = anchor.length :=
    ⟨front.take anchor.length, front.drop anchor.length, (List.take_append_drop _ _).symm,
      by rw [List.length_take]; omega⟩
  have tailSeam : Anchor.Seam (Glyph.code tail) (Glyph.code back) := by
    rw [Glyph.code_append] at seam
    exact seam.of_append
  have lastWord : Text.previousAfter previous (Glyph.code words) = (Glyph.code words).getLast? := by
    cases words with
    | nil => simp [length] at wordsLength
    | cons glyph more => simp [Text.previousAfter, List.getLast?_cons]
  have distance :
      Anchor.distance (Glyph.code words).getLast? (Glyph.code (tail ++ back)) =
        Anchor.distance (Glyph.code words).getLast? (Glyph.code tail) := by
    rw [Glyph.code_append, Text.previousAfter_append, lastWord] at anchored
    rw [Glyph.code_append]
    exact tailSeam.distance_append _ anchored
  have distanceWithin :
      Anchor.distance (Glyph.code words).getLast? (Glyph.code tail) ≤ tail.length := by
    rw [← Glyph.length_code tail]
    exact Anchor.distance_le_length _ _
  simp only [of, List.append_assoc, List.take_left' wordsLength, List.drop_left' wordsLength,
    distance, List.take_append_of_le_length distanceWithin]

/-- The segments of two documents put together at a seam. -/
theorem segmentsFrom_append
    {previous : Option Char}
    {front back : List Glyph}
    (offset : Nat)
    (seam : Anchor.Seam (Glyph.code front) (Glyph.code back))
    (anchored :
      (Anchor.at? (Text.previousAfter previous (Glyph.code front)) (Glyph.code back)).isSome =
        true) :
    segmentsFrom offset previous (front ++ back) =
      segmentsFrom offset previous front ++
        segmentsFrom (offset + Glyph.byteLength front)
          (Text.previousAfter previous (Glyph.code front)) back := by
  induction front generalizing offset previous with
  | nil =>
      simp [segmentsFrom]
  | cons glyph rest inductionHypothesis =>
      have anchoredBehind :
          (Anchor.at? (Text.previousAfter (some glyph.shown) (Glyph.code rest))
            (Glyph.code back)).isSome = true := by
        simpa using anchored
      have later := inductionHypothesis (offset + glyph.char.utf8Size) seam.tail anchoredBehind
      have same := seam.at?_append (by simp) previous
      rw [← Glyph.code_append] at same
      rw [List.cons_append] at same ⊢
      rw [segmentsFrom, segmentsFrom, same, later]
      cases found : Anchor.at? previous (Glyph.code (glyph :: rest)) with
      | none =>
          simp [Nat.add_assoc]
      | some anchor =>
          have first := of_append offset seam anchored found
          rw [List.cons_append] at first
          simp [first, Nat.add_assoc]

/-- The back of a seam starts with a letter that is code. -/
theorem exists_letter
    {front back : List Glyph}
    (seam : Anchor.Seam (Glyph.code front) (Glyph.code back)) :
    ∃ letter more, back = ⟨letter, .code⟩ :: more ∧ letter.isAlpha = true := by
  obtain ⟨letter, rest, shape, alpha⟩ := seam.exists_letter
  have visible : letter ≠ ' ' ∧ letter ≠ '\n' :=
    ⟨ne_of_holds alpha (by decide), ne_of_holds alpha (by decide)⟩
  cases back with
  | nil =>
      cases shape
  | cons glyph more =>
      rw [Glyph.code_cons, List.cons.injEq] at shape
      exact ⟨letter, more, by rw [Glyph.eq_of_shown shape.1 visible], alpha⟩

/-- Glyphs between the starts of two anchors are scanned the same way on their own. -/
theorem scan_chars
    {front back : List Glyph}
    (scanned : Scanned (front ++ back))
    (opens : Anchor.Seam (Glyph.code []) (Glyph.code (front ++ back)))
    (closes : back = [] ∨ Anchor.Seam (Glyph.code front) (Glyph.code back)) :
    scan (Glyph.chars front) = front := by
  obtain ⟨first, more, shape, -⟩ := exists_letter opens
  have again : front ++ back = scan (Glyph.chars (front ++ back)) := by
    rw [shape] at scanned ⊢
    exact scanned.of_code rfl
  rcases closes with rfl | seam
  · rw [List.append_nil] at again
    exact again.symm
  · obtain ⟨letter, behind, rfl, alpha⟩ := exists_letter seam
    rw [Glyph.chars_append, Glyph.chars_cons] at again
    exact scan_front again.symm (by simp)
      ⟨ne_of_holds alpha (by decide), ne_of_holds alpha (by decide)⟩

/-- The text of a segment, taken for a document of its own, is one segment. -/
theorem segments_alone
    {text : Text}
    {segment : Segment}
    (member : segment ∈ segments text) :
    segments (Glyph.chars (segment.words ++ segment.region)) = [{ segment with start := 0 }] := by
  obtain ⟨front, tail, anchor, whole, start, found, isSegment⟩ := exists_anchor_of_mem member
  have tailScanned : Scanned tail := by
    have dropped := (Scanned.scan text).drop front.length
    rwa [whole, List.drop_left] at dropped
  have foundAlone : Anchor.at? none (Glyph.code tail) = some anchor := by
    obtain ⟨wordStart, -⟩ := Anchor.at?_eq_some found
    rw [Anchor.at?_eq_rest?, wordStart] at found
    rw [Anchor.at?_eq_rest?]
    exact found
  have isAlone : of anchor 0 tail = { segment with start := 0 } := by
    rw [← isSegment]
    rfl
  obtain ⟨back, next, shape, -, divided, nextShape, stops⟩ :=
    segmentsFrom_eq_cons 0 foundAlone isAlone
  rw [← List.append_assoc] at shape
  have opens : Anchor.Seam (Glyph.code []) (Glyph.code tail) :=
    .of_isSome rfl (Option.isSome_iff_exists.mpr ⟨anchor, foundAlone⟩)
  have closes :
      back = [] ∨
        Anchor.Seam (Glyph.code (segment.words ++ segment.region)) (Glyph.code back) := by
    refine stops.imp_right fun anchored => ?_
    obtain ⟨following, nextFound⟩ := Option.isSome_iff_exists.mp anchored
    obtain ⟨wordStart, -⟩ := Anchor.at?_eq_some nextFound
    rw [nextShape, Text.previousAfter_none] at wordStart
    exact .of_isSome wordStart anchored
  rw [shape] at tailScanned opens divided
  rw [segments, scan_chars tailScanned opens closes]
  rcases closes with rfl | seam
  · rw [List.append_nil] at divided
    exact divided
  · have anchored := stops.resolve_left (by rintro rfl; exact absurd seam.starts (by simp))
    rw [nextShape] at anchored
    have apart := segmentsFrom_append 0 seam anchored
    rw [divided, ← nextShape] at apart
    have limit :
        limit { segment with start := 0 } =
          0 + Glyph.byteLength (segment.words ++ segment.region) := by
      simp [limit, regionStart]
    rw [limit, ← List.singleton_append] at apart
    exact (List.append_cancel_right apart).symm

/-- The text of a segment, taken for a document of its own, has the same glyphs. -/
theorem scan_alone
    {text : Text}
    {segment : Segment}
    (member : segment ∈ segments text) :
    scan (Glyph.chars (segment.words ++ segment.region)) = segment.words ++ segment.region := by
  have onlyOne : { segment with start := 0 } ∈
      segments (Glyph.chars (segment.words ++ segment.region)) := by
    rw [segments_alone member]
    exact List.mem_singleton_self _
  obtain ⟨front, back, stands⟩ := exists_stands onlyOne
  have whole := stands.whole
  have size := congrArg List.length whole
  rw [scan, length_scanFrom, Glyph.length_chars] at size
  simp only [List.length_append] at size
  obtain rfl : front = [] := List.eq_nil_of_length_eq_zero (by omega)
  obtain rfl : back = [] := List.eq_nil_of_length_eq_zero (by omega)
  simpa using whole

/-- The words of an anchor end with a letter that is code. -/
theorem exists_last_word
    {text : Text}
    {segment : Segment}
    (member : segment ∈ segments text) :
    ∃ init last, segment.words = init ++ [last] ∧ last.isCode = true := by
  obtain ⟨front, tail, anchor, -, -, found, isSegment⟩ := exists_anchor_of_mem member
  have words : segment.words = tail.take anchor.length := by
    rw [← isSegment]
    rfl
  have inWord := Anchor.wordStart_take_length found
  rw [← Glyph.code_take, ← words, Glyph.code, List.getLast?_map] at inWord
  cases isLast : segment.words.getLast? with
  | none =>
      rw [isLast] at inWord
      cases inWord
  | some last =>
      obtain ⟨init, shape⟩ := List.getLast?_eq_some_iff.mp isLast
      refine ⟨init, last, shape, ?_⟩
      rw [isLast, Option.map_some] at inWord
      have visible : last.shown ≠ ' ' ∧ last.shown ≠ '\n' := by
        constructor
        · intro blank
          rw [blank] at inWord
          exact absurd inWord (by decide)
        · intro newline
          rw [newline] at inWord
          exact absurd inWord (by decide)
      rw [Glyph.eq_of_shown rfl visible]
      rfl

/-- The region of a segment is scanned like a document of its own. -/
theorem scan_region
    {text : Text}
    {segment : Segment}
    (member : segment ∈ segments text) :
    scan (Glyph.chars segment.region) = segment.region := by
  obtain ⟨init, last, words, code⟩ := exists_last_word member
  have scanned : Scanned (init ++ last :: segment.region) := by
    have alone := scan_alone member
    rw [words, List.append_assoc, List.singleton_append] at alone
    exact ⟨.code, _, alone.symm⟩
  exact (scanned.after_code code).symm

end Segment

end RoutineServer
