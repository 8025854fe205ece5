import RoutineServer.Proofs.Routine.Mask
import RoutineServer.Proofs.Routine.Stretch

namespace RoutineServer

/-!
# Parsing is local

A text that ends outside strings and comments, at the end of a line, and a text
that starts with an anchor can be parsed apart. Whatever the first one leaves
open, a body, a parameter list or a name, is given up at its end.
-/

/-- A newline is read without a look at what follows it. -/
theorem ScanState.step_newline
    (state : ScanState)
    (next : Option Char) :
    state.step '\n' next = state.step '\n' none := by
  cases state with
  | code => rfl
  | inString => rfl
  | inIdentifier => rfl
  | inLineComment => rfl
  | openingBlockComment => rfl
  | inBlockComment afterStar => rfl

/-- Whole lines that leave nothing open are scanned apart from what follows. -/
theorem scan_append
    {first : Text}
    (lines : first = [] ∨ first.getLast? = some '\n')
    (closed : scanEnd .code first = .code)
    (second : Text) :
    scan (first ++ second) = scan first ++ scan second := by
  have scans := scanFrom_append .code first second
  rw [closed] at scans
  apply scans
  intro last isLast before
  rcases lines with rfl | newline
  · cases isLast
  · rw [newline, Option.some.injEq] at isLast
    subst last
    exact before.step_newline _

/-- The mask shows the newline at the end of a text. -/
theorem getLast?_code_scan
    {text : Text}
    (newline : text.getLast? = some '\n') :
    (Glyph.code (scan text)).getLast? = some '\n' := by
  have chars : (Glyph.chars (scan text)).getLast? = some '\n' := by
    rw [Glyph.chars_scan]
    exact newline
  rw [Glyph.chars, List.getLast?_map, Option.map_eq_some_iff] at chars
  obtain ⟨glyph, isLast, char⟩ := chars
  rw [Glyph.code, List.getLast?_map, isLast, Option.map_some, Glyph.shown, char]
  simp

namespace Declaration

/-- Two texts that are scanned apart and meet at a seam are parsed apart. -/
theorem parse_append_of_seam
    {first second : Text}
    (scans : scan (first ++ second) = scan first ++ scan second)
    (seam : Anchor.Seam (Glyph.code (scan first)) (Glyph.code (scan second)))
    (anchored : (Anchor.at? none (Glyph.code (scan second))).isSome = true) :
    parse (first ++ second) =
      parse first ++ (parse second).map (shift (Text.byteLength first)) := by
  have wordStart :
      Text.wordStart (Text.previousAfter none (Glyph.code (scan first))) = Text.wordStart none := by
    rw [Text.previousAfter_none, seam.closed]
    rfl
  have anchoredBehind :
      (Anchor.at? (Text.previousAfter none (Glyph.code (scan first)))
        (Glyph.code (scan second))).isSome = true := by
    rw [Anchor.at?_eq_rest?, wordStart, ← Anchor.at?_eq_rest?]
    exact anchored
  have divided :
      Segment.segments (first ++ second) =
        Segment.segments first ++
          (Segment.segments second).map (Segment.shift (Text.byteLength first)) := by
    rw [Segment.segments, scans, Segment.segmentsFrom_append 0 seam anchoredBehind,
      Segment.segmentsFrom_congr _ wordStart, Glyph.byteLength_scan, Nat.zero_add,
      ← Nat.add_zero (Text.byteLength first), Segment.segmentsFrom_shift]
    rfl
  simp only [parse_eq_segments, divided, List.filterMap_append, List.filterMap_map,
    List.map_filterMap]
  congr 2
  funext segment
  exact segment.declaration?_shift _

/-- Parsing is local. -/
theorem parse_append
    {first second : Text}
    (lines : first = [] ∨ first.getLast? = some '\n')
    (closed : scanEnd .code first = .code)
    (anchored : Anchor.startsAt (maskedText second) 0 = true) :
    parse (first ++ second) =
      parse first ++ (parse second).map (shift (Text.byteLength first)) := by
  have anchoredSecond : (Anchor.at? none (Glyph.code (scan second))).isSome = true :=
    (Segment.isSome_at?_iff 0 none [] (scan second)).mpr
      (Segment.startsAt_maskedText_iff.mp anchored)
  have wordStart : Text.wordStart (Glyph.code (scan first)).getLast? = true := by
    rcases lines with rfl | newline
    · rfl
    · rw [getLast?_code_scan newline]
      decide
  exact parse_append_of_seam (scan_append lines closed second)
    (Anchor.Seam.of_isSome wordStart anchoredSecond) anchoredSecond

/-- A body without an end and a parameter list that is not closed. -/
def leftOpen : Text :=
  "create function f(é int) begin x := ')';\ncreate procedure p(a\n".toList

/-- A declaration that would close both. -/
def following : Text :=
  "Create Procedure q) (b) end;".toList

theorem parse_append_leftOpen :
    (leftOpen = [] ∨ leftOpen.getLast? = some '\n') ∧
      scanEnd .code leftOpen = .code ∧
        Anchor.startsAt (maskedText following) 0 = true ∧
          (parse leftOpen).length = 1 ∧
            (parse following).length = 1 ∧
              parse (leftOpen ++ following) =
                parse leftOpen ++ (parse following).map (shift (Text.byteLength leftOpen)) := by
  have lines : leftOpen = [] ∨ leftOpen.getLast? = some '\n' := .inr (by decide +kernel)
  have closed : scanEnd .code leftOpen = .code := by decide +kernel
  have anchored : Anchor.startsAt (maskedText following) 0 = true := by decide +kernel
  exact ⟨lines, closed, anchored, by decide +kernel, by decide +kernel,
    parse_append lines closed anchored⟩

end Declaration

end RoutineServer
