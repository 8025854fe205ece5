import RoutineServer.Proofs.Routine.Mask

namespace RoutineServer

/-!
# Sites of anchors

The anchors that a search through the mask finds one after the other, each with
the end of its region, where the next one starts. They are the segments of the
document, told by byte offsets alone.
-/

/-- An anchor in a masked text, by the byte offsets of its words. -/
structure Anchor.Match where
  kind : RoutineKind
  start : Nat
  stop : Nat
  deriving Repr, DecidableEq

namespace Anchor

/--
The anchors from a place of a masked text on, leftmost first and without overlap.

The arguments are the byte offset of the place, the character in front of it,
the number of characters that belong to an anchor already found, and the text
from the place on.
-/
def matchesFrom : Nat → Option Char → Nat → Text → List Match
  | _, _, _, [] => []
  | offset, _, skip + 1, char :: rest =>
      matchesFrom (offset + char.utf8Size) (some char) skip rest
  | offset, previous, 0, char :: rest =>
      match at? previous (char :: rest) with
      | none => matchesFrom (offset + char.utf8Size) (some char) 0 rest
      | some anchor =>
          ⟨anchor.kind, offset, offset + Text.offsetOfIndex anchor.length (char :: rest)⟩ ::
            matchesFrom (offset + char.utf8Size) (some char) (anchor.length - 1) rest

/-- The anchors of a masked text. -/
def allMatches (code : Text) : List Match :=
  matchesFrom 0 none 0 code

theorem matchesFrom_skip
    {previous : Option Char}
    {skip : Nat}
    {code : Text}
    (offset : Nat)
    (clear : Clear previous skip code) :
    matchesFrom offset previous skip code = matchesFrom offset previous 0 code := by
  induction code generalizing offset previous skip with
  | nil =>
      simp [matchesFrom]
  | cons char rest inductionHypothesis =>
      cases skip with
      | zero =>
          rfl
      | succ less =>
          have nothing : at? previous (char :: rest) = none := clear.1
          rw [matchesFrom, matchesFrom, nothing]
          exact inductionHypothesis _ clear.2

end Anchor

namespace Segment

/-- The anchor of a segment, by its byte offsets. -/
def anchor (segment : Segment) : Anchor.Match :=
  ⟨segment.kind, segment.start, segment.regionStart⟩

/-- The anchors of a text that is all code are those of its segments. -/
theorem matchesFrom_eq_segments
    (offset : Nat)
    (previous : Option Char)
    (code : Text) :
    Anchor.matchesFrom offset previous 0 code =
      (segmentsFrom offset previous (Glyph.plain code)).map anchor := by
  induction code generalizing offset previous with
  | nil =>
      rfl
  | cons char rest inductionHypothesis =>
      have later := inductionHypothesis (offset + char.utf8Size) (some char)
      have plainRest : Glyph.plain (char :: rest) = ⟨char, .code⟩ :: Glyph.plain rest := rfl
      have shown : Glyph.shown ⟨char, .code⟩ = char := rfl
      have same : Glyph.code (⟨char, .code⟩ :: Glyph.plain rest) = char :: rest := by
        rw [← plainRest, Glyph.code_plain]
      rw [Anchor.matchesFrom, plainRest, segmentsFrom, same, shown]
      cases found : Anchor.at? previous (char :: rest) with
      | none =>
          exact later
      | some words =>
          have clear : Anchor.Clear (some char) (words.length - 1) rest :=
            (Anchor.clear_of_at?_eq_some found).mono (Nat.le_add_right _ _)
          have regionStart :
              (of words offset (⟨char, .code⟩ :: Glyph.plain rest)).regionStart =
                offset + Text.offsetOfIndex words.length (char :: rest) := by
            have wordsShape :
                (⟨char, .code⟩ :: Glyph.plain rest).take words.length =
                  Glyph.plain ((char :: rest).take words.length) := by
              rw [← plainRest, Glyph.plain, Glyph.plain, List.map_take]
            simp only [Segment.regionStart, of, wordsShape, Glyph.byteLength_plain]
            rfl
          simp only [List.map_cons, anchor, regionStart]
          rw [Anchor.matchesFrom_skip _ clear, later]
          rfl

/-- The anchors of the mask are those of the document's segments. -/
theorem allMatches_maskedText
    (text : Text) :
    Anchor.allMatches (maskedText text) = (segments text).map anchor := by
  have alike := segments_alike text
  rw [Anchor.allMatches, matchesFrom_eq_segments]
  symm
  apply map_eq_of_alike alike
  intro left right same
  rw [anchor, anchor, same.kind_eq, same.start_eq, same.regionStart_eq]

end Segment

/-- An anchor of a document and the end of its region, by their byte offsets. -/
structure Site extends Anchor.Match where
  /-- Where the next anchor starts, or the document ends. -/
  limit : Nat
  deriving Repr, DecidableEq

namespace Site

/-- Each anchor with the start of the next one, the last one with the given place. -/
def ofMatches (total : Nat) : List Anchor.Match → List Site
  | [] => []
  | anchor :: later =>
      ⟨anchor, (later.head?.map Anchor.Match.start).getD total⟩ :: ofMatches total later

/-- The sites of a document's anchors. -/
def sites (text : Text) : List Site :=
  ofMatches (Text.byteLength text) (Anchor.allMatches (maskedText text))

/-- The site of a segment. -/
def ofSegment (segment : Segment) : Site :=
  ⟨segment.anchor, segment.limit⟩

/-- The sites of segments that follow one another without a gap. -/
theorem ofMatches_eq
    {total : Nat}
    {segments : List Segment}
    (chained : Segment.Chained total segments) :
    ofMatches total (segments.map Segment.anchor) = segments.map ofSegment := by
  induction segments with
  | nil =>
      rfl
  | cons segment later inductionHypothesis =>
      obtain ⟨meets, laterChained⟩ := chained
      have next :
          ((later.map Segment.anchor).head?.map Anchor.Match.start).getD total =
            segment.limit := by
        rw [List.head?_map, Option.map_map, meets]
        rfl
      rw [List.map_cons, ofMatches, next, inductionHypothesis laterChained]
      rfl

/-- The sites of a document are those of its segments. -/
theorem sites_eq_segments
    (text : Text) :
    sites text = (Segment.segments text).map ofSegment := by
  have chained := Segment.chained_segmentsFrom 0 none (scan text)
  rw [Nat.zero_add, Glyph.byteLength_scan] at chained
  rw [sites, Segment.allMatches_maskedText]
  exact ofMatches_eq chained

end Site

end RoutineServer
