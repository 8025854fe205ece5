import RoutineServer.Lexical.Mask
import RoutineServer.Proofs.Routine.Alignment
import RoutineServer.Proofs.Text.Offset

namespace RoutineServer

/-!
# Anchors in the mask

The mask of a document blanks every hidden byte, where the search for anchors
blanks every hidden character. The two views are aligned, so the anchors of the
mask are the starts of the document's segments.
-/

namespace Glyph

/-- The characters of a text, all of them code. -/
def plain (text : Text) : List Glyph :=
  text.map fun char => ⟨char, .code⟩

@[simp] theorem plain_append
    (first second : Text) :
    plain (first ++ second) = plain first ++ plain second := by
  simp [plain]

@[simp] theorem code_plain
    (text : Text) :
    code (plain text) = text := by
  simp [code, plain, Function.comp_def, shown, isCode]

@[simp] theorem byteLength_plain
    (text : Text) :
    byteLength (plain text) = Text.byteLength text := by
  simp [byteLength, chars, plain, Function.comp_def]

/-- The mask of a glyph repeats one character. -/
theorem eq_shown_of_mem_masked
    {glyph : Glyph}
    {char : Char}
    (member : char ∈ glyph.masked) :
    char = glyph.shown := by
  simp only [masked] at member
  simp only [shown]
  split at member
  case isTrue visible =>
    rw [if_pos visible]
    exact List.mem_singleton.mp member
  case isFalse hidden =>
    rw [if_neg hidden]
    exact List.eq_of_mem_replicate member

end Glyph

/-- All glyphs that the mask shows as a blank or a newline. -/
def blankVeil : Veil where
  hides glyph := glyph.shown = ' ' ∨ glyph.shown = '\n'
  shown_of_hides hidden := hidden

/-- The byte mask is aligned with the scan it is made from. -/
theorem aligned_masked
    (glyphs : List Glyph) :
    Aligned blankVeil glyphs (Glyph.plain (glyphs.flatMap Glyph.masked)) := by
  induction glyphs with
  | nil =>
      exact .nil
  | cons glyph rest inductionHypothesis =>
      rw [List.flatMap_cons, Glyph.plain_append]
      by_cases visible : glyph.isCode = true
      · have shape : Glyph.plain glyph.masked = [glyph] := by
          rcases glyph with ⟨char, mode⟩
          simp only [Glyph.isCode, beq_iff_eq] at visible
          simp [Glyph.masked, Glyph.isCode, visible, Glyph.plain]
        rw [shape]
        exact .same glyph inductionHypothesis
      · -- A newline stands for itself, any other hidden character for a blank a byte.
        have blank := Glyph.shown_of_isCode_eq_false (Bool.eq_false_iff.mpr visible)
        have size := glyph.byteLength_masked
        have glyphRun : glyph :: rest = [glyph] ++ rest := rfl
        rw [glyphRun]
        refine .hidden (by simp) ?_ ?_ ?_ ?_ inductionHypothesis
        · intro empty
          rw [Glyph.plain, List.map_eq_nil_iff] at empty
          rw [empty, Text.byteLength_nil] at size
          exact absurd size.symm (Nat.ne_of_gt (Char.utf8Size_pos glyph.char))
        · intro hidden member
          rw [List.mem_singleton.mp member]
          exact blank
        · intro hidden member
          obtain ⟨char, charMember, rfl⟩ := List.mem_map.mp member
          rw [Glyph.eq_shown_of_mem_masked charMember]
          exact blank
        · simp [size]

/-- Whether an anchor stands at a byte offset of a masked text. -/
def Anchor.startsAt (code : Text) (offset : Nat) : Bool :=
  Text.isBoundary offset code &&
    (Anchor.at? (Text.before offset code).getLast? (Text.after offset code)).isSome

namespace Segment

/-- An anchor stands behind some glyphs exactly if a segment starts there. -/
theorem isSome_at?_iff
    (offset : Nat)
    (previous : Option Char)
    (front back : List Glyph) :
    (Anchor.at? (Text.previousAfter previous (Glyph.code front)) (Glyph.code back)).isSome = true ↔
      ∃ segment ∈ segmentsFrom offset previous (front ++ back),
        segment.start = offset + Glyph.byteLength front := by
  induction front generalizing offset previous with
  | nil =>
      rw [Glyph.code_nil, Text.previousAfter_nil, Glyph.byteLength_nil, Nat.add_zero,
        List.nil_append]
      constructor
      · intro anchored
        obtain ⟨anchor, found⟩ := Option.isSome_iff_exists.mp anchored
        obtain ⟨_, _, _, _, divided, _⟩ := segmentsFrom_eq_cons offset found rfl
        refine ⟨of anchor offset back, ?_, rfl⟩
        rw [divided]
        exact List.mem_cons_self
      · rintro ⟨segment, member, start⟩
        cases back with
        | nil =>
            cases member
        | cons glyph rest =>
            -- The segments behind the first glyph start too late.
            by_contra nothing
            rw [Bool.not_eq_true, Option.isSome_eq_false_iff, Option.isNone_iff_eq_none] at nothing
            rw [segmentsFrom, nothing] at member
            have late := le_start_of_mem member
            have size := Char.utf8Size_pos glyph.char
            omega
  | cons glyph front inductionHypothesis =>
      have later := inductionHypothesis (offset + glyph.char.utf8Size) (some glyph.shown)
      have size := Char.utf8Size_pos glyph.char
      rw [Glyph.code_cons, Text.previousAfter_cons, later, Glyph.byteLength_cons, ← Nat.add_assoc]
      constructor
      · rintro ⟨segment, member, start⟩
        refine ⟨segment, ?_, start⟩
        rw [List.cons_append, segmentsFrom]
        split
        · exact member
        · exact List.mem_cons_of_mem _ member
      · rintro ⟨segment, member, start⟩
        refine ⟨segment, ?_, start⟩
        rw [List.cons_append, segmentsFrom] at member
        split at member
        · exact member
        · rcases List.mem_cons.mp member with isFirst | inLater
          · rw [isFirst] at start
            simp only [of] at start
            omega
          · exact inLater

/-- The segments of the mask, read as code, are like those of the document. -/
theorem segments_alike
    (text : Text) :
    List.Forall₂ (Alike blankVeil) (segments text)
      (segmentsFrom 0 none (Glyph.plain (maskedText text))) :=
  segmentsFrom_aligned 0 (aligned_masked (scan text)) rfl

/-- What segments that are alike have in common is the same in both lists. -/
theorem map_eq_of_alike
    {veil : Veil}
    {first second : List Segment}
    {view : Segment → α}
    (alike : List.Forall₂ (Alike veil) first second)
    (common : ∀ left right, Alike veil left right → view left = view right) :
    first.map view = second.map view := by
  induction alike with
  | nil =>
      rfl
  | cons heads _ inductionHypothesis =>
      rw [List.map_cons, List.map_cons, common _ _ heads, inductionHypothesis]

/-- Anchors stand in the mask where the segments of the document start. -/
theorem startsAt_maskedText_iff
    {text : Text}
    {offset : Nat} :
    Anchor.startsAt (maskedText text) offset = true ↔
      ∃ segment ∈ segments text, segment.start = offset := by
  have sameStarts :=
    map_eq_of_alike (segments_alike text) fun _ _ alike => alike.start_eq
  have plainStarts :
      (∃ segment ∈ segments text, segment.start = offset) ↔
        ∃ segment ∈ segmentsFrom 0 none (Glyph.plain (maskedText text)),
          segment.start = offset := by
    rw [← List.mem_map, ← List.mem_map, sameStarts]
  rw [plainStarts, Anchor.startsAt, Bool.and_eq_true]
  constructor
  · rintro ⟨boundary, anchored⟩
    obtain ⟨front, back, shape, rfl⟩ := Text.isBoundary_iff.mp boundary
    rw [Text.before_eq shape rfl, Text.after_eq shape rfl, ← Text.previousAfter_none] at anchored
    have found :=
      (isSome_at?_iff 0 none (Glyph.plain front) (Glyph.plain back)).mp
        (by simpa using anchored)
    simpa [shape] using found
  · rintro ⟨segment, member, rfl⟩
    obtain ⟨front, back, anchor, shape, start, found, -⟩ := exists_anchor_of_mem member
    obtain ⟨frontText, backText, whole, rfl, rfl⟩ := List.map_eq_append_iff.mp shape
    have place : segment.start = Text.byteLength frontText := by
      rw [start, Nat.zero_add]
      exact Glyph.byteLength_plain frontText
    rw [Text.before_eq whole place, Text.after_eq whole place, ← Text.previousAfter_none]
    refine ⟨Text.isBoundary_iff.mpr ⟨frontText, backText, whole, place.symm⟩, ?_⟩
    apply Option.isSome_iff_exists.mpr
    refine ⟨anchor, ?_⟩
    calc
      Anchor.at? (Text.previousAfter none frontText) backText
          = Anchor.at? (Text.previousAfter none (Glyph.code (Glyph.plain frontText)))
              (Glyph.code (Glyph.plain backText)) := by
            rw [Glyph.code_plain, Glyph.code_plain]
      _ = some anchor := found

end Segment

end RoutineServer
