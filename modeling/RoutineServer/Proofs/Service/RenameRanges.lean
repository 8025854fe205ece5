import RoutineServer.Proofs.Service.Editing
import RoutineServer.Proofs.Text.Bytes
import RoutineServer.Proofs.Text.Coordinates

namespace RoutineServer

/-!
# The ranges of a rename

An editor receives the occurrences of a name as lines and columns. They lead
back to the bytes that the search has found, whatever the widths of the
characters in front of them and the terminators of the lines. Applied to a
document, the edits replace these bytes and keep all others.

The same holds for any selection of the occurrences. Those that a rename inside
a routine selects are the ones on its lines.
-/

namespace Text

/-- The bytes from an offset on, with spans replaced that are given in order. -/
def spliceBytesFrom (bytes replacement : List UInt8) : Nat → List Span → List UInt8
  | offset, [] => bytes.drop offset
  | offset, span :: rest =>
      (bytes.take span.start).drop offset ++
        (replacement ++ spliceBytesFrom bytes replacement span.stop rest)

/-- Bytes with each of some spans, given in order, replaced. -/
def replaceBytes (bytes : List UInt8) (spans : List Span) (replacement : List UInt8) :
    List UInt8 :=
  spliceBytesFrom bytes replacement 0 spans

/-- Replacing spans between characters replaces their bytes. -/
theorem utf8_spliceFrom
    {text : Text}
    {offset : Nat}
    {spans : List Span}
    (replacement : Text)
    (begins : isBoundary offset text = true)
    (bounded : ∀ span ∈ spans, isBoundary span.start text = true ∧ isBoundary span.stop text = true)
    (ordered : inOrderFrom offset (spans.map (·, replacement)) = true) :
    utf8 (spliceFrom text offset (spans.map (·, replacement))) =
      spliceBytesFrom (utf8 text) (utf8 replacement) offset spans := by
  induction spans generalizing offset with
  | nil =>
      exact utf8_after begins
  | cons span rest inductionHypothesis =>
      obtain ⟨starts, stops⟩ := bounded span List.mem_cons_self
      simp only [List.map_cons, inOrderFrom, Bool.and_eq_true, decide_eq_true_eq] at ordered
      obtain ⟨⟨behind, -⟩, later⟩ := ordered
      have restReplaced :=
        inductionHypothesis stops
          (fun other member => bounded other (List.mem_cons_of_mem _ member)) later
      rw [List.map_cons, spliceFrom, utf8_append, utf8_append, utf8_slice begins starts behind,
        restReplaced, spliceBytesFrom]

/-- Replacing spans that stand apart between characters replaces their bytes. -/
theorem utf8_replaceSpans
    {text : Text}
    {spans : List Span}
    (separate : Separate spans)
    (bounded : ∀ span ∈ spans, isBoundary span.start text = true ∧ isBoundary span.stop text = true)
    (replacement : Text) :
    utf8 (replaceSpans text spans replacement) =
      replaceBytes (utf8 text) spans (utf8 replacement) :=
  utf8_spliceFrom replacement (isBoundary_iff.mpr ⟨[], text, rfl, rfl⟩) bounded
    (separate.inOrderFrom (fun _ _ => Nat.zero_le _) replacement)

theorem isBoundary_of_mem_wholeWords
    (nonempty : name ≠ [])
    (member : span ∈ wholeWords text name) :
    isBoundary span.start text = true ∧ isBoundary span.stop text = true :=
  (occursAt_of_mem_wholeWords nonempty member).isBoundary

/-- The offset where a line ends, in front of its terminator. -/
def lineStop (text : Text) (line : Nat) : Nat :=
  lineStart text line + byteLength (lineText text line)

section Lines

variable {text : Text} {line : Nat}

theorem lineSpan?_eq_some
    (within : line < lineCount text) :
    lineSpan? text line = some ⟨lineStart text line, lineStop text line⟩ := by
  obtain ⟨place, rfl, -⟩ := Place.exists_of_lt within
  rw [place.lineSpan?_eq, lineStop, place.lineStart_eq, place.lineText_eq]

theorem byteLength_dropReturn_le
    (line : Text) :
    byteLength (dropReturn line) ≤ byteLength line := by
  obtain ⟨returns, shape, -⟩ := exists_returns line
  have total := congrArg byteLength shape
  rw [byteLength_append] at total
  exact Nat.le.intro total.symm

/-- A line ends before the next one starts. -/
theorem lineStop_lt
    (within : line < lineCount text) :
    lineStop text line < lineStart text (line + 1) := by
  obtain ⟨place, rfl, -⟩ := Place.exists_of_lt within
  rw [lineStop, place.lineStart_eq, place.lineText_eq, place.lineStart_succ]
  exact Nat.add_lt_add_left (Nat.lt_succ_of_le (byteLength_dropReturn_le _)) _

theorem lineStop_mono
    {first second : Nat}
    (within : first < lineCount text)
    (ordered : first ≤ second) :
    lineStop text first ≤ lineStop text second := by
  rcases Nat.eq_or_lt_of_le ordered with rfl | later
  · exact Nat.le_refl _
  · calc
      lineStop text first ≤ lineStart text (first + 1) := Nat.le_of_lt (lineStop_lt within)
      _ ≤ lineStart text second := lineStart_mono later
      _ ≤ lineStop text second := Nat.le_add_right _ _

theorem le_lineStop_lineOf
    {front back : Text}
    (whole : text = front ++ back)
    (settles : settled front back) :
    byteLength front ≤ lineStop text (lineOf text (byteLength front)) := by
  obtain ⟨place, rfl, rfl⟩ := Place.exists_of_append whole
  obtain ⟨rest, shape⟩ := place.left_prefix settles
  rw [place.lineOf_eq, lineStop, place.lineStart_eq, place.lineText_eq, shape, Place.front,
    byteLength_append, byteLength_append]
  exact Nat.add_le_add_left (Nat.le_add_right _ _) _

end Lines

section OnLines

variable {text name : Text} {span : Span}

/-- An occurrence of a name without line breaks lies on one line. -/
theorem onLine_of_mem_wholeWords
    (nonempty : name ≠ [])
    (oneLine : '\r' ∉ name ∧ '\n' ∉ name)
    (member : span ∈ wholeWords text name) :
    lineOf text span.stop = lineOf text span.start ∧
      lineOf text span.start < lineCount text ∧
        lineStart text (lineOf text span.start) ≤ span.start ∧
          span.stop ≤ lineStop text (lineOf text span.start) := by
  obtain ⟨front, spelling, back, whole, spelled, rfl⟩ := exists_of_mem_wholeWords nonempty member
  have stops : settled (front ++ spelling) back := (spelled.settled nonempty oneLine).2
  have shape : text = (front ++ spelling) ++ back := by
    rw [whole, List.append_assoc]
  have single : spelling.count '\n' = 0 :=
    List.count_eq_zero.mpr (spelled.not_mem (by decide) (by decide) oneLine.2)
  have sameLine :
      lineOf text (byteLength (front ++ spelling)) = lineOf text (byteLength front) := by
    rw [lineOf_eq_count, lineOf_eq_count, before_eq shape rfl, before_eq whole rfl,
      List.count_append, single, Nat.add_zero]
  have ends := le_lineStop_lineOf shape stops
  rw [sameLine, byteLength_append] at ends
  rw [byteLength_append] at sameLine
  exact ⟨sameLine, lineOf_lt_lineCount whole rfl, lineStart_lineOf_le whole, ends⟩

/-- An occurrence lies between two lines if it lies on a line between them. -/
theorem within_lines_iff
    {first last : Nat}
    (nonempty : name ≠ [])
    (oneLine : '\r' ∉ name ∧ '\n' ∉ name)
    (member : span ∈ wholeWords text name)
    (lastExists : last < lineCount text) :
    span.within ⟨lineStart text first, lineStop text last⟩ = true ↔
      first ≤ lineOf text span.start ∧ lineOf text span.stop ≤ last := by
  obtain ⟨sameLine, lineExists, starts, stops⟩ :=
    onLine_of_mem_wholeWords nonempty oneLine member
  have filled := (separate_wholeWords nonempty).nonempty span member
  simp only [Span.within, Bool.and_eq_true, decide_eq_true_eq, sameLine]
  constructor
  · rintro ⟨behind, inFront⟩
    constructor
    · by_contra earlier
      have apart : lineStop text (lineOf text span.start) < lineStart text first :=
        Nat.lt_of_lt_of_le (lineStop_lt lineExists) (lineStart_mono (Nat.lt_of_not_le earlier))
      omega
    · by_contra later
      have apart : lineStop text last < lineStart text (lineOf text span.start) :=
        Nat.lt_of_lt_of_le (lineStop_lt lastExists) (lineStart_mono (Nat.lt_of_not_le later))
      omega
  · rintro ⟨behind, inFront⟩
    exact ⟨Nat.le_trans (lineStart_mono behind) starts,
      Nat.le_trans stops (lineStop_mono lineExists inFront)⟩

end OnLines

end Text

/-- The spans that edits replace, if the lines of all their ranges exist. -/
def TextEdit.spans? (text : Text) (edits : List TextEdit) : Option (List Span) :=
  edits.mapM fun edit => Text.spanOf? text edit.range

namespace Rename

open Text

section Selection

variable {text name : Text} {selected : List Span}

/-- The edits for some of the occurrences name these occurrences. -/
theorem spans?_replacements
    (nonempty : name ≠ [])
    (oneLine : '\r' ∉ name ∧ '\n' ∉ name)
    (part : selected.Sublist (wholeWords text name))
    (newName : Text) :
    TextEdit.spans? text (replacements text selected newName) = some selected := by
  have named :
      (replacements text selected newName).mapM (fun edit => spanOf? text edit.range) =
        some (selected.map id) :=
    mapM_map_eq_some fun span member =>
      spanOf?_of_mem_wholeWords nonempty oneLine (part.subset member)
  rwa [List.map_id] at named

/-- The edits for some of the occurrences replace their bytes, and keep all others. -/
theorem utf8_replacements
    (nonempty : name ≠ [])
    (oneLine : '\r' ∉ name ∧ '\n' ∉ name)
    (part : selected.Sublist (wholeWords text name))
    (newName : Text) :
    ∃ renamed,
      TextEdit.applyAll? text (replacements text selected newName) = some renamed ∧
        utf8 renamed = replaceBytes (utf8 text) selected (utf8 newName) := by
  refine ⟨_, applyAll?_replacements nonempty oneLine part newName, ?_⟩
  refine utf8_replaceSpans ((separate_wholeWords nonempty).of_sublist part) ?_ newName
  intro span member
  exact isBoundary_of_mem_wholeWords nonempty (part.subset member)

end Selection

theorem localEdits_eq
    {text : Text}
    {first last : Nat}
    (firstExists : first < lineCount text)
    (lastExists : last < lineCount text)
    (name newName : Text) :
    localEdits text first last name newName =
      replacements text
        ((wholeWords text name).filter (·.within ⟨lineStart text first, lineStop text last⟩))
        newName := by
  rw [localEdits, lineSpan?_eq_some firstExists, lineSpan?_eq_some lastExists]

/--
The edits of a rename lead back to the occurrences of the name, which stand
apart in the order of the text, and replace their bytes only. Those of a rename
between two lines do the same for the occurrences that lie between the start of
the one and the end of the other, which are the occurrences on these lines.
-/
theorem edits_denote_occurrences
    {text name : Text}
    (nonempty : name ≠ [])
    (oneLine : '\r' ∉ name ∧ '\n' ∉ name)
    (newName : Text) :
    TextEdit.spans? text (documentEdits text name newName) = some (wholeWords text name) ∧
      Separate (wholeWords text name) ∧
        (∃ renamed,
          TextEdit.applyAll? text (documentEdits text name newName) = some renamed ∧
            utf8 renamed = replaceBytes (utf8 text) (wholeWords text name) (utf8 newName)) ∧
          ∀ first last, first < lineCount text → last < lineCount text →
            ∃ selected,
              selected =
                  (wholeWords text name).filter
                    (·.within ⟨lineStart text first, lineStop text last⟩) ∧
                selected =
                    (wholeWords text name).filter
                      (fun span => first ≤ lineOf text span.start && lineOf text span.stop ≤ last) ∧
                  TextEdit.spans? text (localEdits text first last name newName) = some selected ∧
                    ∃ renamed,
                      TextEdit.applyAll? text (localEdits text first last name newName) =
                          some renamed ∧
                        utf8 renamed = replaceBytes (utf8 text) selected (utf8 newName) := by
  have all := List.Sublist.refl (wholeWords text name)
  refine ⟨spans?_replacements nonempty oneLine all newName, separate_wholeWords nonempty,
    utf8_replacements nonempty oneLine all newName, ?_⟩
  intro first last firstExists lastExists
  have edits := localEdits_eq firstExists lastExists name newName
  refine ⟨_, rfl, ?_, ?_, ?_⟩
  · apply List.filter_congr
    intro span member
    rw [Bool.eq_iff_iff, within_lines_iff nonempty oneLine member lastExists]
    simp
  · rw [edits]
    exact spans?_replacements nonempty oneLine List.filter_sublist newName
  · rw [edits]
    exact utf8_replacements nonempty oneLine List.filter_sublist newName

/-- The Kelvin sign spells `k`; a pair of units stands in front, and the lines end in three ways. -/
def kelvins : Text :=
  "𝄞 K;\r\nk1 \u212a k\nk\r".toList

theorem edits_denote_occurrences_kelvins :
    ['k'] ≠ [] ∧ ('\r' ∉ ['k'] ∧ '\n' ∉ ['k']) ∧
      wholeWords kelvins ['k'] = [⟨5, 6⟩, ⟨12, 15⟩, ⟨16, 17⟩, ⟨18, 19⟩] ∧
        TextEdit.spans? kelvins (documentEdits kelvins ['k'] "κελ".toList) =
            some (wholeWords kelvins ['k']) ∧
          TextEdit.spans? kelvins (localEdits kelvins 1 1 ['k'] "κελ".toList) =
              some [⟨12, 15⟩, ⟨16, 17⟩] ∧
            ∃ renamed,
              TextEdit.applyAll? kelvins (localEdits kelvins 1 1 ['k'] "κελ".toList) =
                  some renamed ∧
                utf8 renamed = utf8 "𝄞 K;\r\nk1 κελ κελ\nk\r".toList := by
  have spans : wholeWords kelvins ['k'] = [⟨5, 6⟩, ⟨12, 15⟩, ⟨16, 17⟩, ⟨18, 19⟩] := by
    decide +kernel
  obtain ⟨named, -, -, onLines⟩ :=
    @edits_denote_occurrences kelvins ['k'] (by decide) (by decide) "κελ".toList
  obtain ⟨selected, -, isSelected, localNamed, renamed, applied, bytes⟩ :=
    onLines 1 1 (by decide) (by decide)
  have selectedSpans : selected = [⟨12, 15⟩, ⟨16, 17⟩] := by
    rw [isSelected, spans]
    decide +kernel
  rw [selectedSpans] at localNamed bytes
  refine ⟨by decide, by decide, spans, named, localNamed, renamed, applied, ?_⟩
  rw [bytes]
  decide +kernel

end Rename

end RoutineServer
