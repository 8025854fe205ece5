import RoutineServer.Proofs.Text.Position
import RoutineServer.Proofs.Text.WholeWord
import RoutineServer.Service.Rename

namespace RoutineServer

/-!
# Edits applied to a document

An editor applies a list of edits by replacing the ranges they name, all of
them ranges of the document as it was. Ranges that overlap or name lines that
do not exist make the list invalid.

The edits of a rename are valid: applied to the document, they replace the
occurrences of the old name and nothing else.
-/

namespace Text

/-- The span that a range names, if its lines exist. -/
def spanOf? (text : Text) (range : Range) : Option Span := do
  some ⟨← offsetOf? text range.start, ← offsetOf? text range.stop⟩

/-- The text in a range, if its lines exist. -/
def textIn? (text : Text) (range : Range) : Option Text :=
  (spanOf? text range).map (slice · text)

/-- Whether spans follow one another without overlap from an offset on. -/
def inOrderFrom : Nat → List (Span × Text) → Bool
  | _, [] => true
  | offset, (span, _) :: rest =>
      offset ≤ span.start && span.start ≤ span.stop && inOrderFrom span.stop rest

/-- The text from an offset on, with spans replaced that are given in order. -/
def spliceFrom (text : Text) : Nat → List (Span × Text) → Text
  | offset, [] => after offset text
  | offset, (span, replacement) :: rest =>
      slice ⟨offset, span.start⟩ text ++ (replacement ++ spliceFrom text span.stop rest)

/-- The text with each of some spans, given in order, replaced by one text. -/
def replaceSpans (text : Text) (spans : List Span) (replacement : Text) : Text :=
  spliceFrom text 0 (spans.map (·, replacement))

end Text

/-- Apply edits to a document, unless they are invalid. -/
def TextEdit.applyAll? (text : Text) (edits : List TextEdit) : Option Text := do
  let replacements ← edits.mapM fun edit => (Text.spanOf? text edit.range).map (·, edit.newText)
  let ordered := replacements.mergeSort (·.1.start ≤ ·.1.start)
  if Text.inOrderFrom 0 ordered then some (Text.spliceFrom text 0 ordered) else none

namespace Text

namespace Separate

variable {spans : List Span}

theorem inOrderFrom
    {offset : Nat}
    (separate : Separate spans)
    (behind : ∀ span ∈ spans, offset ≤ span.start)
    (replacement : Text) :
    Text.inOrderFrom offset (spans.map (·, replacement)) = true := by
  induction spans generalizing offset with
  | nil =>
      rfl
  | cons span rest inductionHypothesis =>
      have later :=
        inductionHypothesis (separate.of_sublist (List.sublist_cons_self _ _))
          (List.pairwise_cons.mp separate.ordered).1
      have first := behind span List.mem_cons_self
      have filled := separate.nonempty span List.mem_cons_self
      simp only [List.map_cons, Text.inOrderFrom, Bool.and_eq_true, decide_eq_true_eq]
      exact ⟨⟨first, Nat.le_of_lt filled⟩, later⟩

end Separate

namespace Piece

/-- Replacing the spans of the occurrences gives the rewritten text. -/
theorem spliceFrom_spansFrom
    {text front kept : Text}
    {pieces : List Piece}
    (replacement : Text)
    (whole : text = front ++ (kept ++ pieces.flatMap Piece.text)) :
    spliceFrom text (byteLength front)
        ((spansFrom (byteLength (front ++ kept)) pieces).map (·, replacement)) =
      kept ++ rewritten replacement pieces := by
  induction pieces generalizing front kept with
  | nil =>
      rw [List.flatMap_nil] at whole
      exact after_eq whole rfl
  | cons piece rest inductionHypothesis =>
      cases piece with
      | kept char =>
          have shape : text = front ++ ((kept ++ [char]) ++ rest.flatMap Piece.text) := by
            simpa [Piece.text] using whole
          have later := inductionHypothesis shape
          simp only [← List.append_assoc] at later
          rw [byteLength_append] at later
          simpa [spansFrom] using later
      | found spelling =>
          have shape :
              text = (front ++ (kept ++ spelling)) ++ ([] ++ rest.flatMap Piece.text) := by
            simpa [Piece.text] using whole
          have later := inductionHypothesis shape
          have here : slice ⟨byteLength front, byteLength (front ++ kept)⟩ text = kept :=
            slice_eq whole rfl (byteLength_append _ _)
          have stop :
              byteLength (front ++ kept) + byteLength spelling =
                byteLength (front ++ (kept ++ spelling)) := by
            simp [Nat.add_assoc]
          rw [List.append_nil] at later
          simp only [spansFrom, List.map_cons, spliceFrom, here, stop, later]
          rfl

end Piece

/-- The range of a piece names the piece, if no line terminator is cut at its ends. -/
theorem spanOf?_rangeOf
    {text front middle back : Text}
    {span : Span}
    (whole : text = front ++ (middle ++ back))
    (startsAt : span.start = byteLength front)
    (stopsAt : span.stop = span.start + byteLength middle)
    (starts : settled front (middle ++ back))
    (stops : settled (front ++ middle) back) :
    spanOf? text (rangeOf text span) = some span := by
  have start := offsetOf?_positionOf whole startsAt starts
  have shape : text = (front ++ middle) ++ back := by
    rw [whole, List.append_assoc]
  have stop : span.stop = byteLength (front ++ middle) := by
    rw [stopsAt, startsAt, byteLength_append]
  have ending := offsetOf?_positionOf shape stop stops
  simp only [spanOf?, rangeOf, start, ending]
  rfl

/-- A name without line breaks is found away from the ends of lines. -/
theorem Spells.settled
    {name front spelling back : Text}
    (spelled : Spells name spelling)
    (nonempty : name ≠ [])
    (oneLine : '\r' ∉ name ∧ '\n' ∉ name) :
    Text.settled front (spelling ++ back) ∧ Text.settled (front ++ spelling) back := by
  have noReturn : '\r' ∉ spelling := spelled.not_mem (by decide) (by decide) oneLine.1
  have noNewline : '\n' ∉ spelling := spelled.not_mem (by decide) (by decide) oneLine.2
  cases spelled with
  | nil =>
      exact absurd rfl nonempty
  | @cons expected char more rest same restSpelled =>
      constructor
      · intro _
        refine ⟨char, rest ++ back, rfl, ?_⟩
        intro isNewline
        exact noNewline (by rw [isNewline]; exact List.mem_cons_self)
      · intro returns
        obtain ⟨last, ends⟩ : ∃ last, (char :: rest).getLast? = some last :=
          ⟨_, List.getLast?_eq_some_getLast (List.cons_ne_nil _ _)⟩
        rw [List.getLast?_append, ends, Option.some_or, Option.some.injEq] at returns
        rw [returns] at ends
        exact absurd (List.mem_of_getLast? ends) noReturn

section Occurrences

variable {text name : Text} {span : Span}

theorem exists_of_mem_wholeWords
    (nonempty : name ≠ [])
    (member : span ∈ wholeWords text name) :
    ∃ front spelling back,
      text = front ++ (spelling ++ back) ∧ Spells name spelling ∧
        span = ⟨byteLength front, byteLength front + byteLength spelling⟩ := by
  obtain ⟨front, spelling, back, whole, placed, spelled, -⟩ :=
    occursAt_of_mem_wholeWords nonempty member
  exact ⟨front, spelling, back, whole, spelled, placed⟩

/-- The range of an occurrence leads back to it. -/
theorem spanOf?_of_mem_wholeWords
    (nonempty : name ≠ [])
    (oneLine : '\r' ∉ name ∧ '\n' ∉ name)
    (member : span ∈ wholeWords text name) :
    spanOf? text (rangeOf text span) = some span := by
  obtain ⟨front, spelling, back, whole, spelled, rfl⟩ := exists_of_mem_wholeWords nonempty member
  obtain ⟨starts, stops⟩ := spelled.settled nonempty oneLine
  exact spanOf?_rangeOf whole rfl rfl starts stops

end Occurrences

end Text

/-- A search for each of some values succeeds if it succeeds for all of them. -/
theorem mapM_map_eq_some
    {look : β → Option γ}
    {view : α → β}
    {answer : α → γ}
    {items : List α}
    (found : ∀ item ∈ items, look (view item) = some (answer item)) :
    (items.map view).mapM look = some (items.map answer) := by
  induction items with
  | nil =>
      rfl
  | cons item rest inductionHypothesis =>
      have here := found item List.mem_cons_self
      have later := inductionHypothesis fun other member =>
        found other (List.mem_cons_of_mem _ member)
      simp [here, later]

/-- Replacing the spans where a name is found rewrites its occurrences. -/
theorem Text.Divided.replaceSpans_eq
    {name text : Text}
    {pieces : List Text.Piece}
    (nonempty : name ≠ [])
    (divided : Text.Divided name none text pieces)
    (replacement : Text) :
    Text.replaceSpans text (Text.wholeWords text name) replacement =
      Text.Piece.rewritten replacement pieces := by
  have whole : text = [] ++ ([] ++ pieces.flatMap Text.Piece.text) :=
    divided.flatMap_text.symm
  rw [Text.replaceSpans, divided.wholeWords_eq nonempty]
  exact Text.Piece.spliceFrom_spansFrom replacement whole

namespace Rename

open Text

/-- The edits for some of the occurrences are valid, and replace these occurrences. -/
theorem applyAll?_replacements
    {text name : Text}
    {selected : List Span}
    (nonempty : name ≠ [])
    (oneLine : '\r' ∉ name ∧ '\n' ∉ name)
    (part : selected.Sublist (wholeWords text name))
    (newName : Text) :
    TextEdit.applyAll? text (replacements text selected newName) =
      some (replaceSpans text selected newName) := by
  have separate := (separate_wholeWords nonempty).of_sublist part
  have resolved :
      (replacements text selected newName).mapM
          (fun edit => (spanOf? text edit.range).map (·, edit.newText)) =
        some (selected.map (·, newName)) := by
    apply mapM_map_eq_some
    intro span member
    rw [spanOf?_of_mem_wholeWords nonempty oneLine (part.subset member)]
    rfl
  have sorted :
      (selected.map (·, newName)).mergeSort (·.1.start ≤ ·.1.start) =
        selected.map (·, newName) := by
    apply List.mergeSort_of_pairwise
    rw [List.pairwise_map]
    simpa using separate.pairwise_start
  have ordered := separate.inOrderFrom (fun _ _ => Nat.zero_le _) newName
  simp only [TextEdit.applyAll?, resolved, sorted, ordered, Option.bind_eq_bind, Option.bind_some,
    ↓reduceIte, replaceSpans]

/-- The edits of a rename are valid, and replace the occurrences of the old name. -/
theorem applyAll?_documentEdits
    {name text : Text}
    {pieces : List Text.Piece}
    (nonempty : name ≠ [])
    (oneLine : '\r' ∉ name ∧ '\n' ∉ name)
    (divided : Text.Divided name none text pieces)
    (newName : Text) :
    TextEdit.applyAll? text (documentEdits text name newName) =
      some (Text.Piece.rewritten newName pieces) := by
  rw [documentEdits, applyAll?_replacements nonempty oneLine (List.Sublist.refl _),
    divided.replaceSpans_eq nonempty]

end Rename

end RoutineServer
