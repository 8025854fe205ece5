import RoutineServer.Proofs.Service.Editing
import RoutineServer.Proofs.Text.Replacement

namespace RoutineServer

/-!
# Undoing a rename

A document in which a name was replaced by one it did not have before has the
new name exactly where the old one was. Renaming back therefore restores the
document, up to the spelling of the occurrences.
-/

namespace Text

/-- Two spellings of one name are found in the same places. -/
theorem Divided.of_spells
    {name other text : Text}
    {previous : Option Char}
    {pieces : List Piece}
    (bounded : Bounded name)
    (otherBounded : Bounded other)
    (spelled : Spells name other)
    (divided : Divided name previous text pieces) :
    Divided other previous text pieces := by
  induction divided with
  | nil =>
      exact .nil
  | @kept previous char rest pieces stands _ inductionHypothesis =>
      refine .kept ?_ inductionHypothesis
      by_contra otherStands
      obtain ⟨following, found⟩ := Option.ne_none_iff_exists'.mp otherStands
      obtain ⟨spelling, shape, otherSpelled, whole⟩ := standsAt?_eq_some_iff.mp found
      have nameWhole : isWholeWord name previous following = true :=
        bounded.isWholeWord_iff.mpr (otherBounded.isWholeWord_iff.mp whole)
      have nameStands : standsAt? name previous (char :: rest) = some following :=
        standsAt?_eq_some_iff.mpr ⟨spelling, shape, spelled.trans otherSpelled, nameWhole⟩
      rw [stands] at nameStands
      cases nameStands
  | found nameSpelled whole _ inductionHypothesis =>
      refine .found (spelled.symm.trans nameSpelled) ?_ inductionHypothesis
      exact otherBounded.isWholeWord_iff.mpr (bounded.isWholeWord_iff.mp whole)

/-- Occurrences that are spelled as the replacement stay what they are. -/
theorem Divided.rewritten_eq
    {name text front rest spelling : Text}
    {previous : Option Char}
    {pieces : List Piece}
    (divided : Divided name previous rest pieces)
    (whole : text = front ++ rest)
    (spelledSo : ∀ span ∈ Piece.spansFrom (byteLength front) pieces, slice span text = spelling) :
    Piece.rewritten spelling pieces = rest := by
  induction divided generalizing front with
  | nil =>
      rfl
  | @kept _ char rest _ _ _ inductionHypothesis =>
      have shape : text = (front ++ [char]) ++ rest := by
        simpa using whole
      have later := inductionHypothesis shape (by simpa [Piece.spansFrom] using spelledSo)
      rw [Piece.rewritten_kept, later]
  | @found _ other rest _ _ _ _ inductionHypothesis =>
      have shape : text = (front ++ other) ++ rest := by
        simpa using whole
      have here := spelledSo _ List.mem_cons_self
      rw [slice_eq whole rfl rfl] at here
      have later := inductionHypothesis shape fun span member =>
        spelledSo span (List.mem_cons_of_mem _ (by simpa using member))
      rw [Piece.rewritten_found, later, here]

end Text

namespace Rename

open Text

/--
Renaming every occurrence of a name to a name that is new to a document takes
the old name out of it, puts the new one in once for each edit, and is undone
by renaming back: each occurrence then reads as the old name, so the document
is what it was if they all read so before.
-/
theorem documentEdits_invertible
    {text oldName newName : Text}
    (oldPlain : isPlainName oldName = true)
    (newPlain : isPlainName newName = true)
    (fresh : wholeWords text newName = [])
    (occurs : wholeWords text oldName ≠ []) :
    ∃ renamed,
      TextEdit.applyAll? text (documentEdits text oldName newName) = some renamed ∧
        wholeWords renamed oldName = [] ∧
          (wholeWords renamed newName).length = (documentEdits text oldName newName).length ∧
            TextEdit.applyAll? renamed (documentEdits renamed newName oldName) =
                some (replaceSpans text (wholeWords text oldName) oldName) ∧
              ((∀ span ∈ wholeWords text oldName, slice span text = oldName) →
                TextEdit.applyAll? renamed (documentEdits renamed newName oldName) =
                  some text) := by
  have oldIdentifier := isIdentifier_of_isPlainName oldPlain
  have newIdentifier := isIdentifier_of_isPlainName newPlain
  have newAscii := ascii_of_isPlainName newPlain
  have oldBounded := Bounded.of_isIdentifier (ascii_of_isPlainName oldPlain) oldIdentifier
  have newBounded := Bounded.of_isIdentifier newAscii newIdentifier
  obtain ⟨pieces, divided⟩ := Divided.exists_divided oldBounded.ne_nil none text
  have spans := divided.wholeWords_eq oldBounded.ne_nil
  -- The new name is not a spelling of the old one, or it would have been found.
  have distinct : ∀ part ∈ identifiers oldName, ¬ Spells part newName := by
    intro part member spelled
    rw [identifiers_of_isIdentifier oldIdentifier, List.mem_singleton] at member
    subst member
    have same := divided.of_spells oldBounded newBounded spelled
    rw [same.wholeWords_eq newBounded.ne_nil, ← spans] at fresh
    exact occurs fresh
  have gone :
      Divided oldName none (Piece.rewritten newName pieces)
        ((Piece.rewritten newName pieces).map .kept) :=
    divided.rewritten_kept oldBounded newIdentifier distinct rfl
  have back :
      Divided newName none (Piece.rewritten newName pieces)
        (pieces.map (Piece.respell newName)) :=
    divided.rewritten_found oldBounded newAscii newIdentifier
      (divided_of_wholeWords_eq_nil newBounded.ne_nil fresh) rfl
  have undone :
      TextEdit.applyAll? (Piece.rewritten newName pieces)
          (documentEdits (Piece.rewritten newName pieces) newName oldName) =
        some (Piece.rewritten oldName pieces) := by
    rw [applyAll?_documentEdits newBounded.ne_nil (oneLine_of_isIdentifier newIdentifier) back,
      Piece.rewritten_map_respell]
  refine ⟨Piece.rewritten newName pieces, ?_, ?_, ?_, ?_, ?_⟩
  · exact applyAll?_documentEdits oldBounded.ne_nil (oneLine_of_isIdentifier oldIdentifier)
      divided newName
  · rw [gone.wholeWords_eq oldBounded.ne_nil, Piece.spansFrom_map_kept]
  · rw [back.wholeWords_eq newBounded.ne_nil, Piece.length_spansFrom_respell newName 0 0, ← spans]
    exact (List.length_map _).symm
  · rw [undone, divided.replaceSpans_eq oldBounded.ne_nil]
  · intro spelledSo
    rw [spans] at spelledSo
    rw [undone, divided.rewritten_eq (List.nil_append text).symm spelledSo]

/-- Occurrences in capitals, with the Kelvin sign, behind a pair of units and a `\r\n`. -/
def ranking : Text :=
  "select rank(x), '𝄞' || RAN\u212a;\r\nselect ranks, rank_1, \"Rank\"".toList

theorem documentEdits_invertible_ranking :
    (wholeWords ranking "rank".toList).length = 3 ∧
      ∃ renamed,
        TextEdit.applyAll? ranking (documentEdits ranking "rank".toList "place".toList) =
            some renamed ∧
          wholeWords renamed "rank".toList = [] ∧
            (wholeWords renamed "place".toList).length =
                (documentEdits ranking "rank".toList "place".toList).length ∧
              TextEdit.applyAll? renamed (documentEdits renamed "place".toList "rank".toList) =
                some (replaceSpans ranking (wholeWords ranking "rank".toList) "rank".toList) := by
  refine ⟨by decide +kernel, ?_⟩
  obtain ⟨renamed, applied, gone, placed, undone, -⟩ :=
    @documentEdits_invertible ranking "rank".toList "place".toList
      (by decide) (by decide) (by decide +kernel) (by decide +kernel)
  exact ⟨renamed, applied, gone, placed, undone⟩

end Rename

end RoutineServer
