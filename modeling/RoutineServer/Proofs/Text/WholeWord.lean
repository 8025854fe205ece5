import Mathlib.Data.List.Basic
import RoutineServer.Proofs.Text.Occurrence
import RoutineServer.Proofs.Text.Offset

namespace RoutineServer

/-!
# What the search for a name finds

An occurrence of a name is a piece of the text that spells it, with no
identifier character beside an end of the name that is one. The search answers
occurrences only, in order and without overlap. It misses an occurrence only if
an earlier one that it answers reaches into it.
-/

namespace Text

/-- Spans that are not empty and follow one another without overlap. -/
structure Separate (spans : List Span) : Prop where
  nonempty : ∀ span ∈ spans, span.start < span.stop
  ordered : spans.Pairwise fun first second => first.stop ≤ second.start

namespace Separate

variable {spans : List Span}

theorem of_sublist
    {selected : List Span}
    (separate : Separate spans)
    (part : selected.Sublist spans) :
    Separate selected where
  nonempty span member := separate.nonempty span (part.subset member)
  ordered := separate.ordered.sublist part

/-- Separate spans are sorted by their starts. -/
theorem pairwise_start
    (separate : Separate spans) :
    spans.Pairwise fun first second => first.start ≤ second.start := by
  refine separate.ordered.imp_of_mem ?_
  intro first second member _ apart
  exact Nat.le_trans (Nat.le_of_lt (separate.nonempty first member)) apart

end Separate

/--
A name stands at a span of a text as a whole word: the characters agree with
the name's one by one up to case, and beside an end of the name that is an
identifier character there is none.
-/
def OccursAt (text name : Text) (span : Span) : Prop :=
  ∃ front spelling back,
    text = front ++ (spelling ++ back) ∧
      span = ⟨byteLength front, byteLength front + byteLength spelling⟩ ∧
        Spells name spelling ∧
          (name.head?.any isIdentifierChar = true →
            front.getLast?.any isIdentifierChar = false) ∧
            (name.getLast?.any isIdentifierChar = true →
              back.head?.any isIdentifierChar = false)

theorem OccursAt.isBoundary
    {text name : Text}
    {span : Span}
    (occurs : OccursAt text name span) :
    isBoundary span.start text = true ∧ isBoundary span.stop text = true := by
  obtain ⟨front, spelling, back, whole, rfl, -⟩ := occurs
  constructor
  · exact isBoundary_iff.mpr ⟨front, spelling ++ back, whole, rfl⟩
  · refine isBoundary_iff.mpr ⟨front ++ spelling, back, ?_, byteLength_append _ _⟩
    rw [whole, List.append_assoc]

theorem isWholeWord_iff
    {name rest : Text}
    {previous : Option Char} :
    isWholeWord name previous rest = true ↔
      (name.head?.any isIdentifierChar = true → previous.any isIdentifierChar = false) ∧
        (name.getLast?.any isIdentifierChar = true →
          rest.head?.any isIdentifierChar = false) := by
  simp only [isWholeWord, Bool.and_eq_true, Bool.not_eq_true', Bool.and_eq_false_imp]

theorem Spells.ne_nil
    {name spelling : Text}
    (spelled : Spells name spelling)
    (nonempty : name ≠ []) :
    spelling ≠ [] := by
  rintro rfl
  cases spelled
  exact nonempty rfl

/-- What is found for a quoted word is quoted, and spells the word inside. -/
theorem Spells.of_quoted
    {name spelling : Text}
    (spelled : Spells ('"' :: name ++ ['"']) spelling) :
    ∃ inside, spelling = '"' :: inside ++ ['"'] ∧ Spells name inside := by
  cases spelled with
  | @cons _ first _ rest same restSpelled =>
      have opened : first = '"' := eq_of_sameFolded (by decide) (by decide) same
      obtain ⟨inside, closing, rfl, inner, closes⟩ := restSpelled.of_append
      cases closes with
      | cons lastSame ended =>
          cases ended
          have closed := eq_of_sameFolded (by decide) (by decide) lastSame
          exact ⟨inside, by rw [opened, closed]; rfl, inner⟩

/-- A piece without a sign ends in front of the first one that follows. -/
theorem exists_append_of_not_mem
    {sign : Char}
    {piece rest front back : Text}
    (absent : sign ∉ piece)
    (shape : piece ++ rest = front ++ sign :: back) :
    ∃ more, front = piece ++ more := by
  rcases List.append_eq_append_iff.mp shape with ⟨more, isFront, -⟩ | ⟨more, isPiece, behind⟩
  · exact ⟨more, isFront⟩
  · cases more with
    | nil =>
        exact ⟨[], by rw [isPiece, List.append_nil, List.append_nil]⟩
    | cons char others =>
        have isSign := (List.cons.inj behind).1
        rw [isPiece, isSign] at absent
        simp at absent

namespace Piece

/-- The spans of later occurrences start behind the earlier ones. -/
theorem le_start_of_mem_spansFrom
    {offset : Nat}
    {pieces : List Piece}
    {span : Span}
    (member : span ∈ spansFrom offset pieces) :
    offset ≤ span.start := by
  induction pieces generalizing offset with
  | nil =>
      cases member
  | cons piece rest inductionHypothesis =>
      cases piece with
      | kept char =>
          exact Nat.le_trans (Nat.le_add_right _ _) (inductionHypothesis member)
      | found spelling =>
          rcases List.mem_cons.mp member with isFirst | isLater
          · rw [isFirst]
          · exact Nat.le_trans (Nat.le_add_right _ _) (inductionHypothesis isLater)

theorem pairwise_stop_le_spansFrom
    (offset : Nat)
    (pieces : List Piece) :
    (spansFrom offset pieces).Pairwise fun first second => first.stop ≤ second.start := by
  induction pieces generalizing offset with
  | nil =>
      exact .nil
  | cons piece rest inductionHypothesis =>
      cases piece with
      | kept char =>
          exact inductionHypothesis _
      | found spelling =>
          refine .cons ?_ (inductionHypothesis _)
          intro second member
          exact le_start_of_mem_spansFrom member

end Piece

/--
A place where a name stands has been met by a search: the name is found there,
or an occurrence that starts in front of the place and ends behind it.
-/
inductive Met (name front spelling back : Text) (spans : List Span) : Prop where
  | found :
      ⟨byteLength front, byteLength front + byteLength spelling⟩ ∈ spans →
      Met name front spelling back spans
  | covered
      {earlier inside outside later : Text} :
      front = earlier ++ inside →
      spelling ++ back = outside ++ later →
      inside ≠ [] →
      outside ≠ [] →
      Spells name (inside ++ outside) →
      ⟨byteLength earlier, byteLength earlier + byteLength (inside ++ outside)⟩ ∈ spans →
      Met name front spelling back spans

theorem Met.mono
    {name front spelling back : Text}
    {fewer spans : List Span}
    (met : Met name front spelling back fewer)
    (among : fewer ⊆ spans) :
    Met name front spelling back spans := by
  cases met with
  | found member => exact .found (among member)
  | covered before behind starts ends spelled member =>
      exact .covered before behind starts ends spelled (among member)

namespace Divided

variable {name rest : Text} {previous : Option Char} {pieces : List Piece}

/-- What is found is an occurrence. -/
theorem occursAt_of_mem_spansFrom
    {text passed : Text}
    {span : Span}
    (divided : Divided name previous rest pieces)
    (nonempty : name ≠ [])
    (follows : previous = passed.getLast?)
    (whole : text = passed ++ rest)
    (member : span ∈ Piece.spansFrom (byteLength passed) pieces) :
    OccursAt text name span := by
  induction divided generalizing passed with
  | nil =>
      cases member
  | @kept _ char rest _ _ _ inductionHypothesis =>
      have shape : text = (passed ++ [char]) ++ rest := by
        simpa using whole
      exact inductionHypothesis (by simp) shape (by simpa [Piece.spansFrom] using member)
  | @found _ spelling rest _ spelled alone _ inductionHypothesis =>
      rcases List.mem_cons.mp member with isFirst | isLater
      · rw [follows] at alone
        obtain ⟨before, after⟩ := isWholeWord_iff.mp alone
        exact ⟨passed, spelling, rest, whole, isFirst, spelled, before, after⟩
      · have shape : text = (passed ++ spelling) ++ rest := by
          simpa using whole
        have last := List.getLast?_append_of_ne_nil passed (spelled.ne_nil nonempty)
        exact inductionHypothesis last.symm shape (by simpa using isLater)

/-- The search meets every place where the name stands. -/
theorem met_spansFrom
    {passed more spelling back : Text}
    (divided : Divided name previous rest pieces)
    (nonempty : name ≠ [])
    (follows : previous = passed.getLast?)
    (whole : rest = more ++ (spelling ++ back))
    (spelled : Spells name spelling)
    (stands : isWholeWord name (passed ++ more).getLast? back = true) :
    Met name (passed ++ more) spelling back (Piece.spansFrom (byteLength passed) pieces) := by
  induction divided generalizing passed more with
  | nil =>
      have empty := (List.append_eq_nil_iff.mp whole.symm).2
      exact absurd (List.append_eq_nil_iff.mp empty).1 (spelled.ne_nil nonempty)
  | @kept previous char rest pieces missed _ inductionHypothesis =>
      cases more with
      | nil =>
          rw [List.append_nil, ← follows] at stands
          have isHere : standsAt? name previous (char :: rest) = some back :=
            standsAt?_eq_some_iff.mpr ⟨spelling, whole, spelled, stands⟩
          rw [missed] at isHere
          cases isHere
      | cons first others =>
          rw [List.cons_append, List.cons.injEq] at whole
          obtain ⟨rfl, whole⟩ := whole
          have shift : passed ++ char :: others = (passed ++ [char]) ++ others := by simp
          rw [shift] at stands ⊢
          simpa [Piece.spansFrom] using inductionHypothesis (by simp) whole stands
  | @found previous word rest pieces wordSpelled _ _ inductionHypothesis =>
      have isFirst :
          (⟨byteLength passed, byteLength passed + byteLength word⟩ : Span) ∈
            Piece.spansFrom (byteLength passed) (.found word :: pieces) :=
        List.mem_cons_self
      -- A place behind the occurrence is met by the search that goes on there.
      have isLater
          (others : Text)
          (passes : more = word ++ others)
          (shape : rest = others ++ (spelling ++ back)) :
          Met name (passed ++ more) spelling back
            (Piece.spansFrom (byteLength passed) (.found word :: pieces)) := by
        have last := List.getLast?_append_of_ne_nil passed (wordSpelled.ne_nil nonempty)
        rw [passes, ← List.append_assoc] at stands ⊢
        have met := inductionHypothesis last.symm shape stands
        rw [byteLength_append passed word] at met
        exact met.mono (List.subset_cons_self _ _)
      rcases List.append_eq_append_iff.mp whole with ⟨others, passes, shape⟩ | ⟨inner, split, shape⟩
      · exact isLater others passes shape
      · cases inner with
        | nil =>
            rw [List.append_nil] at split
            exact isLater [] (by rw [split, List.append_nil]) shape.symm
        | cons char others =>
            cases more with
            | nil =>
                rw [List.nil_append] at split
                rw [← split] at shape
                obtain ⟨rfl, -⟩ :=
                  List.append_inj shape (spelled.length_eq.symm.trans wordSpelled.length_eq)
                rw [List.append_nil]
                exact .found isFirst
            | cons first inside =>
                subst split
                exact .covered rfl shape (List.cons_ne_nil _ _) (List.cons_ne_nil _ _) wordSpelled
                  isFirst

end Divided

section Occurrences

variable {text name : Text} {span : Span}

theorem occursAt_of_mem_wholeWords
    (nonempty : name ≠ [])
    (member : span ∈ wholeWords text name) :
    OccursAt text name span := by
  obtain ⟨pieces, divided⟩ := Divided.exists_divided nonempty none text
  rw [divided.wholeWords_eq nonempty] at member
  exact divided.occursAt_of_mem_spansFrom nonempty rfl (List.nil_append text).symm member

theorem separate_wholeWords
    (nonempty : name ≠ []) :
    Separate (wholeWords text name) where
  nonempty := by
    intro span member
    obtain ⟨front, spelling, back, -, rfl, spelled, -⟩ :=
      occursAt_of_mem_wholeWords nonempty member
    exact Nat.lt_add_of_pos_right (byteLength_pos (spelled.ne_nil nonempty))
  ordered := by
    obtain ⟨pieces, divided⟩ := Divided.exists_divided nonempty none text
    rw [divided.wholeWords_eq nonempty]
    exact Piece.pairwise_stop_le_spansFrom 0 pieces

theorem met_wholeWords
    {front spelling back : Text}
    (nonempty : name ≠ [])
    (whole : text = front ++ (spelling ++ back))
    (spelled : Spells name spelling)
    (stands : isWholeWord name front.getLast? back = true) :
    Met name front spelling back (wholeWords text name) := by
  obtain ⟨pieces, divided⟩ := Divided.exists_divided nonempty none text
  have atStart : none = ([] : Text).getLast? := rfl
  rw [divided.wholeWords_eq nonempty]
  exact divided.met_spansFrom nonempty atStart whole spelled stands

/-- An occurrence is found, or it starts inside one that is found. -/
theorem mem_or_covered_of_occursAt
    (nonempty : name ≠ [])
    (occurs : OccursAt text name span) :
    span ∈ wholeWords text name ∨
      ∃ found ∈ wholeWords text name, found.start < span.start ∧ span.start < found.stop := by
  obtain ⟨front, spelling, back, whole, rfl, spelled, before, after⟩ := occurs
  cases met_wholeWords nonempty whole spelled (isWholeWord_iff.mpr ⟨before, after⟩) with
  | found member => exact .inl member
  | @covered earlier inside outside later split _ starts ends _ member =>
      have startsBefore := byteLength_pos starts
      have endsBehind := byteLength_pos ends
      refine .inr ⟨_, member, ?_, ?_⟩
      · simp only [split, byteLength_append]
        omega
      · simp only [split, byteLength_append]
        omega

/-- A name is found where no occurrence can hold the character in front of it. -/
theorem mem_wholeWords_of_apart
    {front spelling back : Text}
    (nonempty : name ≠ [])
    (whole : text = front ++ (spelling ++ back))
    (spelled : Spells name spelling)
    (stands : isWholeWord name front.getLast? back = true)
    (apart : ∀ char, front.getLast? = some char → ∀ other, Spells name other → char ∉ other) :
    ⟨byteLength front, byteLength front + byteLength spelling⟩ ∈ wholeWords text name := by
  cases met_wholeWords nonempty whole spelled stands with
  | found member => exact member
  | @covered earlier inside outside later before _ starts _ otherSpelled _ =>
      have last : front.getLast? = some (inside.getLast starts) := by
        rw [before, List.getLast?_append_of_ne_nil _ starts, List.getLast?_eq_some_getLast starts]
      have inOther : inside.getLast starts ∈ inside ++ outside :=
        List.mem_append_left _ (List.getLast_mem starts)
      exact absurd inOther (apart _ last _ otherSpelled)

end Occurrences

/--
The search for a name answers occurrences of it, in order and without overlap.
An occurrence that is not answered starts inside an answered one that begins
before it.
-/
theorem wholeWords_sound_complete
    {name : Text}
    (nonempty : name ≠ [])
    (text : Text) :
    (∀ span ∈ wholeWords text name, OccursAt text name span) ∧
      Separate (wholeWords text name) ∧
        ∀ span, OccursAt text name span → span ∉ wholeWords text name →
          ∃ found ∈ wholeWords text name,
            found.start < span.start ∧ span.start < found.stop := by
  refine ⟨fun span => occursAt_of_mem_wholeWords nonempty, separate_wholeWords nonempty, ?_⟩
  intro span occurs missed
  exact (mem_or_covered_of_occursAt nonempty occurs).resolve_left missed

/--
Two occurrences of `k.k` that overlap, the first with a Kelvin sign, and one that
overlaps a part of a longer word.
-/
def chained : Text :=
  "\u212A.k.k xk.k.k".toList

/-- The ligatures for a long and for a round letter s with t, which fold alike. -/
def ligatures : Text :=
  "\uFB06 \uFB05".toList

theorem wholeWords_sound_complete_chained :
    wholeWords chained "k.k".toList = [⟨0, 5⟩, ⟨11, 14⟩] ∧
      OccursAt chained "k.k".toList ⟨11, 14⟩ ∧ Separate (wholeWords chained "k.k".toList) ∧
        OccursAt chained "k.k".toList ⟨4, 7⟩ ∧
          (∃ found ∈ wholeWords chained "k.k".toList, found.start < 4 ∧ 4 < found.stop) ∧
            wholeWords ligatures "\uFB05".toList = [⟨0, 3⟩, ⟨4, 7⟩] ∧
              OccursAt ligatures "\uFB05".toList ⟨0, 3⟩ := by
  have found : wholeWords chained "k.k".toList = [⟨0, 5⟩, ⟨11, 14⟩] := by decide +kernel
  have foundLigatures : wholeWords ligatures "\uFB05".toList = [⟨0, 3⟩, ⟨4, 7⟩] := by
    decide +kernel
  obtain ⟨sound, separate, complete⟩ :=
    wholeWords_sound_complete (by decide : "k.k".toList ≠ []) chained
  obtain ⟨soundLigatures, -⟩ :=
    wholeWords_sound_complete (by decide : "\uFB05".toList ≠ []) ligatures
  have overlapping : OccursAt chained "k.k".toList ⟨4, 7⟩ :=
    ⟨"\u212A.".toList, "k.k".toList, " xk.k.k".toList, by decide, by decide, .refl _,
      by decide +kernel, by decide +kernel⟩
  exact ⟨found, sound _ (by rw [found]; decide), separate, overlapping,
    complete _ overlapping (by rw [found]; decide), foundLigatures,
    soundLigatures _ (by rw [foundLigatures]; decide)⟩

end Text

end RoutineServer
