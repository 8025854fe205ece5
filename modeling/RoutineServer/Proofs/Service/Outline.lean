import Mathlib.Data.List.Forall2
import RoutineServer.Proofs.Command.MoveEdits
import RoutineServer.Proofs.Lexical.MaskImage
import RoutineServer.Proofs.Service.Definition
import RoutineServer.Proofs.Service.References

namespace RoutineServer

/-!
# The outline of a document

A client drops an outline if one of the names to select is not inside the range
of its routine. The places that a declaration refers to lie between characters,
and between such places the passage to lines and columns keeps the order. So
the names are inside and the ranges apart for every text, also where a
statement is malformed or cut off.
-/

/-- A range lies inside another one; they may share an end. -/
def Range.Within (inner outer : Range) : Prop :=
  (outer.start = inner.start ∨ outer.start.Precedes inner.start) ∧
    (inner.stop = outer.stop ∨ inner.stop.Precedes outer.stop)

namespace Text

variable {text : Text}

/-- The range of a stretch shows the stretch, or all of it but a carriage return at its end. -/
theorem exists_shown
    {span : Span}
    (starts : isBoundary span.start text = true)
    (stops : isBoundary span.stop text = true)
    (filled : span.start < span.stop)
    (named : offsetOf? text (positionOf text span.start) = some span.start) :
    ∃ shown returns,
      slice span text = shown ++ returns ∧ (returns = [] ∨ returns = ['\r']) ∧
        textIn? text (rangeOf text span) = some shown := by
  obtain ⟨front, middle, back, whole, nonempty, isStart, isStop⟩ :=
    exists_of_isBoundary_lt starts stops filled
  have stopSize : span.stop = span.start + byteLength middle := by
    rw [← isStop, ← isStart, byteLength_append]
  have isSlice : slice span text = middle := slice_eq whole isStart.symm stopSize
  have shape : text = (front ++ middle) ++ back := by
    rw [whole, List.append_assoc]
  obtain ⟨reached, returns, split, isReturn, ending⟩ := exists_reached shape
  obtain ⟨shown, isMiddle, isReached⟩ :
      ∃ shown, middle = shown ++ returns ∧ reached = front ++ shown := by
    rcases isReturn with rfl | rfl
    · exact ⟨middle, (List.append_nil _).symm, by rw [split, List.append_nil]⟩
    · obtain ⟨shown, last, rfl⟩ := (List.eq_nil_or_concat' middle).resolve_left nonempty
      rw [← List.append_assoc] at split
      obtain ⟨isReached, isLast⟩ := List.append_inj' split rfl
      exact ⟨shown, by rw [isLast], isReached.symm⟩
  refine ⟨shown, returns, isSlice.trans isMiddle, isReturn, ?_⟩
  have around : text = front ++ (shown ++ (returns ++ back)) := by
    rw [whole, isMiddle, List.append_assoc]
  have isShown : slice ⟨span.start, byteLength reached⟩ text = shown :=
    slice_eq around isStart.symm (by rw [isReached, byteLength_append, isStart])
  rw [isStop] at ending
  simp only [textIn?, spanOf?, rangeOf, named, ending, Option.bind_eq_bind, Option.bind_some,
    Option.map_some, isShown]

/-- A letter's position leads to the letter. -/
theorem LetterAt.offsetOf?_positionOf
    {offset : Nat}
    (letter : LetterAt text offset) :
    offsetOf? text (positionOf text offset) = some offset := by
  obtain ⟨front, char, back, whole, rfl, isLetter⟩ := letter
  refine Text.offsetOf?_positionOf whole rfl fun _ => ⟨char, back, rfl, ?_⟩
  rintro rfl
  cases isLetter

end Text

namespace Declaration

open Text

variable {text : Text} {declaration : Declaration}

/-- The spans of the declarations of a text are separate. -/
theorem separate_spans
    (text : Text) :
    Separate ((parse text).map span) where
  nonempty := by
    intro place member
    obtain ⟨declaration, declared, rfl⟩ := List.mem_map.mp member
    exact (placed_of_mem_parse declared).start_lt_stop
  ordered := by
    rw [List.pairwise_map, parse_eq_segments]
    refine (Segment.chained_segmentsFrom 0 none (scan text)).pairwise.filterMap _ ?_
    intro first second inFront declaration declares next nextDeclares
    rw [span, span, (Segment.frames_of_declaration? nextDeclares).start_eq]
    exact Nat.le_trans (Segment.frames_of_declaration? declares).stop_le inFront

theorem isBoundary_span
    (declared : declaration ∈ parse text) :
    isBoundary declaration.span.start text = true ∧
      isBoundary declaration.span.stop text = true := by
  constructor
  all_goals exact isBoundary_of_mem_offsets declared (by simp [offsets, span])

/-- The range of a declared name names it, whatever stands around it. -/
theorem Surroundings.spanOf?_nameSpan
    (around : Surroundings text declaration) :
    spanOf? text (rangeOf text declaration.nameSpan) = some declaration.nameSpan := by
  refine spanOf?_rangeOf around.whole around.nameStart_eq rfl ?_ ?_
  · intro
    obtain ⟨first, others, spelling⟩ := List.exists_cons_of_ne_nil around.spelling_ne_nil
    refine ⟨first, others ++ around.behind, by rw [spelling]; rfl, ?_⟩
    rintro rfl
    rcases around.token.plain_or_quoted with ⟨plain, -⟩ | ⟨inside, quoted⟩
    · have inName := plain '\n' (by simp [spelling])
      cases inName
    · rw [spelling] at quoted
      cases quoted
  · -- A name does not end with a carriage return, so no terminator is cut behind it.
    intro returns
    rw [List.getLast?_append_of_ne_nil _ around.spelling_ne_nil] at returns
    exact absurd returns around.getLast?_spelling

end Declaration

namespace Navigation

open Text

/-- The symbol of a declaration. -/
def Symbol.of (text : Text) (declaration : Declaration) : Symbol :=
  ⟨declaration.name, declaration.kind, rangeOf text declaration.span,
    rangeOf text declaration.nameSpan⟩

theorem outline_eq_map
    (text : Text) :
    outline text = (Declaration.parse text).map (Symbol.of text) := rfl

/-- What a client expects of the symbols of a document, in the order they are given. -/
structure Symbol.Acceptable (symbols : List Symbol) : Prop where
  selected : ∀ symbol ∈ symbols, symbol.selection.start.Precedes symbol.selection.stop
  enclosed : ∀ symbol ∈ symbols, symbol.selection.Within symbol.range
  successive : Range.Successive (symbols.map (·.range))

/-- A symbol stands for a declaration, and its ranges lead back to where this stands. -/
structure Symbol.Represents
    (text : Text)
    (symbol : Symbol)
    (declaration : Declaration) : Prop where
  name_eq : symbol.name = declaration.name
  kind_eq : symbol.kind = declaration.kind
  range_eq : symbol.range = rangeOf text declaration.span
  selection_eq : symbol.selection = rangeOf text declaration.nameSpan
  selects : spanOf? text symbol.selection = some declaration.nameSpan
  /-- A carriage return that ends a line belongs to its terminator. -/
  shows :
    ∃ shown returns,
      slice declaration.span text = shown ++ returns ∧ (returns = [] ∨ returns = ['\r']) ∧
        textIn? text symbol.range = some shown

namespace Symbol

variable {text : Text} {declaration : Declaration}

theorem represents_of
    (declared : declaration ∈ Declaration.parse text) :
    (of text declaration).Represents text declaration := by
  obtain ⟨around⟩ := Declaration.exists_surroundings declared
  obtain ⟨starts, stops⟩ := Declaration.isBoundary_span declared
  exact {
    name_eq := rfl
    kind_eq := rfl
    range_eq := rfl
    selection_eq := rfl
    selects := around.spanOf?_nameSpan
    shows :=
      exists_shown starts stops (Declaration.placed_of_mem_parse declared).start_lt_stop
        (Declaration.letterAt_start declared).offsetOf?_positionOf
  }

/-- A declared name has characters, so that there is something to select. -/
theorem selected_of
    (declared : declaration ∈ Declaration.parse text) :
    (of text declaration).selection.start.Precedes (of text declaration).selection.stop := by
  obtain ⟨around⟩ := Declaration.exists_surroundings declared
  have placed := Declaration.placed_of_mem_parse declared
  have filled := byteLength_pos around.spelling_ne_nil
  exact positionOf_precedes_of_lt placed.nameStart_boundary placed.nameStop_boundary
    (Nat.lt_add_of_pos_right filled)

/-- The anchor stands in front of the name, the parameters behind it. -/
theorem enclosed_of
    (declared : declaration ∈ Declaration.parse text) :
    (of text declaration).selection.Within (of text declaration).range := by
  have placed := Declaration.placed_of_mem_parse declared
  obtain ⟨starts, stops⟩ := Declaration.isBoundary_span declared
  have inFront : declaration.span.start ≤ declaration.nameSpan.start :=
    Nat.le_of_lt placed.start_lt_nameStart
  have behind : declaration.nameSpan.stop ≤ declaration.span.stop :=
    calc
      declaration.nameSpan.stop ≤ declaration.paramsOpen := placed.name_le_paramsOpen
      _ ≤ declaration.paramsClose := Nat.le_of_lt placed.paramsOpen_lt_paramsClose
      _ ≤ declaration.stop := Nat.le_of_lt placed.paramsClose_lt_stop
  exact ⟨positionOf_eq_or_precedes starts placed.nameStart_boundary inFront,
    positionOf_eq_or_precedes placed.nameStop_boundary stops behind⟩

end Symbol

/-- The ranges of an outline are not empty and follow one another. -/
theorem successive_outline
    (text : Text) :
    Range.Successive ((outline text).map (·.range)) := by
  have bounded :
      ∀ span ∈ (Declaration.parse text).map Declaration.span,
        isBoundary span.start text = true ∧ isBoundary span.stop text = true := by
    intro span member
    obtain ⟨declaration, declared, rfl⟩ := List.mem_map.mp member
    exact Declaration.isBoundary_span declared
  have successive := (Declaration.separate_spans text).successive bounded
  rw [List.map_map] at successive
  rw [outline_eq_map, List.map_map]
  exact successive

/--
The outline of a text is one that a client can accept.

It has one symbol for each declaration, in the order of the declarations, and
the ranges of the symbol are those of the declaration and of its name. As
positions, each selection is not empty and lies inside the range of its symbol,
and each range ends before the next one starts or where it starts.
-/
theorem outline_acceptable
    (text : Text) :
    List.Forall₂ (Symbol.Represents text) (outline text) (Declaration.parse text) ∧
      Symbol.Acceptable (outline text) := by
  constructor
  · rw [outline_eq_map, List.forall₂_map_left_iff, List.forall₂_same]
    exact fun declaration declared => Symbol.represents_of declared
  · refine ⟨?_, ?_, successive_outline text⟩
    all_goals
      intro symbol member
      obtain ⟨declaration, declared, rfl⟩ := List.mem_map.mp member
    · exact Symbol.selected_of declared
    · exact Symbol.enclosed_of declared

/--
Two units for one character, ranges that meet, a statement that is cut off by
the next one, an anchor over two lines, and a carriage return at the end.
-/
def adjoining : Text :=
  ("/*😀*/create function \"é😀\"(a) is create procedure g(b) as CREATE FUNCTION p(\n" ++
    "CREATE OR REPLACE\r\nPROCEDURE b.q(x) is\r").toList

theorem outline_acceptable_adjoining :
    (outline adjoining).map (fun symbol => (symbol.range, symbol.selection)) =
        [(⟨⟨0, 6⟩, ⟨0, 34⟩⟩, ⟨⟨0, 22⟩, ⟨0, 27⟩⟩), (⟨⟨0, 34⟩, ⟨0, 59⟩⟩, ⟨⟨0, 51⟩, ⟨0, 52⟩⟩),
          (⟨⟨1, 0⟩, ⟨2, 20⟩⟩, ⟨⟨2, 10⟩, ⟨2, 13⟩⟩)] ∧
      List.Forall₂ (Symbol.Represents adjoining) (outline adjoining)
          (Declaration.parse adjoining) ∧
        Symbol.Acceptable (outline adjoining) :=
  ⟨by decide +kernel, outline_acceptable adjoining⟩

end Navigation

end RoutineServer
