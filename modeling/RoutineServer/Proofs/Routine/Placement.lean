import Mathlib.Data.List.Pairwise
import RoutineServer.Proofs.Routine.Mask

namespace RoutineServer

/-!
# Where declarations stand

The fields of a declaration point at the text that they were read from: the
name, the two parentheses and the parameters between them. Declarations follow
one another in the order of the text without overlap, and a declaration holds
no anchor but its own. This is so for every text, however malformed.
-/

namespace Segment

/-- A segment starts with the words of its anchor. -/
theorem start_lt_regionStart
    {text : Text}
    {segment : Segment}
    (member : segment ∈ segments text) :
    segment.start < segment.regionStart := by
  obtain ⟨front, tail, anchor, -, -, found, isSegment⟩ := exists_anchor_of_mem member
  obtain ⟨_, _, _, wordsLength, _⟩ := segmentsFrom_eq_cons segment.start found isSegment
  obtain ⟨-, first, inner, rest, -, length, -⟩ := Anchor.at?_eq_some found
  cases words : segment.words with
  | nil =>
      rw [words, length] at wordsLength
      cases wordsLength
  | cons glyph more =>
      have size := Char.utf8Size_pos glyph.char
      rw [regionStart, words, Glyph.byteLength_cons]
      omega

/-- One of two segments ends before the other starts. -/
def Apart (first second : Segment) : Prop :=
  first.limit ≤ second.start ∨ second.limit ≤ first.start

instance : Std.Symm Apart where
  symm _ _ := Or.symm

/-- Different segments of a document are apart. -/
theorem apart_of_ne
    {text : Text}
    {segment other : Segment}
    (member : segment ∈ segments text)
    (otherMember : other ∈ segments text)
    (different : segment ≠ other) :
    Apart segment other := by
  have ordered := (chained_segmentsFrom 0 none (scan text)).pairwise
  have pairs : (segments text).Pairwise Apart := ordered.imp .inl
  exact pairs.forall member otherMember different

/-- Inside a segment, no anchor stands in the mask but its own. -/
theorem startsAt_eq_false
    {text : Text}
    {segment : Segment}
    {offset : Nat}
    (member : segment ∈ segments text)
    (behind : segment.start < offset)
    (within : offset < segment.limit) :
    Anchor.startsAt (maskedText text) offset = false := by
  by_contra anchored
  rw [Bool.not_eq_false] at anchored
  obtain ⟨other, otherMember, rfl⟩ := startsAt_maskedText_iff.mp anchored
  have different : segment ≠ other := by
    rintro rfl
    exact Nat.lt_irrefl _ behind
  have otherReaches : other.start ≤ other.limit := by
    simp only [limit, regionStart]
    omega
  rcases apart_of_ne member otherMember different with before | after
  · omega
  · omega

/-- A declaration keeps within its segment, and its name is the normal form of its spelling. -/
structure Frames (segment : Segment) (declaration : Declaration) : Prop where
  start_eq : declaration.start = segment.start
  regionStart_le : segment.regionStart ≤ declaration.nameStart
  paramsClose_lt : declaration.paramsClose < declaration.stop
  stop_le : declaration.stop ≤ segment.limit
  normalized : declaration.name = Name.normalize declaration.spelling
  named : declaration.name ≠ []

theorem frames_of_declaration?
    {segment : Segment}
    {declaration : Declaration}
    (declares : segment.declaration? = some declaration) :
    Frames segment declaration := by
  obtain ⟨⟨_, count⟩, read, rfl⟩ := Option.map_eq_some_iff.mp declares
  obtain ⟨parts, region, rfl, named, -⟩ := exists_parts read
  have openingSize : Char.utf8Size '(' = 1 := by decide
  have closingSize : Char.utf8Size ')' = 1 := by decide
  refine ⟨rfl, Nat.le_add_right _ _, ?_, ?_, rfl, named⟩
  · simp only [Parts.declaration]
    omega
  · simp only [limit, region, Parts.glyphs, Parts.declaration, Glyph.byteLength_append,
      Glyph.byteLength_cons, openingSize, closingSize]
    omega

end Segment

namespace Declaration

/-- The fields of a declaration say where it stands in a text. -/
structure Placed (text : Text) (declaration : Declaration) : Prop where
  start_lt_nameStart : declaration.start < declaration.nameStart
  name_le_paramsOpen : declaration.nameSpan.stop ≤ declaration.paramsOpen
  paramsOpen_lt_paramsClose : declaration.paramsOpen < declaration.paramsClose
  paramsClose_lt_stop : declaration.paramsClose < declaration.stop
  stop_le : declaration.stop ≤ Text.byteLength text
  nameStart_boundary : Text.isBoundary declaration.nameSpan.start text = true
  nameStop_boundary : Text.isBoundary declaration.nameSpan.stop text = true
  spelled : Text.slice declaration.nameSpan text = declaration.spelling
  opened : Text.charAt? declaration.paramsOpen text = some '('
  closed : Text.charAt? declaration.paramsClose text = some ')'
  enclosed :
    Text.slice ⟨declaration.paramsOpen + 1, declaration.paramsClose⟩ text =
      declaration.parameters
  normalized : declaration.name = Name.normalize declaration.spelling
  named : declaration.name ≠ []
  anchored : Anchor.startsAt (maskedText text) declaration.start = true
  /-- The anchor at the start is the only one. -/
  alone :
    ∀ offset, declaration.start < offset → offset < declaration.stop →
      Anchor.startsAt (maskedText text) offset = false

/-- The text around a declaration, in pieces. -/
structure Pieces (text : Text) (declaration : Declaration) where
  /-- All that lies in front of the name. -/
  lead : Text
  gap : Text
  /-- All that lies behind the parameters. -/
  tail : Text
  whole :
    text =
      lead ++ (declaration.spelling ++ (gap ++ '(' :: (declaration.parameters ++ ')' :: tail)))
  nameStart_eq : declaration.nameStart = Text.byteLength lead
  paramsOpen_eq :
    declaration.paramsOpen = Text.byteLength (lead ++ (declaration.spelling ++ gap))
  paramsClose_eq :
    declaration.paramsClose = declaration.paramsOpen + 1 + Text.byteLength declaration.parameters

/-- The declaration of a segment takes the text apart. -/
theorem exists_pieces
    {text : Text}
    {segment : Segment}
    {declaration : Declaration}
    {front back : List Glyph}
    (stands : Segment.Stands text segment front back)
    (declares : segment.declaration? = some declaration) :
    Nonempty (Pieces text declaration) := by
  obtain ⟨⟨_, count⟩, read, rfl⟩ := Option.map_eq_some_iff.mp declares
  obtain ⟨parts, region, rfl, -, -⟩ := Segment.exists_parts read
  have start := stands.start_eq
  refine ⟨{
    lead := Glyph.chars (front ++ (segment.words ++ parts.blanks))
    gap := Glyph.chars parts.gap
    tail := Glyph.chars (parts.body ++ (parts.rest ++ back))
    whole := ?_
    nameStart_eq := ?_
    paramsOpen_eq := ?_
    paramsClose_eq := rfl
  }⟩
  · rw [← Glyph.chars_scan text, stands.whole, region]
    simp [Segment.Parts.glyphs, Segment.Parts.declaration]
  · simp [Segment.Parts.declaration, Segment.regionStart, start, Glyph.byteLength, Nat.add_assoc]
  · simp [Segment.Parts.declaration, Segment.regionStart, start, Glyph.byteLength, Nat.add_assoc]

namespace Pieces

variable {text : Text} {declaration : Declaration}

theorem nameStop_eq
    (pieces : Pieces text declaration) :
    declaration.nameSpan.stop = Text.byteLength (pieces.lead ++ declaration.spelling) := by
  rw [nameSpan, pieces.nameStart_eq, Text.byteLength_append]

theorem slice_nameSpan
    (pieces : Pieces text declaration) :
    Text.slice declaration.nameSpan text = declaration.spelling :=
  Text.slice_eq pieces.whole pieces.nameStart_eq rfl

theorem isBoundary_nameStart
    (pieces : Pieces text declaration) :
    Text.isBoundary declaration.nameSpan.start text = true :=
  Text.isBoundary_iff.mpr ⟨pieces.lead, _, pieces.whole, pieces.nameStart_eq.symm⟩

theorem isBoundary_nameStop
    (pieces : Pieces text declaration) :
    Text.isBoundary declaration.nameSpan.stop text = true := by
  have whole := pieces.whole
  rw [← List.append_assoc] at whole
  exact Text.isBoundary_iff.mpr ⟨_, _, whole, pieces.nameStop_eq.symm⟩

theorem charAt?_paramsOpen
    (pieces : Pieces text declaration) :
    Text.charAt? declaration.paramsOpen text = some '(' := by
  have whole :
      text =
        (pieces.lead ++ (declaration.spelling ++ pieces.gap)) ++ '(' ::
          (declaration.parameters ++ ')' :: pieces.tail) := by
    simpa using pieces.whole
  exact Text.charAt?_eq whole pieces.paramsOpen_eq

/-- What stands between the parentheses, and the closing one behind it. -/
theorem slice_parameters
    (pieces : Pieces text declaration) :
    Text.slice ⟨declaration.paramsOpen + 1, declaration.paramsClose⟩ text =
        declaration.parameters ∧
      Text.charAt? declaration.paramsClose text = some ')' := by
  have opening :
      declaration.paramsOpen + 1 =
        Text.byteLength (pieces.lead ++ (declaration.spelling ++ (pieces.gap ++ ['(']))) := by
    have size : Char.utf8Size '(' = 1 := by decide
    simp [pieces.paramsOpen_eq, size, Nat.add_assoc]
  have whole :
      text =
        (pieces.lead ++ (declaration.spelling ++ (pieces.gap ++ ['(']))) ++
          (declaration.parameters ++ ')' :: pieces.tail) := by
    simpa using pieces.whole
  refine ⟨Text.slice_eq whole opening pieces.paramsClose_eq, ?_⟩
  rw [← List.append_assoc] at whole
  refine Text.charAt?_eq whole ?_
  rw [pieces.paramsClose_eq, opening, ← Text.byteLength_append]

end Pieces

/-- The declaration of a segment stands where its fields say. -/
theorem placed_of_declaration?
    {text : Text}
    {segment : Segment}
    {declaration : Declaration}
    (member : segment ∈ Segment.segments text)
    (declares : segment.declaration? = some declaration) :
    Placed text declaration := by
  have frames := Segment.frames_of_declaration? declares
  have startsBefore := Segment.start_lt_regionStart member
  obtain ⟨front, back, stands⟩ := Segment.exists_stands member
  obtain ⟨pieces⟩ := exists_pieces stands declares
  obtain ⟨enclosed, closed⟩ := pieces.slice_parameters
  exact {
    start_lt_nameStart := by
      rw [frames.start_eq]
      exact Nat.lt_of_lt_of_le startsBefore frames.regionStart_le
    name_le_paramsOpen := by
      rw [pieces.nameStop_eq, pieces.paramsOpen_eq, ← List.append_assoc,
        Text.byteLength_append _ pieces.gap]
      exact Nat.le_add_right _ _
    paramsOpen_lt_paramsClose := by
      rw [pieces.paramsClose_eq]
      omega
    paramsClose_lt_stop := frames.paramsClose_lt
    stop_le := Nat.le_trans frames.stop_le stands.limit_le
    nameStart_boundary := pieces.isBoundary_nameStart
    nameStop_boundary := pieces.isBoundary_nameStop
    spelled := pieces.slice_nameSpan
    opened := pieces.charAt?_paramsOpen
    closed := closed
    enclosed := enclosed
    normalized := frames.normalized
    named := frames.named
    anchored := Segment.startsAt_maskedText_iff.mpr ⟨segment, member, frames.start_eq.symm⟩
    alone := by
      intro offset behind within
      rw [frames.start_eq] at behind
      exact Segment.startsAt_eq_false member behind (Nat.lt_of_lt_of_le within frames.stop_le)
  }

/-- Declarations stand where their fields say, in order and without overlap. -/
theorem parse_placed_in_order
    (text : Text) :
    (∀ declaration ∈ parse text, Placed text declaration) ∧
      (parse text).Pairwise fun first second => first.stop ≤ second.start := by
  rw [parse_eq_segments]
  constructor
  · intro declaration member
    obtain ⟨segment, segmentMember, declares⟩ := List.mem_filterMap.mp member
    exact placed_of_declaration? segmentMember declares
  · have ordered := (Segment.chained_segmentsFrom 0 none (scan text)).pairwise
    refine ordered.filterMap Segment.declaration? ?_
    intro first second before firstDeclaration firstDeclares secondDeclaration secondDeclares
    calc
      firstDeclaration.stop
          ≤ first.limit := (Segment.frames_of_declaration? firstDeclares).stop_le
      _ ≤ second.start := before
      _ = secondDeclaration.start := (Segment.frames_of_declaration? secondDeclares).start_eq.symm

/--
A quoted name, a parameter list that is cut off by the next anchor, and a body
without an end.
-/
def cutOff : Text :=
  ("-- ü\ncreate function \"é\"\"(\"(a text) begin end;\n" ++
    "create procedure p(\nCREATE OR REPLACE PROCEDURE b.q(x) is").toList

theorem parse_placed_in_order_cutOff :
    (parse cutOff).map (fun declaration => (declaration.start, declaration.stop)) =
        [(6, 48), (69, 106)] ∧
      (∃ declaration ∈ parse cutOff,
        declaration.name = "é\"(".toList ∧ Placed cutOff declaration) ∧
      (parse cutOff).Pairwise fun first second => first.stop ≤ second.start := by
  have ordered := parse_placed_in_order cutOff
  obtain ⟨declaration, member, name⟩ :
      ∃ declaration ∈ parse cutOff, declaration.name = "é\"(".toList := by
    decide +kernel
  exact ⟨by decide +kernel, ⟨declaration, member, name, ordered.1 declaration member⟩, ordered.2⟩

end Declaration

end RoutineServer
