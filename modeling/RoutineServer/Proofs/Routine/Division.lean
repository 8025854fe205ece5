import RoutineServer.Proofs.Routine.Segment

namespace RoutineServer

/-!
# The division of a document into segments

Every anchor of a document starts a segment, and each segment ends where the
next one starts. The search for declarations walks through these segments: its
jumps over an anchor or over a declaration never pass the start of another
segment.
-/

namespace Segment

/--
The segments from a place of a document on: the arguments are the byte offset
of the place, the character in front of it and the glyphs from there on.
-/
def segmentsFrom : Nat → Option Char → List Glyph → List Segment
  | _, _, [] => []
  | offset, previous, glyph :: rest =>
      let later := segmentsFrom (offset + glyph.char.utf8Size) (some glyph.shown) rest
      match Anchor.at? previous (Glyph.code (glyph :: rest)) with
      | none => later
      | some anchor => of anchor offset (glyph :: rest) :: later

/-- The segments of a document. -/
def segments (text : Text) : List Segment :=
  segmentsFrom 0 none (scan text)

/-- No segment starts before the place where the search starts. -/
theorem le_start_of_mem
    {offset : Nat}
    {previous : Option Char}
    {glyphs : List Glyph}
    {segment : Segment}
    (member : segment ∈ segmentsFrom offset previous glyphs) :
    offset ≤ segment.start := by
  induction glyphs generalizing offset previous with
  | nil =>
      cases member
  | cons glyph rest inductionHypothesis =>
      have later
          (inLater :
            segment ∈
              segmentsFrom (offset + glyph.char.utf8Size) (some glyph.shown) rest) :
          offset ≤ segment.start :=
        Nat.le_trans (Nat.le_add_right _ _) (inductionHypothesis inLater)
      rw [segmentsFrom] at member
      cases found : Anchor.at? previous (Glyph.code (glyph :: rest)) with
      | none =>
          rw [found] at member
          exact later member
      | some anchor =>
          rw [found] at member
          rcases List.mem_cons.mp member with isFirst | inLater
          · subst segment
            exact Nat.le_refl offset
          · exact later inLater

/-- A clear stretch holds no segment's start. -/
theorem segmentsFrom_drop
    {previous : Option Char}
    {count : Nat}
    {glyphs : List Glyph}
    (offset : Nat)
    (clear : Anchor.Clear previous count (Glyph.code glyphs)) :
    segmentsFrom offset previous glyphs =
      segmentsFrom (offset + Glyph.byteLength (glyphs.take count))
        (Text.previousAfter previous (Glyph.code (glyphs.take count))) (glyphs.drop count) := by
  induction glyphs generalizing offset previous count with
  | nil =>
      simp [segmentsFrom]
  | cons glyph rest inductionHypothesis =>
      cases count with
      | zero =>
          simp
      | succ less =>
          have none : Anchor.at? previous (Glyph.code (glyph :: rest)) = none := clear.1
          rw [segmentsFrom, none]
          simp only [List.take_succ_cons, List.drop_succ_cons, Glyph.byteLength_cons,
            Glyph.code_cons, Text.previousAfter_cons, ← Nat.add_assoc]
          exact inductionHypothesis _ clear.2

/-- A clear stretch can be skipped in the search for declarations. -/
theorem parseFrom_skip
    {previous : Option Char}
    {skip : Nat}
    {glyphs : List Glyph}
    (offset : Nat)
    (clear : Anchor.Clear previous skip (Glyph.code glyphs)) :
    Declaration.parseFrom offset previous skip glyphs =
      Declaration.parseFrom offset previous 0 glyphs := by
  induction glyphs generalizing offset previous skip with
  | nil =>
      simp [Declaration.parseFrom]
  | cons glyph rest inductionHypothesis =>
      cases skip with
      | zero =>
          rfl
      | succ less =>
          have none : Anchor.at? previous (Glyph.code (glyph :: rest)) = none := clear.1
          rw [Declaration.parseFrom, Declaration.parseFrom, none]
          exact inductionHypothesis _ clear.2

/-- Behind the start of a segment, no anchor starts before its end. -/
theorem clear_of
    {previous : Option Char}
    {glyph : Glyph}
    {rest : List Glyph}
    {anchor : Anchor}
    (start : Nat)
    (found : Anchor.at? previous (Glyph.code (glyph :: rest)) = some anchor) :
    Anchor.Clear (some glyph.shown)
      (anchor.length - 1 + (of anchor start (glyph :: rest)).region.length)
      (Glyph.code rest) := by
  rw [Glyph.code_cons] at found
  have clear := Anchor.clear_of_at?_eq_some found
  rw [← Glyph.code_cons, ← Glyph.code_take, ← Glyph.code_drop] at clear
  apply clear.mono
  simp only [of, List.length_take]
  omega

/-- The declarations from a place of a document on are those of the segments from there on. -/
theorem parseFrom_eq_segments
    {glyphs : List Glyph}
    (offset : Nat)
    (previous : Option Char)
    (scanned : Scanned glyphs) :
    Declaration.parseFrom offset previous 0 glyphs =
      (segmentsFrom offset previous glyphs).filterMap declaration? := by
  induction glyphs generalizing offset previous with
  | nil =>
      rfl
  | cons glyph rest inductionHypothesis =>
      have later := fun next => inductionHypothesis next (some glyph.shown) scanned.tail
      rw [Declaration.parseFrom, segmentsFrom]
      cases found : Anchor.at? previous (Glyph.code (glyph :: rest)) with
      | none =>
          exact later _
      | some anchor =>
          have clear := clear_of offset found
          -- However far the search skips, no anchor is passed over before the region's end.
          have skips
              (skip : Nat)
              (within :
                skip ≤ anchor.length - 1 + (of anchor offset (glyph :: rest)).region.length) :
              Declaration.parseFrom (offset + glyph.char.utf8Size) (some glyph.shown) skip rest =
                (segmentsFrom (offset + glyph.char.utf8Size) (some glyph.shown) rest).filterMap
                  declaration? :=
            (parseFrom_skip _ (clear.mono within)).trans (later _)
          simp only [read?_of offset scanned, List.filterMap_cons, declaration?]
          cases read : (of anchor offset (glyph :: rest)).read? with
          | none =>
              exact skips _ (by omega)
          | some result =>
              obtain ⟨declaration, count⟩ := result
              obtain ⟨-, -, -, -, within⟩ := exists_parts read
              simp only [Option.map_some]
              rw [skips _ (by omega)]

/-- Behind the region of an anchor the next anchor stands, or nothing is left. -/
theorem exists_behind
    (anchor : Anchor)
    (offset : Nat)
    (glyphs : List Glyph) :
    ∃ back,
      glyphs =
          (of anchor offset glyphs).words ++ ((of anchor offset glyphs).region ++ back) ∧
        (back = [] ∨
          (Anchor.at?
            (Text.previousAfter (Glyph.code (of anchor offset glyphs).words).getLast?
              (Glyph.code (of anchor offset glyphs).region))
            (Glyph.code back)).isSome = true) := by
  have stops :=
    Anchor.at?_drop_distance (Glyph.code (glyphs.take anchor.length)).getLast?
      (Glyph.code (glyphs.drop anchor.length))
  rw [← Glyph.code_drop, ← Glyph.code_take] at stops
  refine ⟨_, ?_, stops.imp_left fun nothing => by simpa [Glyph.code] using nothing⟩
  simp only [of, List.take_append_drop]

/--
Where an anchor stands, its segment is the first one, and the others are those of
what lies behind it. There the next anchor stands, or nothing is left.
-/
theorem segmentsFrom_eq_cons
    {previous : Option Char}
    {glyphs : List Glyph}
    {anchor : Anchor}
    {segment : Segment}
    (offset : Nat)
    (found : Anchor.at? previous (Glyph.code glyphs) = some anchor)
    (isSegment : of anchor offset glyphs = segment) :
    ∃ back next,
      glyphs = segment.words ++ (segment.region ++ back) ∧
        segment.words.length = anchor.length ∧
          segmentsFrom offset previous glyphs =
              segment :: segmentsFrom segment.limit next back ∧
            next = Text.previousAfter previous (Glyph.code (segment.words ++ segment.region)) ∧
              (back = [] ∨ (Anchor.at? next (Glyph.code back)).isSome = true) := by
  obtain ⟨-, first, inner, following, codeShape, length, -⟩ := Anchor.at?_eq_some found
  have size := congrArg List.length codeShape
  simp only [Glyph.length_code, List.length_cons, List.length_append] at size
  cases glyphs with
  | nil =>
      simp at size
  | cons glyph rest =>
      have clear := clear_of offset found
      rw [isSegment] at clear
      obtain ⟨back, shape, stops⟩ := exists_behind anchor offset (glyph :: rest)
      rw [isSegment] at shape stops
      have wordsLength : segment.words.length = anchor.length := by
        subst segment
        simp only [of, List.length_take, List.length_cons] at size ⊢
        omega
      have segmentStart : segment.start = offset := by
        subst segment
        rfl
      cases words : segment.words with
      | nil =>
          rw [words, List.length_nil] at wordsLength
          omega
      | cons firstWord moreWords =>
          rw [words] at shape wordsLength stops
          rw [List.cons_append, List.cons.injEq] at shape
          obtain ⟨rfl, rfl⟩ := shape
          have count :
              anchor.length - 1 + segment.region.length =
                (moreWords ++ segment.region).length := by
            rw [← wordsLength, List.length_cons, List.length_append]
            omega
          rw [count, ← List.append_assoc] at clear
          refine ⟨back, _, by simp, wordsLength, ?_, rfl, ?_⟩
          · rw [segmentsFrom, found]
            simp only [isSegment, List.cons.injEq, true_and]
            rw [← List.append_assoc, segmentsFrom_drop _ clear, List.take_left, List.drop_left,
              limit, regionStart, words, segmentStart]
            simp [Nat.add_assoc]
          · refine stops.imp_right fun anchored => ?_
            simpa [Text.previousAfter_append, ← Text.previousAfter_none] using anchored

/-- Each segment ends where the next one starts, the last one at the given place. -/
def Chained (stop : Nat) : List Segment → Prop
  | [] => True
  | segment :: later =>
      segment.limit = (later.head?.map start).getD stop ∧ Chained stop later

/-- The segments of a document follow one another without a gap. -/
theorem chained_segmentsFrom
    (offset : Nat)
    (previous : Option Char)
    (glyphs : List Glyph) :
    Chained (offset + Glyph.byteLength glyphs) (segmentsFrom offset previous glyphs) := by
  induction glyphs generalizing offset previous with
  | nil =>
      trivial
  | cons glyph rest inductionHypothesis =>
      have later := inductionHypothesis (offset + glyph.char.utf8Size) (some glyph.shown)
      rw [Nat.add_assoc, ← Glyph.byteLength_cons] at later
      cases found : Anchor.at? previous (Glyph.code (glyph :: rest)) with
      | none =>
          rw [segmentsFrom, found]
          exact later
      | some anchor =>
          obtain ⟨back, next, shape, -, divided, -, stops⟩ :=
            segmentsFrom_eq_cons offset found rfl
          have sameTail := divided
          rw [segmentsFrom, found, List.cons.injEq] at sameTail
          rw [divided]
          refine ⟨?_, by rwa [← sameTail.2]⟩
          cases back with
          | nil =>
              have total := congrArg Glyph.byteLength shape
              simp only [Glyph.byteLength_append, Glyph.byteLength_nil] at total
              simp only [segmentsFrom, List.head?_nil, Option.map_none, Option.getD_none, limit,
                regionStart]
              rw [total]
              simp [of, Nat.add_assoc]
          | cons following more =>
              obtain ⟨nextAnchor, anchored⟩ :=
                Option.isSome_iff_exists.mp (stops.resolve_left (by simp))
              rw [segmentsFrom, anchored]
              rfl

/-- Segments that follow one another without a gap are in order and apart. -/
theorem Chained.pairwise
    {stop : Nat}
    {segments : List Segment}
    (chained : Chained stop segments) :
    segments.Pairwise fun first second => first.limit ≤ second.start := by
  induction segments with
  | nil =>
      exact .nil
  | cons segment later inductionHypothesis =>
      have ordered := inductionHypothesis chained.2
      refine .cons ?_ ordered
      cases later with
      | nil =>
          simp
      | cons next more =>
          have meets : segment.limit = next.start := chained.1
          have nextReaches : next.start ≤ next.limit := by
            simp only [limit, regionStart]
            omega
          intro other member
          rcases List.mem_cons.mp member with isNext | inMore
          · rw [isNext, meets]
          · have behind := (List.pairwise_cons.mp ordered).1 other inMore
            omega

/-- Every segment is that of an anchor at its start. -/
theorem exists_anchor_of_mem
    {offset : Nat}
    {previous : Option Char}
    {glyphs : List Glyph}
    {segment : Segment}
    (member : segment ∈ segmentsFrom offset previous glyphs) :
    ∃ front back anchor,
      glyphs = front ++ back ∧
        segment.start = offset + Glyph.byteLength front ∧
          Anchor.at? (Text.previousAfter previous (Glyph.code front)) (Glyph.code back) =
              some anchor ∧
            of anchor segment.start back = segment := by
  induction glyphs generalizing offset previous with
  | nil =>
      cases member
  | cons glyph rest inductionHypothesis =>
      have later
          (inLater :
            segment ∈
              segmentsFrom (offset + glyph.char.utf8Size) (some glyph.shown) rest) :
          ∃ front back anchor,
            glyph :: rest = front ++ back ∧
              segment.start = offset + Glyph.byteLength front ∧
                Anchor.at? (Text.previousAfter previous (Glyph.code front)) (Glyph.code back) =
                    some anchor ∧
                  of anchor segment.start back = segment := by
        obtain ⟨front, back, anchor, shape, start, found, isSegment⟩ := inductionHypothesis inLater
        refine ⟨glyph :: front, back, anchor, by rw [shape]; rfl, ?_, ?_, isSegment⟩
        · rw [start, Glyph.byteLength_cons, Nat.add_assoc]
        · rwa [Glyph.code_cons, Text.previousAfter_cons]
      cases found : Anchor.at? previous (Glyph.code (glyph :: rest)) with
      | none =>
          rw [segmentsFrom, found] at member
          exact later member
      | some anchor =>
          rw [segmentsFrom, found] at member
          rcases List.mem_cons.mp member with isFirst | inLater
          · have start : segment.start = offset := by
              rw [isFirst]
              rfl
            refine ⟨[], glyph :: rest, anchor, rfl, start, found, ?_⟩
            rw [start, isFirst]
          · exact later inLater

/-- A segment stands in a document between the given glyphs. -/
structure Stands (text : Text) (segment : Segment) (front back : List Glyph) : Prop where
  whole : scan text = front ++ (segment.words ++ (segment.region ++ back))
  start_eq : segment.start = Glyph.byteLength front

/-- The segments of a document stand in it. -/
theorem exists_stands
    {text : Text}
    {segment : Segment}
    (member : segment ∈ segments text) :
    ∃ front back, Stands text segment front back := by
  obtain ⟨front, tail, anchor, whole, start, found, isSegment⟩ := exists_anchor_of_mem member
  obtain ⟨back, _, shape, _⟩ := segmentsFrom_eq_cons segment.start found isSegment
  exact ⟨front, back, by rw [whole, ← shape], by rw [start, Nat.zero_add]⟩

theorem Stands.limit_le
    {text : Text}
    {segment : Segment}
    {front back : List Glyph}
    (stands : Stands text segment front back) :
    segment.limit ≤ Text.byteLength text := by
  rw [← Glyph.byteLength_scan, stands.whole, limit, regionStart, stands.start_eq]
  simp only [Glyph.byteLength_append]
  omega

end Segment

/-- The declarations of a document are those of its segments. -/
theorem Declaration.parse_eq_segments
    (text : Text) :
    Declaration.parse text = (Segment.segments text).filterMap Segment.declaration? :=
  Segment.parseFrom_eq_segments 0 none (.scan text)

end RoutineServer
