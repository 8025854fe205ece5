import Mathlib.Data.List.Forall2
import RoutineServer.Proofs.Routine.Division

namespace RoutineServer

/-!
# Glyphs that differ in what is hidden

Two lists of glyphs are aligned when they agree but for runs of hidden glyphs
that take up the same bytes. Hidden glyphs are shown as blanks, so aligned lists
have the same anchors at the same byte offsets, and so the same segments. The
runs may hold different numbers of characters; places are therefore compared by
what is left behind them.
-/

/-- Related answers stay related when related steps follow. -/
theorem optionRel_bind
    {related : α → β → Prop}
    {relatedAfter : γ → δ → Prop}
    {first : Option α}
    {second : Option β}
    {firstStep : α → Option γ}
    {secondStep : β → Option δ}
    (answers : Option.Rel related first second)
    (steps :
      ∀ left right, related left right →
        Option.Rel relatedAfter (firstStep left) (secondStep right)) :
    Option.Rel relatedAfter (first.bind firstStep) (second.bind secondStep) := by
  cases answers with
  | none => exact .none
  | some values => exact steps _ _ values

/-- Related answers are related in every weaker way, after any change to both. -/
theorem optionRel_map
    {related : α → β → Prop}
    {relatedAfter : γ → δ → Prop}
    {first : Option α}
    {second : Option β}
    {firstChange : α → γ}
    {secondChange : β → δ}
    (answers : Option.Rel related first second)
    (changes :
      ∀ left right, related left right →
        relatedAfter (firstChange left) (secondChange right)) :
    Option.Rel relatedAfter (first.map firstChange) (second.map secondChange) := by
  cases answers with
  | none => exact .none
  | some values => exact .some (changes _ _ values)

/-- A choice of glyphs that the mask shows as blanks. -/
structure Veil where
  hides : Glyph → Prop
  shown_of_hides : ∀ {glyph}, hides glyph → glyph.shown = ' ' ∨ glyph.shown = '\n'

namespace Veil

variable {veil : Veil} {glyph : Glyph}

/-- What a blank and a newline have in common, every hidden glyph is shown with. -/
theorem property_shown
    (property : Char → Bool)
    {value : Bool}
    (blank : property ' ' = value)
    (newline : property '\n' = value)
    (hidden : veil.hides glyph) :
    property glyph.shown = value := by
  rcases veil.shown_of_hides hidden with shown | shown
  · rw [shown]
    exact blank
  · rw [shown]
    exact newline

theorem isBlank_shown
    (hidden : veil.hides glyph) :
    isBlank glyph.shown = true :=
  property_shown isBlank (by decide) (by decide) hidden

theorem wordStart_shown
    (hidden : veil.hides glyph) :
    Text.wordStart (some glyph.shown) = true :=
  property_shown (fun char => Text.wordStart (some char)) (by decide) (by decide) hidden

/-- Behind a run of hidden glyphs a word can start. -/
theorem wordStart_previousAfter
    {run : List Glyph}
    (previous : Option Char)
    (nonempty : run ≠ [])
    (hidden : ∀ glyph ∈ run, veil.hides glyph) :
    Text.wordStart (Text.previousAfter previous (Glyph.code run)) = true := by
  have last : (Glyph.code run).getLast? = some (run.getLast nonempty).shown := by
    rw [Glyph.code, List.getLast?_map, List.getLast?_eq_some_getLast nonempty, Option.map_some]
  rw [Text.previousAfter, last, Option.some_or]
  exact wordStart_shown (hidden _ (List.getLast_mem nonempty))

end Veil

/-- Lists of glyphs that agree but for runs of hidden glyphs of the same size. -/
inductive Aligned (veil : Veil) : List Glyph → List Glyph → Prop where
  | nil :
      Aligned veil [] []
  | same
      (glyph : Glyph)
      {left right : List Glyph} :
      Aligned veil left right →
      Aligned veil (glyph :: left) (glyph :: right)
  | hidden
      {first second left right : List Glyph} :
      first ≠ [] →
      second ≠ [] →
      (∀ glyph ∈ first, veil.hides glyph) →
      (∀ glyph ∈ second, veil.hides glyph) →
      Glyph.byteLength first = Glyph.byteLength second →
      Aligned veil left right →
      Aligned veil (first ++ left) (second ++ right)

namespace Aligned

variable {veil : Veil} {left right : List Glyph}

theorem byteLength_eq
    (aligned : Aligned veil left right) :
    Glyph.byteLength left = Glyph.byteLength right := by
  induction aligned with
  | nil =>
      rfl
  | same glyph _ inductionHypothesis =>
      simp [inductionHypothesis]
  | hidden _ _ _ _ sameSize _ inductionHypothesis =>
      simp [sameSize, inductionHypothesis]

theorem isBlank_code
    {glyphs : List Glyph}
    (hidden : ∀ glyph ∈ glyphs, veil.hides glyph) :
    ∀ char ∈ Glyph.code glyphs, isBlank char = true := by
  intro char member
  obtain ⟨glyph, glyphMember, rfl⟩ := List.mem_map.mp member
  exact veil.isBlank_shown (hidden glyph glyphMember)

end Aligned

/-- Places in two lists behind which the lists are aligned. -/
structure Level (veil : Veil) (left right : List Glyph) (first second : Nat) : Prop where
  left_le : first ≤ left.length
  right_le : second ≤ right.length
  rest : Aligned veil (left.drop first) (right.drop second)

namespace Level

variable {veil : Veil} {left right : List Glyph}

theorem zero
    (aligned : Aligned veil left right) :
    Level veil left right 0 0 :=
  ⟨Nat.zero_le _, Nat.zero_le _, aligned⟩

theorem add
    {first second more others : Nat}
    (level : Level veil left right first second)
    (further : Level veil (left.drop first) (right.drop second) more others) :
    Level veil left right (first + more) (second + others) := by
  obtain ⟨leftWithin, rightWithin, rest⟩ := further
  rw [List.length_drop] at leftWithin rightWithin
  have firstWithin := level.left_le
  have secondWithin := level.right_le
  refine ⟨by omega, by omega, ?_⟩
  simpa [List.drop_drop] using rest

theorem same
    {first second : Nat}
    (glyph : Glyph)
    (level : Level veil left right first second) :
    Level veil (glyph :: left) (glyph :: right) (first + 1) (second + 1) :=
  ⟨Nat.succ_le_succ level.left_le, Nat.succ_le_succ level.right_le, level.rest⟩

theorem append
    {first second : Nat}
    (leftRun rightRun : List Glyph)
    (level : Level veil left right first second) :
    Level veil (leftRun ++ left) (rightRun ++ right)
      (leftRun.length + first) (rightRun.length + second) := by
  refine ⟨?_, ?_, ?_⟩
  · rw [List.length_append]
    exact Nat.add_le_add_left level.left_le _
  · rw [List.length_append]
    exact Nat.add_le_add_left level.right_le _
  · rw [← List.drop_drop, ← List.drop_drop, List.drop_left, List.drop_left]
    exact level.rest

/-- The same number of bytes lies in front of the two places. -/
theorem byteLength_take
    {first second : Nat}
    (level : Level veil left right first second)
    (aligned : Aligned veil left right) :
    Glyph.byteLength (left.take first) = Glyph.byteLength (right.take second) := by
  have total := aligned.byteLength_eq
  have behind := level.rest.byteLength_eq
  rw [← List.take_append_drop first left, ← List.take_append_drop second right,
    Glyph.byteLength_append, Glyph.byteLength_append] at total
  omega

end Level

/-- What is left of two lists behind places at the same level. -/
def Rests (veil : Veil) (left right : List Glyph) (first second : Text) : Prop :=
  ∃ leftPlace rightPlace,
    Level veil left right leftPlace rightPlace ∧
      first = Glyph.code (left.drop leftPlace) ∧
        second = Glyph.code (right.drop rightPlace)

/-- A step that takes something off a masked text and does the same with aligned glyphs. -/
def Blind (veil : Veil) (drop : Text → Option Text) : Prop :=
  ∀ left right : List Glyph,
    Aligned veil left right →
    Option.Rel (Rests veil left right) (drop (Glyph.code left)) (drop (Glyph.code right))

namespace Rests

variable {veil : Veil} {left right : List Glyph}

theorem whole
    (aligned : Aligned veil left right) :
    Rests veil left right (Glyph.code left) (Glyph.code right) :=
  ⟨0, 0, .zero aligned, rfl, rfl⟩

theorem same
    {first second : Text}
    (glyph : Glyph)
    (rests : Rests veil left right first second) :
    Rests veil (glyph :: left) (glyph :: right) first second := by
  obtain ⟨leftPlace, rightPlace, level, leftShape, rightShape⟩ := rests
  exact ⟨leftPlace + 1, rightPlace + 1, level.same glyph, leftShape, rightShape⟩

theorem append
    {first second : Text}
    (leftRun rightRun : List Glyph)
    (rests : Rests veil left right first second) :
    Rests veil (leftRun ++ left) (rightRun ++ right) first second := by
  obtain ⟨leftPlace, rightPlace, level, leftShape, rightShape⟩ := rests
  refine ⟨_, _, level.append leftRun rightRun, ?_, ?_⟩
  · rw [leftShape, ← List.drop_drop, List.drop_left]
  · rw [rightShape, ← List.drop_drop, List.drop_left]

theorem add
    {leftPlace rightPlace : Nat}
    {first second : Text}
    (level : Level veil left right leftPlace rightPlace)
    (rests : Rests veil (left.drop leftPlace) (right.drop rightPlace) first second) :
    Rests veil left right first second := by
  obtain ⟨leftMore, rightMore, further, leftShape, rightShape⟩ := rests
  refine ⟨_, _, level.add further, ?_, ?_⟩
  · rw [leftShape, List.drop_drop]
  · rw [rightShape, List.drop_drop]

end Rests

theorem rests_mono
    {veil : Veil}
    {left right moreLeft moreRight : List Glyph}
    {first second : Option Text}
    (answers : Option.Rel (Rests veil left right) first second)
    (lift :
      ∀ {leftRest rightRest},
        Rests veil left right leftRest rightRest →
          Rests veil moreLeft moreRight leftRest rightRest) :
    Option.Rel (Rests veil moreLeft moreRight) first second := by
  cases answers with
  | none => exact .none
  | some rests => exact .some (lift rests)

/-- A blind step after answers with related rests. -/
theorem Blind.bind_rests
    {veil : Veil}
    {left right : List Glyph}
    {first second : Option Text}
    {drop : Text → Option Text}
    (blind : Blind veil drop)
    (answers : Option.Rel (Rests veil left right) first second) :
    Option.Rel (Rests veil left right) (first.bind drop) (second.bind drop) := by
  apply optionRel_bind answers
  rintro _ _ ⟨leftPlace, rightPlace, level, rfl, rfl⟩
  exact rests_mono (blind _ _ level.rest) (Rests.add level)

theorem Blind.bind
    {veil : Veil}
    {first second : Text → Option Text}
    (firstBlind : Blind veil first)
    (secondBlind : Blind veil second) :
    Blind veil fun text => (first text).bind second :=
  fun _ _ aligned => secondBlind.bind_rests (firstBlind _ _ aligned)

/-- A plain letter is never hidden. -/
theorem Veil.not_sameFolded
    {veil : Veil}
    {glyph : Glyph}
    {expected : Char}
    (hidden : veil.hides glyph)
    (plain : isPlainLetter expected = true) :
    Text.sameFolded expected glyph.shown = false := by
  cases same : Text.sameFolded expected glyph.shown with
  | false =>
      rfl
  | true =>
      have letter := Text.isAlpha_of_sameFolded plain same
      have notBlank := not_isBlank_of_isAlpha letter
      rw [veil.isBlank_shown hidden] at notBlank
      cases notBlank

/-- Words of plain letters are taken off aligned glyphs alike. -/
theorem blind_dropFolded?
    {veil : Veil}
    {word : Text}
    (plain : isPlainWord word = true) :
    Blind veil (Text.dropFolded? word) := by
  intro left right aligned
  induction word generalizing left right with
  | nil =>
      exact .some (.whole aligned)
  | cons expected more inductionHypothesis =>
      simp only [isPlainWord, List.all_cons, Bool.and_eq_true] at plain
      cases aligned with
      | nil =>
          exact .none
      | same glyph rest =>
          simp only [Glyph.code_cons, Text.dropFolded?]
          split
          · exact rests_mono (inductionHypothesis plain.2 _ _ rest) (Rests.same glyph)
          · exact .none
      | @hidden first second _ _ firstNonempty secondNonempty firstHidden secondHidden _ rest =>
          obtain ⟨firstGlyph, firstMore, rfl⟩ := List.exists_cons_of_ne_nil firstNonempty
          obtain ⟨secondGlyph, secondMore, rfl⟩ := List.exists_cons_of_ne_nil secondNonempty
          have firstFails := Veil.not_sameFolded (firstHidden firstGlyph (by simp)) plain.1
          have secondFails := Veil.not_sameFolded (secondHidden secondGlyph (by simp)) plain.1
          simp only [List.cons_append, Glyph.code_cons, Text.dropFolded?, firstFails, secondFails]
          exact .none

/-- Trimming takes hidden glyphs off like other blanks. -/
theorem trimStart_aligned
    {veil : Veil}
    {left right : List Glyph}
    (aligned : Aligned veil left right) :
    Rests veil left right
      (Text.trimStart (Glyph.code left)) (Text.trimStart (Glyph.code right)) := by
  induction aligned with
  | nil =>
      exact .whole .nil
  | @same glyph left right rest inductionHypothesis =>
      simp only [Glyph.code_cons, Text.trimStart, List.dropWhile_cons]
      split
      · exact .same glyph inductionHypothesis
      · exact .whole (.same glyph rest)
  | @hidden first second _ _ _ _ firstHidden secondHidden _ _ inductionHypothesis =>
      simp only [Glyph.code_append, Text.trimStart,
        List.dropWhile_append_of_pos (Aligned.isBlank_code firstHidden),
        List.dropWhile_append_of_pos (Aligned.isBlank_code secondHidden)]
      exact .append first second inductionHypothesis

theorem blind_dropBlanks?
    {veil : Veil} :
    Blind veil Text.dropBlanks? := by
  intro left right aligned
  -- One blank is enough for the step; what it leaves is the trimmed text.
  have blankFirst
      {char : Char}
      {rest : Text}
      (blank : isBlank char = true) :
      Text.dropBlanks? (char :: rest) = some (Text.trimStart (char :: rest)) := by
    simp [Text.dropBlanks?, Text.trimStart, blank]
  have trimmed := trimStart_aligned aligned
  cases aligned with
  | nil =>
      exact .none
  | same glyph rest =>
      by_cases blank : isBlank glyph.shown = true
      · rw [Glyph.code_cons, Glyph.code_cons, blankFirst blank, blankFirst blank]
        exact .some trimmed
      · simp only [Glyph.code_cons, Text.dropBlanks?, blank]
        exact .none
  | @hidden first second _ _ firstNonempty secondNonempty firstHidden secondHidden _ rest =>
      obtain ⟨firstGlyph, firstMore, rfl⟩ := List.exists_cons_of_ne_nil firstNonempty
      obtain ⟨secondGlyph, secondMore, rfl⟩ := List.exists_cons_of_ne_nil secondNonempty
      have firstBlank := veil.isBlank_shown (firstHidden firstGlyph (by simp))
      have secondBlank := veil.isBlank_shown (secondHidden secondGlyph (by simp))
      simp only [List.cons_append, Glyph.code_cons] at trimmed ⊢
      rw [blankFirst firstBlank, blankFirst secondBlank]
      exact .some trimmed

theorem blind_dropWord
    {veil : Veil}
    {word : Text}
    (plain : isPlainWord word = true) :
    Blind veil fun text => (Text.dropFolded? word text).bind Text.dropBlanks? :=
  Blind.bind (blind_dropFolded? plain) blind_dropBlanks?

/-- Whether a word ends does not depend on what is hidden. -/
theorem wordEnd_aligned
    {veil : Veil}
    {left right : List Glyph}
    (aligned : Aligned veil left right) :
    Text.wordEnd (Glyph.code left) = Text.wordEnd (Glyph.code right) := by
  cases aligned with
  | nil =>
      rfl
  | same glyph rest =>
      rfl
  | @hidden first second _ _ firstNonempty secondNonempty firstHidden secondHidden _ rest =>
      obtain ⟨firstGlyph, firstMore, rfl⟩ := List.exists_cons_of_ne_nil firstNonempty
      obtain ⟨secondGlyph, secondMore, rfl⟩ := List.exists_cons_of_ne_nil secondNonempty
      exact (veil.wordStart_shown (firstHidden firstGlyph (by simp))).trans
        (veil.wordStart_shown (secondHidden secondGlyph (by simp))).symm

namespace Anchor

variable {veil : Veil} {left right : List Glyph}

/-- `or replace` is taken off aligned glyphs alike. -/
theorem blind_dropReplace? : Blind veil dropReplace? :=
  (blind_dropWord (by decide : isPlainWord "or".toList = true)).bind
    (blind_dropWord (by decide : isPlainWord "replace".toList = true))

/-- A kind with a rest, for each of two lists of glyphs. -/
def KindRests
    (veil : Veil)
    (left right : List Glyph)
    (first second : RoutineKind × Text) : Prop :=
  first.1 = second.1 ∧ Rests veil left right first.2 second.2

theorem dropKind?_aligned
    (aligned : Aligned veil left right) :
    Option.Rel (KindRests veil left right)
      (dropKind? (Glyph.code left)) (dropKind? (Glyph.code right)) := by
  have function : Option.Rel (Rests veil left right) _ _ :=
    blind_dropFolded? (by decide : isPlainWord "function".toList = true) _ _ aligned
  have procedure : Option.Rel (Rests veil left right) _ _ :=
    blind_dropFolded? (by decide : isPlainWord "procedure".toList = true) _ _ aligned
  simp only [dropKind?]
  generalize Text.dropFolded? "function".toList (Glyph.code left) = leftFunction at function ⊢
  generalize Text.dropFolded? "function".toList (Glyph.code right) = rightFunction at function ⊢
  cases function with
  | some rests => exact .some ⟨rfl, rests⟩
  | none => exact optionRel_map procedure fun _ _ rests => ⟨rfl, rests⟩

theorem rest?_aligned
    (aligned : Aligned veil left right) :
    Option.Rel (KindRests veil left right)
      (rest? (Glyph.code left)) (rest? (Glyph.code right)) := by
  have create :=
    blind_dropWord (by decide : isPlainWord "create".toList = true) left right aligned
  apply optionRel_bind create
  rintro _ _ ⟨leftPlace, rightPlace, level, rfl, rfl⟩
  -- What the kind is read from, with or without `or replace`.
  obtain ⟨leftMore, rightMore, further, leftShape, rightShape⟩ :
      Rests veil (left.drop leftPlace) (right.drop rightPlace)
        ((dropReplace? (Glyph.code (left.drop leftPlace))).getD
          (Glyph.code (left.drop leftPlace)))
        ((dropReplace? (Glyph.code (right.drop rightPlace))).getD
          (Glyph.code (right.drop rightPlace))) := by
    have replaced := blind_dropReplace? _ _ level.rest
    generalize dropReplace? (Glyph.code (left.drop leftPlace)) = leftReplaced at replaced ⊢
    generalize dropReplace? (Glyph.code (right.drop rightPlace)) = rightReplaced at replaced ⊢
    cases replaced with
    | none => exact .whole level.rest
    | some rests => exact rests
  rw [leftShape, rightShape]
  have kind := dropKind?_aligned further.rest
  generalize dropKind? (Glyph.code ((left.drop leftPlace).drop leftMore)) = leftKind at kind ⊢
  generalize dropKind? (Glyph.code ((right.drop rightPlace).drop rightMore)) = rightKind at kind ⊢
  cases kind with
  | none =>
      exact .none
  | @some leftFound rightFound found =>
      obtain ⟨sameKind, leftEnd, rightEnd, ends, leftRest, rightRest⟩ := found
      have sameEnd : Text.wordEnd leftFound.2 = Text.wordEnd rightFound.2 := by
        rw [leftRest, rightRest]
        exact wordEnd_aligned ends.rest
      simp only [Option.filter_some, sameEnd]
      split
      · exact .some
          ⟨sameKind, .add level (.add further ⟨leftEnd, rightEnd, ends, leftRest, rightRest⟩)⟩
      · exact .none

/-- An anchor of the same kind, ending at the same level. -/
def Alike (veil : Veil) (left right : List Glyph) (first second : Anchor) : Prop :=
  first.kind = second.kind ∧ Level veil left right first.length second.length

theorem at?_aligned
    {previous other : Option Char}
    (aligned : Aligned veil left right)
    (sameStart : Text.wordStart previous = Text.wordStart other) :
    Option.Rel (Alike veil left right)
      (at? previous (Glyph.code left)) (at? other (Glyph.code right)) := by
  rw [at?_eq_rest?, at?_eq_rest?, sameStart]
  split
  · apply optionRel_map (rest?_aligned aligned)
    rintro ⟨leftKind, leftText⟩ ⟨rightKind, rightText⟩ ⟨sameKind, leftPlace, rightPlace, level,
      leftShape, rightShape⟩
    refine ⟨sameKind, ?_⟩
    simp only at leftShape rightShape
    have leftLength : (Glyph.code left).length - leftText.length = leftPlace := by
      have within := level.left_le
      rw [leftShape, Glyph.length_code, Glyph.length_code, List.length_drop]
      omega
    have rightLength : (Glyph.code right).length - rightText.length = rightPlace := by
      have within := level.right_le
      rw [rightShape, Glyph.length_code, Glyph.length_code, List.length_drop]
      omega
    simp only [leftLength, rightLength]
    exact level
  · exact .none

/-- Hidden glyphs are passed over in the search for an anchor. -/
theorem distance_append_hidden
    {run : List Glyph}
    (previous : Option Char)
    (hidden : ∀ glyph ∈ run, veil.hides glyph)
    (rest : Text) :
    distance previous (Glyph.code run ++ rest) =
      run.length + distance (Text.previousAfter previous (Glyph.code run)) rest := by
  induction run generalizing previous with
  | nil =>
      simp
  | cons glyph more inductionHypothesis =>
      have inert : at? previous (glyph.shown :: (Glyph.code more ++ rest)) = none :=
        at?_eq_none fun _ => Veil.not_sameFolded (hidden glyph (by simp)) (by decide)
      have later :=
        inductionHypothesis (some glyph.shown)
          fun other member => hidden other (by simp [member])
      simp only [Glyph.code_cons, List.cons_append, distance, inert, Option.isSome_none,
        Bool.false_eq_true, ↓reduceIte, List.length_cons, Text.previousAfter_cons, later]
      omega

/-- Aligned glyphs are aligned up to their first anchors. -/
theorem take_distance_aligned
    {previous other : Option Char}
    (aligned : Aligned veil left right)
    (sameStart : Text.wordStart previous = Text.wordStart other) :
    Aligned veil
      (left.take (distance previous (Glyph.code left)))
      (right.take (distance other (Glyph.code right))) := by
  induction aligned generalizing previous other with
  | nil =>
      exact .nil
  | @same glyph left right rest inductionHypothesis =>
      have here := at?_aligned (.same glyph rest) sameStart
      simp only [Glyph.code_cons, distance] at here ⊢
      generalize at? previous (glyph.shown :: Glyph.code left) = leftAnchor at here ⊢
      generalize at? other (glyph.shown :: Glyph.code right) = rightAnchor at here ⊢
      cases here with
      | some _ => exact .nil
      | none => exact .same glyph (inductionHypothesis rfl)
  | @hidden first second left right firstNonempty secondNonempty firstHidden secondHidden sameSize
      rest inductionHypothesis =>
      have leftFree := Veil.wordStart_previousAfter previous firstNonempty firstHidden
      have rightFree := Veil.wordStart_previousAfter other secondNonempty secondHidden
      rw [Glyph.code_append, Glyph.code_append, distance_append_hidden previous firstHidden,
        distance_append_hidden other secondHidden, List.take_length_add_append,
        List.take_length_add_append]
      exact .hidden firstNonempty secondNonempty firstHidden secondHidden sameSize
        (inductionHypothesis (leftFree.trans rightFree.symm))

end Anchor

namespace Segment

variable {veil : Veil} {left right : List Glyph}

/-- Segments with the same offsets and aligned regions. -/
structure Alike (veil : Veil) (first second : Segment) : Prop where
  kind_eq : first.kind = second.kind
  start_eq : first.start = second.start
  words_eq : Glyph.byteLength first.words = Glyph.byteLength second.words
  region : Aligned veil first.region second.region

theorem Alike.regionStart_eq
    {first second : Segment}
    (alike : Alike veil first second) :
    first.regionStart = second.regionStart := by
  rw [regionStart, regionStart, alike.start_eq, alike.words_eq]

/-- Segments of aligned glyphs whose anchors are alike. -/
theorem of_aligned
    {previous other : Option Char}
    {leftAnchor rightAnchor : Anchor}
    (start : Nat)
    (aligned : Aligned veil left right)
    (anchors : Anchor.Alike veil left right leftAnchor rightAnchor)
    (leftFound : Anchor.at? previous (Glyph.code left) = some leftAnchor)
    (rightFound : Anchor.at? other (Glyph.code right) = some rightAnchor) :
    Alike veil (of leftAnchor start left) (of rightAnchor start right) := by
  obtain ⟨sameKind, level⟩ := anchors
  refine ⟨sameKind, rfl, level.byteLength_take aligned, ?_⟩
  apply Anchor.take_distance_aligned level.rest
  rw [Glyph.code_take, Glyph.code_take, Anchor.wordStart_take_length leftFound,
    Anchor.wordStart_take_length rightFound]

/-- Hidden glyphs start no segment. -/
theorem segmentsFrom_append_hidden
    {run : List Glyph}
    (offset : Nat)
    (previous : Option Char)
    (hidden : ∀ glyph ∈ run, veil.hides glyph)
    (rest : List Glyph) :
    segmentsFrom offset previous (run ++ rest) =
      segmentsFrom (offset + Glyph.byteLength run)
        (Text.previousAfter previous (Glyph.code run)) rest := by
  have inert : Anchor.Inert previous (Glyph.code run) :=
    Anchor.inert_of_blank previous (Aligned.isBlank_code hidden)
  have clear : Anchor.Clear previous run.length (Glyph.code (run ++ rest)) := by
    rw [Glyph.code_append, ← Glyph.length_code]
    exact inert.clear (Glyph.code rest)
  rw [segmentsFrom_drop offset clear, List.take_left, List.drop_left]

/-- Aligned glyphs have segments alike. -/
theorem segmentsFrom_aligned
    {previous other : Option Char}
    (offset : Nat)
    (aligned : Aligned veil left right)
    (sameStart : Text.wordStart previous = Text.wordStart other) :
    List.Forall₂ (Alike veil)
      (segmentsFrom offset previous left) (segmentsFrom offset other right) := by
  induction aligned generalizing offset previous other with
  | nil =>
      exact .nil
  | @same glyph left right rest inductionHypothesis =>
      have here := Anchor.at?_aligned (.same glyph rest) sameStart
      have later :
          List.Forall₂ (Alike veil)
            (segmentsFrom (offset + glyph.char.utf8Size) (some glyph.shown) left)
            (segmentsFrom (offset + glyph.char.utf8Size) (some glyph.shown) right) :=
        inductionHypothesis _ rfl
      rw [segmentsFrom, segmentsFrom]
      cases leftFound : Anchor.at? previous (Glyph.code (glyph :: left)) with
      | none =>
          cases rightFound : Anchor.at? other (Glyph.code (glyph :: right)) with
          | none =>
              exact later
          | some rightAnchor =>
              rw [leftFound, rightFound] at here
              cases here
      | some leftAnchor =>
          cases rightFound : Anchor.at? other (Glyph.code (glyph :: right)) with
          | none =>
              rw [leftFound, rightFound] at here
              cases here
          | some rightAnchor =>
              rw [leftFound, rightFound] at here
              cases here with
              | some anchors =>
                  exact .cons (of_aligned offset (.same glyph rest) anchors leftFound rightFound)
                    later
  | @hidden first second left right firstNonempty secondNonempty firstHidden secondHidden sameSize
      rest inductionHypothesis =>
      -- The runs may end in different blanks, but a word can start behind either.
      have leftFree := Veil.wordStart_previousAfter previous firstNonempty firstHidden
      have rightFree := Veil.wordStart_previousAfter other secondNonempty secondHidden
      rw [segmentsFrom_append_hidden offset previous firstHidden,
        segmentsFrom_append_hidden offset other secondHidden, sameSize]
      exact inductionHypothesis _ (leftFree.trans rightFree.symm)

end Segment

end RoutineServer
