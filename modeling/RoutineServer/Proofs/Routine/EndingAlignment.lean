import RoutineServer.Proofs.Routine.Alignment

namespace RoutineServer

/-!
# Ends of declarations in aligned glyphs

The search for the end of a declaration looks at the mask, where hidden glyphs
are blanks. In aligned glyphs it therefore ends at the same level. Tags, words
and semicolons are shared by both lists, glyph for glyph; only the blanks
between them differ in number.
-/

variable {veil : Veil} {left right : List Glyph}

theorem Level.whole
    (veil : Veil)
    (left right : List Glyph) :
    Level veil left right left.length right.length := by
  refine ⟨Nat.le_refl _, Nat.le_refl _, ?_⟩
  rw [List.drop_length, List.drop_length]
  exact .nil

/-- A property of characters that no hidden glyph is shown with. -/
def RulesOutBlanks (property : Char → Bool) : Prop :=
  property ' ' = false ∧ property '\n' = false

/-- The first glyphs of two aligned lists, as far as they are the same. -/
structure Shared (veil : Veil) (left right : List Glyph) (count : Nat) : Prop where
  same : left.take count = right.take count
  level : Level veil left right count count

namespace Shared

theorem code_take
    {count : Nat}
    (shared : Shared veil left right count) :
    (Glyph.code left).take count = (Glyph.code right).take count := by
  rw [← Glyph.code_take, ← Glyph.code_take, shared.same]

theorem add
    {count more : Nat}
    (shared : Shared veil left right count)
    (further : Shared veil (left.drop count) (right.drop count) more) :
    Shared veil left right (count + more) := by
  refine ⟨?_, shared.level.add further.level⟩
  rw [List.take_add, List.take_add, shared.same, further.same]

theorem cons
    {count : Nat}
    (glyph : Glyph)
    (shared : Shared veil left right count) :
    Shared veil (glyph :: left) (glyph :: right) (count + 1) := by
  refine ⟨?_, shared.level.same glyph⟩
  rw [List.take_succ_cons, List.take_succ_cons, shared.same]

/-- A character at the start that is no blank is shared. -/
theorem of_head
    {char : Char}
    (aligned : Aligned veil left right)
    (visible : char ≠ ' ' ∧ char ≠ '\n')
    (starts : (Glyph.code left).head? = some char) :
    Shared veil left right 1 := by
  cases aligned with
  | nil =>
      cases starts
  | same glyph rest =>
      exact .cons glyph ⟨rfl, .zero rest⟩
  | @hidden first second _ _ nonempty _ hidden _ _ _ =>
      obtain ⟨glyph, more, rfl⟩ := List.exists_cons_of_ne_nil nonempty
      have shown := veil.shown_of_hides (hidden glyph (by simp))
      have isChar : glyph.shown = char := by
        simpa using starts
      rw [isChar] at shown
      rcases shown with blank | newline
      · exact absurd blank visible.1
      · exact absurd newline visible.2

end Shared

/-- A run of glyphs that are not hidden is shared. -/
theorem takeWhile_aligned
    {property : Glyph → Bool}
    (stops : ∀ glyph, veil.hides glyph → property glyph = false)
    (aligned : Aligned veil left right) :
    left.takeWhile property = right.takeWhile property ∧
      Shared veil left right (left.takeWhile property).length := by
  induction aligned with
  | nil =>
      exact ⟨rfl, rfl, .zero .nil⟩
  | @same glyph left right rest inductionHypothesis =>
      obtain ⟨sameRun, shared⟩ := inductionHypothesis
      rw [List.takeWhile_cons, List.takeWhile_cons, sameRun]
      rw [sameRun] at shared
      split
      · exact ⟨rfl, .cons glyph shared⟩
      · exact ⟨rfl, rfl, .zero (.same glyph rest)⟩
  | @hidden first second left right firstNonempty secondNonempty firstHidden secondHidden size rest =>
      have nothing
          {run behind : List Glyph}
          (nonempty : run ≠ [])
          (hidden : ∀ glyph ∈ run, veil.hides glyph) :
          (run ++ behind).takeWhile property = [] := by
        obtain ⟨glyph, more, rfl⟩ := List.exists_cons_of_ne_nil nonempty
        have fails := stops glyph (hidden glyph (by simp))
        simp [fails]
      rw [nothing firstNonempty firstHidden, nothing secondNonempty secondHidden]
      exact ⟨rfl, rfl,
        .zero (.hidden firstNonempty secondNonempty firstHidden secondHidden size rest)⟩

/-- A run of characters that are no blanks is shared. -/
theorem takeWhile_code_aligned
    {property : Char → Bool}
    (rulesOut : RulesOutBlanks property)
    (aligned : Aligned veil left right) :
    (Glyph.code left).takeWhile property = (Glyph.code right).takeWhile property ∧
      Shared veil left right ((Glyph.code left).takeWhile property).length := by
  have run (glyphs : List Glyph) :
      (Glyph.code glyphs).takeWhile property =
        Glyph.code (glyphs.takeWhile fun glyph => property glyph.shown) :=
    List.takeWhile_map ..
  obtain ⟨sameRun, shared⟩ :=
    takeWhile_aligned
      (fun _ hidden => veil.property_shown property rulesOut.1 rulesOut.2 hidden) aligned
  rw [run, run, ← sameRun, Glyph.length_code]
  exact ⟨rfl, shared⟩

/-- A list starts with an item of a kind exactly if its run of such items is not empty. -/
theorem any_head?_eq
    (property : α → Bool)
    (items : List α) :
    items.head?.any property = !(items.takeWhile property).isEmpty := by
  cases items with
  | nil =>
      rfl
  | cons first rest =>
      cases holds : property first with
      | false => simp [holds]
      | true => simp [holds]

/-- Both lists start with a character of a kind that rules out blanks, or neither does. -/
theorem head?_any_aligned
    {property : Char → Bool}
    (rulesOut : RulesOutBlanks property)
    (aligned : Aligned veil left right) :
    (Glyph.code left).head?.any property = (Glyph.code right).head?.any property := by
  rw [any_head?_eq, any_head?_eq, (takeWhile_code_aligned rulesOut aligned).1]

theorem head?_aligned
    {char : Char}
    (visible : char ≠ ' ' ∧ char ≠ '\n')
    (aligned : Aligned veil left right) :
    ((Glyph.code left).head? == some char) = ((Glyph.code right).head? == some char) := by
  have rulesOut : RulesOutBlanks (· == char) :=
    ⟨beq_eq_false_iff_ne.mpr (Ne.symm visible.1), beq_eq_false_iff_ne.mpr (Ne.symm visible.2)⟩
  have any (text : Text) : (text.head? == some char) = text.head?.any (· == char) := by
    cases text with
    | nil => rfl
    | cons first rest => rfl
  rw [any, any]
  exact head?_any_aligned rulesOut aligned

theorem leadingBlanks_aligned
    (aligned : Aligned veil left right) :
    Level veil left right
      (Text.leadingBlanks (Glyph.code left)) (Text.leadingBlanks (Glyph.code right)) := by
  obtain ⟨leftPlace, rightPlace, level, leftShape, rightShape⟩ := trimStart_aligned aligned
  have blanks
      {glyphs : List Glyph}
      {place : Nat}
      (within : place ≤ glyphs.length)
      (shape : Text.trimStart (Glyph.code glyphs) = Glyph.code (glyphs.drop place)) :
      Text.leadingBlanks (Glyph.code glyphs) = place := by
    have total := Text.leadingBlanks_add_length_trimStart (Glyph.code glyphs)
    rw [shape, Glyph.length_code, Glyph.length_code, List.length_drop] at total
    omega
  rw [blanks level.left_le leftShape, blanks level.right_le rightShape]
  exact level

theorem trimStart_code
    (glyphs : List Glyph) :
    Text.trimStart (Glyph.code glyphs) =
      Glyph.code (glyphs.drop (Text.leadingBlanks (Glyph.code glyphs))) := by
  rw [Glyph.code_drop, Text.drop_leadingBlanks]

theorem semicolonAfterBlanks?_aligned
    (aligned : Aligned veil left right) :
    Option.Rel (Level veil left right)
      (semicolonAfterBlanks? (Glyph.code left)) (semicolonAfterBlanks? (Glyph.code right)) := by
  have level := leadingBlanks_aligned aligned
  have visible : ';' ≠ ' ' ∧ ';' ≠ '\n' := by decide
  rw [semicolonAfterBlanks?, semicolonAfterBlanks?, trimStart_code, trimStart_code,
    head?_aligned visible level.rest]
  split
  case isTrue starts =>
      rw [← head?_aligned visible level.rest, beq_iff_eq] at starts
      exact .some (level.add (Shared.of_head level.rest visible starts).level)
  case isFalse =>
      exact .none

theorem rulesOutBlanks_isKeywordChar : RulesOutBlanks isKeywordChar :=
  ⟨by decide, by decide⟩

/-- A keyword after blanks, with its blanks, in each of two lists. -/
structure KeywordAlike
    (veil : Veil)
    (left right : List Glyph)
    (first second : Nat × Text) : Prop where
  word_eq : first.2 = second.2
  blanks : Level veil left right first.1 second.1
  word : Level veil left right (first.1 + first.2.length) (second.1 + second.2.length)

/-- The keyword after blanks is the same and ends at the same level. -/
theorem nextKeyword?_aligned
    (aligned : Aligned veil left right) :
    Option.Rel (KeywordAlike veil left right)
      (nextKeyword? (Glyph.code left)) (nextKeyword? (Glyph.code right)) := by
  have level := leadingBlanks_aligned aligned
  obtain ⟨sameWord, shared⟩ := takeWhile_code_aligned rulesOutBlanks_isKeywordChar level.rest
  simp only [nextKeyword?, trimStart_code]
  rw [← sameWord]
  split
  · exact .none
  · exact .some ⟨rfl, level, level.add shared.level⟩

theorem terminatorLength_aligned
    (aligned : Aligned veil left right) :
    Level veil left right
      (terminatorLength (Glyph.code left)) (terminatorLength (Glyph.code right)) := by
  have direct := semicolonAfterBlanks?_aligned aligned
  have keyword := nextKeyword?_aligned aligned
  unfold terminatorLength
  generalize semicolonAfterBlanks? (Glyph.code left) = leftDirect at direct ⊢
  generalize semicolonAfterBlanks? (Glyph.code right) = rightDirect at direct ⊢
  cases direct with
  | some level =>
      exact level
  | none =>
      generalize nextKeyword? (Glyph.code left) = leftKeyword at keyword ⊢
      generalize nextKeyword? (Glyph.code right) = rightKeyword at keyword ⊢
      cases keyword with
      | none =>
          exact .zero aligned
      | @some first second alike =>
          have behind := semicolonAfterBlanks?_aligned alike.word.rest
          simp only [← Glyph.code_drop]
          generalize semicolonAfterBlanks?
            (Glyph.code (left.drop (first.1 + first.2.length))) = leftBehind at behind ⊢
          generalize semicolonAfterBlanks?
            (Glyph.code (right.drop (second.1 + second.2.length))) = rightBehind at behind ⊢
          cases behind with
          | none => exact .zero aligned
          | some level => exact alike.word.add level

/-- Whether the label of a tag can start with a character. -/
def startsLabel (char : Char) : Bool :=
  char.isAlpha || char == '_'

/-- A tag is a dollar sign, a label or none, and another dollar sign. -/
theorem dollarTagLength?_dollar
    (rest : Text) :
    dollarTagLength? ('$' :: rest) =
      if rest.head? == some '$' then some 2
      else if rest.head?.any startsLabel &&
          (rest.drop (rest.takeWhile isKeywordChar).length).head? == some '$' then
        some ((rest.takeWhile isKeywordChar).length + 2)
      else none := by
  cases rest with
  | nil =>
      rfl
  | cons char more =>
      by_cases dollar : char = '$'
      · subst char
        rfl
      · have first : ((char :: more).head? == some '$') = false := by
          simpa using dollar
        rw [first]
        unfold dollarTagLength?
        split
        case h_1 shape =>
            rw [List.cons.injEq, List.cons.injEq] at shape
            exact absurd shape.2.1 dollar
        case h_2 shape =>
            rw [List.cons.injEq, List.cons.injEq] at shape
            obtain ⟨-, rfl, rfl⟩ := shape
            cases starts : startsLabel char with
            | false =>
                rw [startsLabel] at starts
                simp [starts, startsLabel]
            | true =>
                rw [startsLabel] at starts
                simp [starts, startsLabel]
        case h_3 other =>
            exact absurd rfl (other char more)

theorem dollarTagLength?_of_ne
    {char : Char}
    (other : char ≠ '$')
    (rest : Text) :
    dollarTagLength? (char :: rest) = none := by
  unfold dollarTagLength?
  split
  case h_1 shape => exact absurd (List.cons.inj shape).1 other
  case h_2 shape => exact absurd (List.cons.inj shape).1 other
  case h_3 => rfl

/-- A dollar-quote tag is shared. -/
theorem dollarTagLength?_aligned
    (glyph : Glyph)
    (aligned : Aligned veil left right) :
    Option.Rel
      (fun first second => first = second ∧ Shared veil (glyph :: left) (glyph :: right) first)
      (dollarTagLength? (Glyph.code (glyph :: left)))
      (dollarTagLength? (Glyph.code (glyph :: right))) := by
  rw [Glyph.code_cons, Glyph.code_cons]
  by_cases dollar : glyph.shown = '$'
  · have visible : '$' ≠ ' ' ∧ '$' ≠ '\n' := by decide
    obtain ⟨sameLabel, label⟩ := takeWhile_code_aligned rulesOutBlanks_isKeywordChar aligned
    have starts : RulesOutBlanks startsLabel := ⟨by decide, by decide⟩
    have sameEnd := head?_aligned visible label.level.rest
    rw [Glyph.code_drop, Glyph.code_drop] at sameEnd
    rw [dollar, dollarTagLength?_dollar, dollarTagLength?_dollar, ← sameLabel,
      head?_aligned visible aligned, head?_any_aligned starts aligned, sameEnd]
    split
    case isTrue doubled =>
        rw [← head?_aligned visible aligned, beq_iff_eq] at doubled
        exact .some ⟨rfl, .cons glyph (.of_head aligned visible doubled)⟩
    case isFalse =>
        split
        case isTrue closes =>
            rw [← sameEnd, Bool.and_eq_true, beq_iff_eq, ← Glyph.code_drop] at closes
            exact .some ⟨rfl,
              .cons glyph (label.add (.of_head label.level.rest visible closes.2))⟩
        case isFalse =>
            exact .none
  · rw [dollarTagLength?_of_ne dollar, dollarTagLength?_of_ne dollar]
    exact .none

namespace BlockMove

/-- Moves that do the same at the same level. -/
inductive Alike (veil : Veil) (left right : List Glyph) : BlockMove → BlockMove → Prop where
  | finish
      {first second : Nat} :
      Level veil left right first second →
      Alike veil left right (.finish first) (.finish second)
  | resume
      (walk : BlockWalk)
      {first second : Nat} :
      Level veil left right first second →
      Alike veil left right (.resume walk first) (.resume walk second)

end BlockMove

namespace BlockWalk

theorem closeLevel_aligned
    (walk : BlockWalk)
    (aligned : Aligned veil left right) :
    BlockMove.Alike veil left right
      (walk.closeLevel (Glyph.code left)) (walk.closeLevel (Glyph.code right)) := by
  simp only [closeLevel]
  split
  · exact .finish (terminatorLength_aligned aligned)
  · exact .resume _ (.zero aligned)

theorem meetEnd_aligned
    (walk : BlockWalk)
    (aligned : Aligned veil left right) :
    BlockMove.Alike veil left right
      (walk.meetEnd (Glyph.code left)) (walk.meetEnd (Glyph.code right)) := by
  have keyword := nextKeyword?_aligned aligned
  have closes := walk.closeLevel_aligned aligned
  simp only [meetEnd]
  generalize nextKeyword? (Glyph.code left) = leftKeyword at keyword ⊢
  generalize nextKeyword? (Glyph.code right) = rightKeyword at keyword ⊢
  cases keyword with
  | none =>
      exact closes
  | @some first second alike =>
      simp only [← alike.word_eq]
      have level := alike.word
      rw [← alike.word_eq] at level
      split
      · exact .resume walk level
      · split
        · exact .resume _ level
        · exact closes

/-- A word is met alike, whatever is hidden behind it. -/
theorem meetWord_aligned
    (walk : BlockWalk)
    (word : Text)
    (aligned : Aligned veil left right) :
    BlockMove.Alike veil left right
      (walk.meetWord word (Glyph.code left)) (walk.meetWord word (Glyph.code right)) := by
  simp only [meetWord]
  split
  · exact .resume _ (.zero aligned)
  · split
    · exact .resume _ (.zero aligned)
    · split
      · exact .resume _ (.zero aligned)
      · split
        · exact walk.meetEnd_aligned aligned
        · exact .resume walk (.zero aligned)

/-- A step at a glyph that both lists have does the same in both. -/
theorem next_aligned
    (walk : BlockWalk)
    (glyph : Glyph)
    (aligned : Aligned veil left right) :
    BlockMove.Alike veil (glyph :: left) (glyph :: right)
      (walk.next glyph.shown (Glyph.code left)) (walk.next glyph.shown (Glyph.code right)) := by
  have tag := dollarTagLength?_aligned glyph aligned
  simp only [next, ← Glyph.code_cons]
  generalize dollarTagLength? (Glyph.code (glyph :: left)) = leftTag at tag ⊢
  generalize dollarTagLength? (Glyph.code (glyph :: right)) = rightTag at tag ⊢
  cases tag with
  | some found =>
      obtain ⟨rfl, shared⟩ := found
      simp only [shared.code_take]
      exact .resume _ shared.level
  | none =>
      simp only
      split
      · exact .finish (Level.same glyph (.zero aligned))
      · split
        · obtain ⟨sameWord, word⟩ := takeWhile_code_aligned rulesOutBlanks_isKeywordChar aligned
          have met :=
            walk.meetWord_aligned
              (glyph.shown :: (Glyph.code left).takeWhile isKeywordChar) word.level.rest
          rw [Glyph.code_drop, Glyph.code_drop] at met
          rw [← sameWord]
          generalize walk.meetWord (glyph.shown :: (Glyph.code left).takeWhile isKeywordChar)
            ((Glyph.code left).drop ((Glyph.code left).takeWhile isKeywordChar).length) =
              leftMove at met ⊢
          generalize walk.meetWord (glyph.shown :: (Glyph.code left).takeWhile isKeywordChar)
            ((Glyph.code right).drop ((Glyph.code left).takeWhile isKeywordChar).length) =
              rightMove at met ⊢
          cases met with
          | finish level => exact .finish ((word.level.same glyph).add level)
          | resume resumed level => exact .resume resumed ((word.level.same glyph).add level)
        · exact .resume walk (Level.same glyph (.zero aligned))

theorem next_blank
    {char : Char}
    (walk : BlockWalk)
    (blank : char = ' ' ∨ char = '\n')
    (rest : Text) :
    walk.next char rest = .resume walk 1 := by
  rcases blank with rfl | rfl
  · simp [next, dollarTagLength?_of_ne (by decide : ' ' ≠ '$'), isKeywordChar]
  · simp [next, dollarTagLength?_of_ne (by decide : '\n' ≠ '$'), isKeywordChar]

/-- A walk passes over hidden glyphs. -/
theorem run_append_hidden
    {hiddenRun : List Glyph}
    (walk : BlockWalk)
    (hidden : ∀ glyph ∈ hiddenRun, veil.hides glyph)
    (rest : Text) :
    walk.run 0 (Glyph.code hiddenRun ++ rest) =
      (walk.run 0 rest).map (· + hiddenRun.length) := by
  induction hiddenRun with
  | nil =>
      simp
  | cons glyph more inductionHypothesis =>
      have blank := veil.shown_of_hides (hidden glyph (by simp))
      have later := inductionHypothesis fun other member => hidden other (by simp [member])
      rw [Glyph.code_cons, List.cons_append, run_cons, next_blank walk blank]
      simp only [List.drop_succ_cons, List.drop_zero, later, Option.map_map, List.length_cons]
      rfl

/-- A walk through aligned glyphs ends at the same level. -/
theorem run_aligned
    (walk : BlockWalk)
    (aligned : Aligned veil left right) :
    Option.Rel (Level veil left right)
      (walk.run 0 (Glyph.code left)) (walk.run 0 (Glyph.code right)) := by
  -- A step may read several glyphs, so the induction is on the length and not on `aligned`.
  induction size : left.length using Nat.strongRecOn generalizing walk left right with
  | ind total inductionHypothesis =>
      cases aligned with
      | nil =>
          exact .none
      | @same glyph left right rest =>
          have step := walk.next_aligned glyph rest
          have reads := walk.next_bounds glyph.shown (Glyph.code left)
          rw [Glyph.code_cons, Glyph.code_cons, run_cons, run_cons, ← Glyph.code_cons,
            ← Glyph.code_cons]
          generalize walk.next glyph.shown (Glyph.code left) = leftMove at step reads ⊢
          generalize walk.next glyph.shown (Glyph.code right) = rightMove at step ⊢
          cases step with
          | finish level =>
              exact .some level
          | @resume resumed first second level =>
              have shorter : ((glyph :: left).drop first).length < total := by
                rw [List.length_drop, size]
                simp only [List.length_cons] at size reads
                omega
              have later := inductionHypothesis _ shorter resumed level.rest rfl
              simp only [← Glyph.code_drop]
              apply optionRel_map later
              intro leftEnd rightEnd further
              rw [Nat.add_comm leftEnd, Nat.add_comm rightEnd]
              exact level.add further
      | @hidden first second left right nonempty _ firstHidden secondHidden _ rest =>
          have shorter : left.length < total := by
            have some := List.length_pos_of_ne_nil nonempty
            rw [List.length_append] at size
            omega
          have later := inductionHypothesis _ shorter walk rest rfl
          rw [Glyph.code_append, Glyph.code_append, walk.run_append_hidden firstHidden,
            walk.run_append_hidden secondHidden]
          apply optionRel_map later
          intro leftEnd rightEnd level
          rw [Nat.add_comm leftEnd, Nat.add_comm rightEnd]
          exact level.append first second

end BlockWalk

/-- A word that is taken off is as long as it is spelled. -/
theorem place_of_dropFolded?
    {word rest : Text}
    {glyphs : List Glyph}
    {place : Nat}
    (dropped : Text.dropFolded? word (Glyph.code glyphs) = some rest)
    (within : place ≤ glyphs.length)
    (shape : rest = Glyph.code (glyphs.drop place)) :
    place = word.length := by
  obtain ⟨spelling, whole, spelled⟩ := Text.dropFolded?_eq_some_iff.mp dropped
  have total := congrArg List.length whole
  have size := spelled.length_eq
  rw [List.length_append, shape, Glyph.length_code, Glyph.length_code, List.length_drop] at total
  omega

theorem endStatementAt?_aligned
    {previous other : Option Char}
    (aligned : Aligned veil left right)
    (sameStart : Text.wordStart previous = Text.wordStart other) :
    Option.Rel (Level veil left right)
      (endStatementAt? previous (Glyph.code left)) (endStatementAt? other (Glyph.code right)) := by
  have word := blind_dropFolded? (by decide : isPlainWord "end".toList = true) left right aligned
  rw [endStatementAt?, endStatementAt?, sameStart]
  split
  · cases leftEnd : Text.dropFolded? "end".toList (Glyph.code left) with
    | none =>
        rw [leftEnd] at word
        generalize Text.dropFolded? "end".toList (Glyph.code right) = rightRest at word ⊢
        cases word with
        | none => exact .none
    | some leftRest =>
        cases rightEnd : Text.dropFolded? "end".toList (Glyph.code right) with
        | none =>
            rw [leftEnd, rightEnd] at word
            cases word
        | some rightRest =>
            rw [leftEnd, rightEnd] at word
            cases word with
            | some rests =>
                obtain ⟨leftPlace, rightPlace, level, leftShape, rightShape⟩ := rests
                have leftSize := place_of_dropFolded? leftEnd level.left_le leftShape
                have rightSize := place_of_dropFolded? rightEnd level.right_le rightShape
                have semicolon := semicolonAfterBlanks?_aligned level.rest
                rw [← leftShape, ← rightShape] at semicolon
                apply optionRel_map semicolon
                intro leftMore rightMore further
                have threeLeft : leftMore + 3 = leftPlace + leftMore := by
                  rw [leftSize]
                  exact Nat.add_comm _ _
                have threeRight : rightMore + 3 = rightPlace + rightMore := by
                  rw [rightSize]
                  exact Nat.add_comm _ _
                rw [threeLeft, threeRight]
                exact level.add further
  · exact .none

/-- No `END` stands in hidden glyphs. -/
theorem endStatementEnd?_append_hidden
    {run : List Glyph}
    (previous : Option Char)
    (hidden : ∀ glyph ∈ run, veil.hides glyph)
    (rest : Text) :
    endStatementEnd? previous (Glyph.code run ++ rest) =
      (endStatementEnd? (Text.previousAfter previous (Glyph.code run)) rest).map
        (· + run.length) := by
  induction run generalizing previous with
  | nil =>
      simp
  | cons glyph more inductionHypothesis =>
      have later :=
        inductionHypothesis (some glyph.shown) fun other member => hidden other (by simp [member])
      have noWord
          (behind : Text) :
          Text.dropFolded? "end".toList (glyph.shown :: behind) = none := by
        have fails :=
          Veil.not_sameFolded (hidden glyph (by simp)) (by decide : isPlainLetter 'e' = true)
        have letters : "end".toList = ['e', 'n', 'd'] := rfl
        rw [letters, Text.dropFolded?, if_neg (by simp [fails])]
      have nothing :
          endStatementAt? previous (glyph.shown :: (Glyph.code more ++ rest)) = none := by
        rw [endStatementAt?, noWord]
        simp
      rw [Glyph.code_cons, List.cons_append, endStatementEnd?, nothing, later,
        Text.previousAfter_cons]
      simp only [Option.map_map, List.length_cons]
      rfl

theorem endStatementEnd?_aligned
    {previous other : Option Char}
    (aligned : Aligned veil left right)
    (sameStart : Text.wordStart previous = Text.wordStart other) :
    Option.Rel (Level veil left right)
      (endStatementEnd? previous (Glyph.code left))
      (endStatementEnd? other (Glyph.code right)) := by
  induction aligned generalizing previous other with
  | nil =>
      exact .none
  | @same glyph left right rest inductionHypothesis =>
      have here := endStatementAt?_aligned (.same glyph rest) sameStart
      have later :
          Option.Rel (Level veil left right)
            (endStatementEnd? (some glyph.shown) (Glyph.code left))
            (endStatementEnd? (some glyph.shown) (Glyph.code right)) :=
        inductionHypothesis rfl
      rw [Glyph.code_cons, Glyph.code_cons] at here ⊢
      rw [endStatementEnd?, endStatementEnd?]
      generalize endStatementAt? previous (glyph.shown :: Glyph.code left) = leftHere at here ⊢
      generalize endStatementAt? other (glyph.shown :: Glyph.code right) = rightHere at here ⊢
      cases here with
      | some level => exact .some level
      | none => exact optionRel_map later fun _ _ level => level.same glyph
  | @hidden first second left right firstNonempty secondNonempty firstHidden secondHidden _ _
      inductionHypothesis =>
      have leftFree := Veil.wordStart_previousAfter previous firstNonempty firstHidden
      have rightFree := Veil.wordStart_previousAfter other secondNonempty secondHidden
      rw [Glyph.code_append, Glyph.code_append, endStatementEnd?_append_hidden _ firstHidden,
        endStatementEnd?_append_hidden _ secondHidden]
      apply optionRel_map (inductionHypothesis (leftFree.trans rightFree.symm))
      intro leftEnd rightEnd level
      rw [Nat.add_comm leftEnd, Nat.add_comm rightEnd]
      exact level.append first second

/-- Hidden glyphs do not show a character that is no blank. -/
theorem findIdx?_append_hidden
    {char : Char}
    {run : List Glyph}
    (visible : char ≠ ' ' ∧ char ≠ '\n')
    (hidden : ∀ glyph ∈ run, veil.hides glyph)
    (rest : Text) :
    (Glyph.code run ++ rest).findIdx? (· == char) =
      (rest.findIdx? (· == char)).map (· + run.length) := by
  have absent : (Glyph.code run).findIdx? (· == char) = none := by
    rw [List.findIdx?_eq_none_iff]
    intro other member
    obtain ⟨glyph, glyphMember, rfl⟩ := List.mem_map.mp member
    rw [beq_eq_false_iff_ne]
    rintro rfl
    rcases veil.shown_of_hides (hidden glyph glyphMember) with blank | newline
    · exact visible.1 blank
    · exact visible.2 newline
  rw [List.findIdx?_append, absent, Option.none_or, Glyph.length_code]

/-- A glyph in each of two lists, at the same level and with the same level behind it. -/
structure Landmark (veil : Veil) (left right : List Glyph) (first second : Nat) : Prop where
  here : Level veil left right first second
  behind : Level veil left right (first + 1) (second + 1)

namespace Landmark

theorem first
    (glyph : Glyph)
    (aligned : Aligned veil left right) :
    Landmark veil (glyph :: left) (glyph :: right) 0 0 :=
  ⟨.zero (.same glyph aligned), Level.same glyph (.zero aligned)⟩

theorem same
    {first second : Nat}
    (glyph : Glyph)
    (landmark : Landmark veil left right first second) :
    Landmark veil (glyph :: left) (glyph :: right) (first + 1) (second + 1) :=
  ⟨landmark.here.same glyph, landmark.behind.same glyph⟩

theorem append
    {first second : Nat}
    (leftRun rightRun : List Glyph)
    (landmark : Landmark veil left right first second) :
    Landmark veil (leftRun ++ left) (rightRun ++ right)
      (first + leftRun.length) (second + rightRun.length) := by
  rw [Nat.add_comm first, Nat.add_comm second]
  exact ⟨landmark.here.append leftRun rightRun, landmark.behind.append leftRun rightRun⟩

end Landmark

/-- The first character of a kind that is no blank stands at the same level in both lists. -/
theorem findIdx?_aligned
    {char : Char}
    (visible : char ≠ ' ' ∧ char ≠ '\n')
    (aligned : Aligned veil left right) :
    Option.Rel (Landmark veil left right)
      ((Glyph.code left).findIdx? (· == char)) ((Glyph.code right).findIdx? (· == char)) := by
  induction aligned with
  | nil =>
      exact .none
  | @same glyph left right rest inductionHypothesis =>
      rw [Glyph.code_cons, Glyph.code_cons, List.findIdx?_cons, List.findIdx?_cons]
      split
      · exact .some (.first glyph rest)
      · exact optionRel_map inductionHypothesis fun _ _ landmark => landmark.same glyph
  | @hidden first second left right _ _ firstHidden secondHidden _ _ inductionHypothesis =>
      rw [Glyph.code_append, Glyph.code_append, findIdx?_append_hidden visible firstHidden,
        findIdx?_append_hidden visible secondHidden]
      exact optionRel_map inductionHypothesis fun _ _ landmark => landmark.append first second

/-- A declaration ends at the same level in aligned glyphs. -/
theorem endingLength_aligned
    (previous : Option Char)
    (aligned : Aligned veil left right) :
    Level veil left right
      (endingLength previous (Glyph.code left)) (endingLength previous (Glyph.code right)) := by
  have walked := BlockWalk.start.run_aligned aligned
  have statement := endStatementEnd?_aligned aligned (rfl : Text.wordStart previous = _)
  have semicolon := findIdx?_aligned (by decide : ';' ≠ ' ' ∧ ';' ≠ '\n') aligned
  unfold endingLength
  generalize BlockWalk.start.run 0 (Glyph.code left) = leftWalked at walked ⊢
  generalize BlockWalk.start.run 0 (Glyph.code right) = rightWalked at walked ⊢
  cases walked with
  | some level =>
      exact level
  | none =>
      generalize endStatementEnd? previous (Glyph.code left) = leftEnd at statement ⊢
      generalize endStatementEnd? previous (Glyph.code right) = rightEnd at statement ⊢
      cases statement with
      | some level =>
          exact level
      | none =>
          simp only [Glyph.length_code]
          generalize (Glyph.code left).findIdx? (· == ';') = leftPlace at semicolon ⊢
          generalize (Glyph.code right).findIdx? (· == ';') = rightPlace at semicolon ⊢
          cases semicolon with
          | none => exact .whole veil left right
          | some landmark => exact landmark.behind

end RoutineServer
