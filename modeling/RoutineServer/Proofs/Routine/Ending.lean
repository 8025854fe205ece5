import RoutineServer.Proofs.Text.Keyword
import RoutineServer.Routine.Ending

namespace RoutineServer

/-!
# How far a declaration reaches

The end of a declaration lies in the region that is searched for it. For the
walk through the body this follows step by step: a tag, a word and what is read
behind a word are pieces of the text that is left.
-/

/-- Behind the items of a kind at the start lies what is left without them. -/
theorem drop_length_takeWhile
    (property : α → Bool)
    (items : List α) :
    items.drop (items.takeWhile property).length = items.dropWhile property := by
  have dropped :
      (items.takeWhile property ++ items.dropWhile property).drop
          (items.takeWhile property).length =
        items.dropWhile property :=
    List.drop_left
  rwa [List.takeWhile_append_dropWhile] at dropped

namespace Text

theorem leadingBlanks_add_length_trimStart
    (text : Text) :
    leadingBlanks text + (trimStart text).length = text.length := by
  simp only [leadingBlanks, trimStart, ← List.length_append, List.takeWhile_append_dropWhile]

theorem drop_leadingBlanks
    (text : Text) :
    text.drop (leadingBlanks text) = trimStart text :=
  drop_length_takeWhile isBlank text

end Text

theorem semicolonAfterBlanks?_le
    {code : Text}
    {length : Nat}
    (found : semicolonAfterBlanks? code = some length) :
    length ≤ code.length := by
  simp only [semicolonAfterBlanks?, Option.ite_none_right_eq_some, Option.some.injEq] at found
  obtain ⟨head, rfl⟩ := found
  have total := Text.leadingBlanks_add_length_trimStart code
  cases trimmed : Text.trimStart code with
  | nil =>
      simp [trimmed] at head
  | cons char rest =>
      rw [trimmed, List.length_cons] at total
      omega

theorem nextKeyword?_le
    {code word : Text}
    {blanks : Nat}
    (found : nextKeyword? code = some (blanks, word)) :
    blanks + word.length ≤ code.length := by
  simp only [nextKeyword?, Option.ite_none_left_eq_some, Option.some.injEq, Prod.mk.injEq] at found
  obtain ⟨-, rfl, rfl⟩ := found
  have total := Text.leadingBlanks_add_length_trimStart code
  have within : ((Text.trimStart code).takeWhile isKeywordChar).length ≤ _ :=
    (List.takeWhile_sublist isKeywordChar).length_le
  omega

theorem terminatorLength_le
    (code : Text) :
    terminatorLength code ≤ code.length := by
  unfold terminatorLength
  cases direct : semicolonAfterBlanks? code with
  | some length =>
      exact semicolonAfterBlanks?_le direct
  | none =>
      cases keyword : nextKeyword? code with
      | none =>
          exact Nat.zero_le _
      | some found =>
          obtain ⟨blanks, label⟩ := found
          have labelWithin := nextKeyword?_le keyword
          cases behind : semicolonAfterBlanks? (code.drop (blanks + label.length)) with
          | none =>
              simp only [behind, Nat.zero_le]
          | some length =>
              have within := semicolonAfterBlanks?_le behind
              rw [List.length_drop] at within
              simp only [behind]
              omega

namespace BlockWalk

/-- Only an `END` ends a declaration at a word, with what ends the block. -/
theorem meetWord_eq_finish
    {walk : BlockWalk}
    {word following : Text}
    {length : Nat}
    (finished : walk.meetWord word following = .finish length) :
    length = terminatorLength following := by
  have closed
      {other : BlockWalk}
      (ends : other.closeLevel following = .finish length) :
      length = terminatorLength following := by
    simp only [closeLevel] at ends
    split at ends
    · simpa using ends.symm
    · cases ends
  simp only [meetWord] at finished
  split at finished
  · cases finished
  · split at finished
    · cases finished
    · split at finished
      · cases finished
      · split at finished
        · simp only [meetEnd] at finished
          split at finished
          · exact closed finished
          · split at finished
            · cases finished
            · split at finished
              · cases finished
              · exact closed finished
        · cases finished

/-- Characters that have been read already are passed over. -/
theorem run_skip
    (walk : BlockWalk)
    (skip : Nat)
    (code : Text) :
    walk.run skip code = (walk.run 0 (code.drop skip)).map (· + skip) := by
  induction code generalizing skip with
  | nil =>
      simp [run]
  | cons char rest inductionHypothesis =>
      cases skip with
      | zero =>
          simp
      | succ less =>
          rw [run, inductionHypothesis less, Option.map_map, List.drop_succ_cons]
          rfl

/--
What a walk does with the tag, word or character at the start of a text: end
the declaration, or go on behind a number of characters.
-/
def next (walk : BlockWalk) (char : Char) (rest : Text) : BlockMove :=
  match dollarTagLength? (char :: rest) with
  | some length => .resume (walk.meetTag ((char :: rest).take length)) length
  | none =>
      if char == ';' && walk.endsAtSemicolon then
        .finish 1
      else if isKeywordChar char then
        let more := rest.takeWhile isKeywordChar
        match walk.meetWord (char :: more) (rest.drop more.length) with
        | .finish length => .finish (more.length + 1 + length)
        | .resume resumed readAhead => .resume resumed (more.length + 1 + readAhead)
      else
        .resume walk 1

/-- The part of a run behind the first character, counted from the start. -/
private theorem run_tail
    (walk : BlockWalk)
    (skip : Nat)
    (char : Char)
    (rest : Text) :
    (walk.run skip rest).map (· + 1) =
      (walk.run 0 ((char :: rest).drop (skip + 1))).map (· + (skip + 1)) := by
  rw [run_skip, Option.map_map, List.drop_succ_cons]
  rfl

/-- A dollar-quote tag has at least its two dollar signs. -/
theorem two_le_dollarTagLength?
    {code : Text}
    {length : Nat}
    (found : dollarTagLength? code = some length) :
    2 ≤ length := by
  unfold dollarTagLength? at found
  split at found
  · simp only [Option.some.injEq] at found
    omega
  · simp only [Option.ite_none_right_eq_some, Option.some.injEq] at found
    omega
  · cases found

/-- A run takes one step and goes on behind what the step has read. -/
theorem run_cons
    (walk : BlockWalk)
    (char : Char)
    (rest : Text) :
    walk.run 0 (char :: rest) =
      match walk.next char rest with
      | .finish length => some length
      | .resume resumed length =>
          (resumed.run 0 ((char :: rest).drop length)).map (· + length) := by
  rw [run, next]
  cases tag : dollarTagLength? (char :: rest) with
  | some length =>
      have atLeast := two_le_dollarTagLength? tag
      have whole : length - 1 + 1 = length := by
        omega
      simp only
      rw [run_tail, whole]
  | none =>
      simp only
      by_cases ends : (char == ';' && walk.endsAtSemicolon) = true
      · simp only [ends, ↓reduceIte]
      · rw [if_neg ends, if_neg ends]
        by_cases keyword : isKeywordChar char = true
        · rw [if_pos keyword, if_pos keyword]
          cases walk.meetWord (char :: rest.takeWhile isKeywordChar)
              (rest.drop (rest.takeWhile isKeywordChar).length) with
          | finish length =>
              rfl
          | resume resumed readAhead =>
              simp only
              rw [run_tail, Nat.add_right_comm]
        · rw [if_neg keyword, if_neg keyword]
          simp only
          rw [run_tail]

/-- A step that ends the declaration ends it within the text; any other reads something. -/
theorem next_bounds
    (walk : BlockWalk)
    (char : Char)
    (rest : Text) :
    match walk.next char rest with
    | .finish length => length ≤ rest.length + 1
    | .resume _ length => 1 ≤ length := by
  unfold next
  cases tag : dollarTagLength? (char :: rest) with
  | some length =>
      have atLeast := two_le_dollarTagLength? tag
      simp only
      omega
  | none =>
      simp only
      by_cases ends : (char == ';' && walk.endsAtSemicolon) = true
      · simp [ends]
      · rw [if_neg ends]
        by_cases keyword : isKeywordChar char = true
        · rw [if_pos keyword]
          have wordWithin : (rest.takeWhile isKeywordChar).length ≤ rest.length :=
            (List.takeWhile_sublist isKeywordChar).length_le
          cases met :
              walk.meetWord (char :: rest.takeWhile isKeywordChar)
                (rest.drop (rest.takeWhile isKeywordChar).length) with
          | finish length =>
              have within :=
                terminatorLength_le (rest.drop (rest.takeWhile isKeywordChar).length)
              rw [← meetWord_eq_finish met, List.length_drop] at within
              simp only
              omega
          | resume resumed readAhead =>
              simp only
              omega
        · rw [if_neg keyword]

theorem run_le
    {walk : BlockWalk}
    {code : Text}
    {length : Nat}
    (ended : walk.run 0 code = some length) :
    length ≤ code.length := by
  induction size : code.length using Nat.strongRecOn generalizing walk code length with
  | ind total inductionHypothesis =>
      cases code with
      | nil =>
          simp [run] at ended
      | cons char rest =>
          rw [run_cons] at ended
          have bounds := walk.next_bounds char rest
          rw [List.length_cons] at size
          cases step : walk.next char rest with
          | finish ending =>
              simp only [step, Option.some.injEq] at ended bounds
              omega
          | resume resumed read =>
              simp only [step, Option.map_eq_some_iff] at ended bounds
              obtain ⟨less, ran, rfl⟩ := ended
              have shorter : ((char :: rest).drop read).length = rest.length + 1 - read := by
                simp
              have within :=
                inductionHypothesis (rest.length + 1 - read) (by omega) ran shorter
              -- Something was left behind what was read, or the run would not have ended.
              have left : read < rest.length + 1 := by
                by_contra past
                have empty : (char :: rest).drop read = [] :=
                  List.drop_eq_nil_of_le (by simpa using Nat.le_of_not_lt past)
                rw [empty] at ran
                simp [run] at ran
              omega

end BlockWalk

theorem endStatementEnd?_le
    {previous : Option Char}
    {code : Text}
    {length : Nat}
    (found : endStatementEnd? previous code = some length) :
    length ≤ code.length := by
  induction code generalizing previous length with
  | nil =>
      simp [endStatementEnd?] at found
  | cons char rest inductionHypothesis =>
      rw [endStatementEnd?] at found
      cases here : endStatementAt? previous (char :: rest) with
      | none =>
          simp only [here, Option.map_eq_some_iff] at found
          obtain ⟨less, later, rfl⟩ := found
          simpa using inductionHypothesis later
      | some ending =>
          simp only [here, Option.some.injEq] at found
          subst ending
          simp only [endStatementAt?, Option.ite_none_right_eq_some, Option.map_eq_some_iff,
            Option.bind_eq_some_iff] at here
          obtain ⟨-, blanks, ⟨following, dropped, semicolon⟩, rfl⟩ := here
          obtain ⟨spelling, shape, spelled⟩ := Text.dropFolded?_eq_some_iff.mp dropped
          have within := semicolonAfterBlanks?_le semicolon
          have size : spelling.length = 3 := spelled.length_eq.symm
          rw [shape, List.length_append, size]
          omega

/-- A declaration ends within the region that is searched. -/
theorem endingLength_le
    (previous : Option Char)
    (code : Text) :
    endingLength previous code ≤ code.length := by
  unfold endingLength
  cases walked : BlockWalk.start.run 0 code with
  | some length =>
      exact BlockWalk.run_le walked
  | none =>
      cases statement : endStatementEnd? previous code with
      | some length =>
          exact endStatementEnd?_le statement
      | none =>
          cases semicolon : code.findIdx? (· == ';') with
          | none =>
              exact Nat.le_refl _
          | some index =>
              exact (List.findIdx?_eq_some_iff_findIdx_eq.mp semicolon).1

end RoutineServer
