import Mathlib.Data.List.Pairwise
import RoutineServer.Proofs.Text.Offset
import RoutineServer.Proofs.Text.Spelling
import RoutineServer.Text.Word

namespace RoutineServer

/-!
# Matches in a text

Where the matches of a pattern stand, in order and without overlap, and what the
word under a cursor is made of.
-/

namespace Text

variable {match? : Text → Option (Nat × α)}

/-- A match is what the pattern answers for the rest of the text from it on. -/
theorem exists_of_mem_matchesFrom
    {text front rest : Text}
    {skip : Nat}
    {found : Span × α}
    (whole : text = front ++ rest)
    (member : found ∈ matchesFrom match? (byteLength front) skip rest) :
    ∃ earlier later length,
      text = earlier ++ later ∧
        match? later = some (length, found.2) ∧
          found.1 =
            ⟨byteLength earlier, byteLength earlier + byteLength (later.take length)⟩ := by
  induction rest generalizing front skip with
  | nil =>
      simp only [matchesFrom] at member
      cases member
  | cons char tail inductionHypothesis =>
      have shape : text = (front ++ [char]) ++ tail := by
        simpa using whole
      have next {skip : Nat} := @inductionHypothesis (front ++ [char]) skip shape
      rw [byteLength_append, byteLength_cons, byteLength_nil, Nat.add_zero] at next
      cases skip with
      | succ skip =>
          rw [matchesFrom] at member
          exact next member
      | zero =>
          rw [matchesFrom] at member
          cases answer : match? (char :: tail) with
          | none =>
              rw [answer] at member
              exact next member
          | some result =>
              obtain ⟨length, value⟩ := result
              rw [answer] at member
              rcases List.mem_cons.mp member with isHere | isLater
              · rw [isHere]
                exact ⟨front, char :: tail, length, whole, answer, rfl⟩
              · exact next isLater

theorem exists_of_mem_findMatches
    {text : Text}
    {found : Span × α}
    (member : found ∈ findMatches match? text) :
    ∃ earlier later length,
      text = earlier ++ later ∧
        match? later = some (length, found.2) ∧
          found.1 =
            ⟨byteLength earlier, byteLength earlier + byteLength (later.take length)⟩ :=
  exists_of_mem_matchesFrom (List.nil_append text).symm member

theorem matchesFrom_skip
    (offset : Nat)
    (skipped rest : Text) :
    matchesFrom match? offset skipped.length (skipped ++ rest) =
      matchesFrom match? (offset + byteLength skipped) 0 rest := by
  induction skipped generalizing offset with
  | nil =>
      rfl
  | cons char more inductionHypothesis =>
      rw [List.length_cons, List.cons_append, matchesFrom, inductionHypothesis, byteLength_cons,
        Nat.add_assoc]

theorem le_start_of_mem_matchesFrom
    {offset skip : Nat}
    {rest : Text}
    {found : Span × α}
    (member : found ∈ matchesFrom match? offset skip rest) :
    offset + byteLength (rest.take skip) ≤ found.1.start := by
  induction rest generalizing offset skip with
  | nil =>
      simp only [matchesFrom] at member
      cases member
  | cons char tail inductionHypothesis =>
      cases skip with
      | succ skip =>
          rw [matchesFrom] at member
          have later := inductionHypothesis member
          rwa [List.take_succ_cons, byteLength_cons, ← Nat.add_assoc]
      | zero =>
          rw [matchesFrom] at member
          rw [List.take_zero, byteLength_nil, Nat.add_zero]
          cases answer : match? (char :: tail) with
          | none =>
              rw [answer] at member
              have later := inductionHypothesis member
              omega
          | some result =>
              rw [answer] at member
              rcases List.mem_cons.mp member with rfl | isLater
              · exact Nat.le_refl _
              · have later := inductionHypothesis isLater
                omega

/-- Matches come in order and do not overlap. -/
theorem pairwise_matchesFrom
    (offset skip : Nat)
    (rest : Text) :
    (matchesFrom match? offset skip rest).Pairwise fun first second =>
      first.1.stop ≤ second.1.start := by
  induction rest generalizing offset skip with
  | nil =>
      simp [matchesFrom]
  | cons char tail inductionHypothesis =>
      cases skip with
      | succ skip =>
          exact inductionHypothesis _ _
      | zero =>
          rw [matchesFrom]
          cases match? (char :: tail) with
          | none =>
              exact inductionHypothesis _ _
          | some result =>
              refine .cons ?_ (inductionHypothesis _ _)
              intro second member
              have later := le_start_of_mem_matchesFrom member
              obtain ⟨length, value⟩ := result
              cases length with
              | zero =>
                  simp only [List.take_zero, byteLength_nil]
                  omega
              | succ length =>
                  simp only [List.take_succ_cons, byteLength_cons, Nat.add_sub_cancel] at later ⊢
                  omega

theorem pairwise_findMatches
    (match? : Text → Option (Nat × α))
    (text : Text) :
    (findMatches match? text).Pairwise fun first second => first.1.stop ≤ second.1.start :=
  pairwise_matchesFrom 0 0 text

theorem apart_of_mem_findMatches
    {text : Text}
    {first second : Span × α}
    (isFirst : first ∈ findMatches match? text)
    (isSecond : second ∈ findMatches match? text) :
    first = second ∨ first.1.stop ≤ second.1.start ∨ second.1.stop ≤ first.1.start := by
  have ordered := pairwise_findMatches match? text
  exact List.Pairwise.forall_of_forall_of_flip
    (R := fun one other => one = other ∨ one.1.stop ≤ other.1.start ∨ other.1.stop ≤ one.1.start)
    (fun _ _ => .inl rfl) (ordered.imp fun before => .inr (.inl before))
    (ordered.imp fun before => .inr (.inr before)) isFirst isSecond

/--
Where the pattern answers, a match starts there, unless the place is skipped or
an earlier match reaches over it.
-/
theorem exists_mem_matchesFrom
    {later : Text}
    (front : Text)
    (nonempty : later ≠ [])
    (answers : (match? later).isSome = true)
    (offset skip : Nat)
    (unskipped : skip ≤ front.length) :
    ∃ found ∈ matchesFrom match? offset skip (front ++ later),
      found.1.start = offset + byteLength front ∨
        found.1.start < offset + byteLength front ∧
          offset + byteLength front < found.1.stop := by
  induction front generalizing offset skip with
  | nil =>
      obtain rfl : skip = 0 := Nat.le_zero.mp unskipped
      obtain ⟨char, rest, rfl⟩ := List.exists_cons_of_ne_nil nonempty
      obtain ⟨result, answer⟩ := Option.isSome_iff_exists.mp answers
      rw [List.nil_append, matchesFrom, answer]
      exact ⟨_, List.mem_cons_self, .inl rfl⟩
  | cons char more inductionHypothesis =>
      rw [byteLength_cons, ← Nat.add_assoc, List.cons_append]
      cases skip with
      | succ skip =>
          rw [matchesFrom]
          exact inductionHypothesis _ _ (Nat.le_of_succ_le_succ unskipped)
      | zero =>
          rw [matchesFrom]
          cases match? (char :: (more ++ later)) with
          | none =>
              exact inductionHypothesis _ _ (Nat.zero_le _)
          | some result =>
              obtain ⟨length, value⟩ := result
              by_cases short : length - 1 ≤ more.length
              · obtain ⟨found, member, place⟩ :=
                  inductionHypothesis (offset + char.utf8Size) (length - 1) short
                exact ⟨found, List.mem_cons_of_mem _ member, place⟩
              · -- The match that starts here reaches into the text behind.
                have size := char.utf8Size_pos
                have reaches :
                    (char :: (more ++ later)).take length =
                      char :: (more ++ later.take (length - 1 - more.length)) := by
                  obtain ⟨less, rfl⟩ : ∃ less, length = less + 1 := ⟨length - 1, by omega⟩
                  rw [List.take_succ_cons, Nat.add_sub_cancel, List.take_append,
                    List.take_of_length_le (by omega)]
                have beyond : 0 < byteLength (later.take (length - 1 - more.length)) := by
                  refine byteLength_pos fun empty => ?_
                  rcases List.take_eq_nil_iff.mp empty with none | nothing
                  · omega
                  · exact nonempty nothing
                refine ⟨_, List.mem_cons_self, .inr ⟨?_, ?_⟩⟩
                · show offset < _
                  omega
                · show _ < offset + byteLength ((char :: (more ++ later)).take length)
                  rw [reaches, byteLength_cons, byteLength_append]
                  omega

/-- Where the pattern answers, a match starts there or an earlier one reaches over it. -/
theorem exists_mem_findMatches
    {later : Text}
    (front : Text)
    (nonempty : later ≠ [])
    (answers : (match? later).isSome = true) :
    ∃ found ∈ findMatches match? (front ++ later),
      found.1.start = byteLength front ∨
        found.1.start < byteLength front ∧ byteLength front < found.1.stop := by
  have covered := exists_mem_matchesFrom front nonempty answers 0 0 (Nat.zero_le _)
  rwa [Nat.zero_add] at covered

/-- Of words in order, the one that holds a column inside is the first that reaches it. -/
theorem find?_eq_of_mem
    {words : List (Span × α)}
    {found : Span × α}
    {column : Nat}
    (ordered : words.Pairwise fun first second => first.1.stop ≤ second.1.start)
    (member : found ∈ words)
    (starts : found.1.start < column)
    (stops : column < found.1.stop) :
    words.find? (fun word => word.1.start ≤ column && column ≤ word.1.stop) = some found := by
  induction words with
  | nil =>
      cases member
  | cons first others inductionHypothesis =>
      rw [List.pairwise_cons] at ordered
      rcases List.mem_cons.mp member with rfl | isLater
      · exact List.find?_cons_of_pos (by simp; omega)
      · have before := ordered.1 found isLater
        rw [List.find?_cons_of_neg (by simp; omega)]
        exact inductionHypothesis ordered.2 isLater

theorem isCursorWordChar_ascii
    {char : Char}
    (inWord : isCursorWordChar char = true) :
    char.toNat < 0x80 := by
  simp only [isCursorWordChar, Bool.or_eq_true, beq_iff_eq] at inWord
  rcases inWord with ((alphanumeric | rfl) | rfl) | rfl
  · exact ascii_of_isAlphanum alphanumeric
  all_goals decide

/-- A word character is no blank and no quote. -/
theorem isCursorWordChar_visible
    {char : Char}
    (inWord : isCursorWordChar char = true) :
    isBlank char = false ∧ char ≠ '"' := by
  have ascii := isCursorWordChar_ascii inWord
  revert inWord
  refine forall_ascii
    (fun char => isCursorWordChar char = true → isBlank char = false ∧ char ≠ '"')
    (by decide +kernel) char ascii

theorem isCursorWordChar_of_cursorWordAt?
    {text word : Text}
    {length : Nat}
    (matched : cursorWordAt? text = some (length, word))
    (unquoted : word.head? ≠ some '"') :
    ∀ char ∈ word, isCursorWordChar char = true := by
  by_cases quoted : ∃ rest, text = '"' :: rest
  · -- A match at a quote begins with the quote.
    obtain ⟨rest, rfl⟩ := quoted
    simp only [cursorWordAt?, Option.ite_none_left_eq_some, Option.some.injEq,
      Prod.mk.injEq] at matched
    obtain ⟨nonempty, -, taken⟩ := matched
    rw [← taken, List.head?_take, if_neg (by simpa using nonempty)] at unquoted
    exact absurd rfl unquoted
  · rw [cursorWordAt?] at matched
    · simp only [Option.ite_none_left_eq_some, Option.some.injEq, Prod.mk.injEq] at matched
      obtain ⟨-, -, taken⟩ := matched
      rw [List.prefix_iff_eq_take.mp (List.takeWhile_prefix isCursorWordChar) |>.symm] at taken
      intro char member
      rw [← taken] at member
      exact List.mem_takeWhile_imp member
    · intro rest shape
      exact quoted ⟨rest, shape⟩

/-- The word under a cursor is quoted or consists of word characters. -/
theorem isCursorWordChar_of_wordAt?
    {text : Text}
    {position : Position}
    {located : Located}
    (found : wordAt? text position = some located)
    (unquoted : located.word.head? ≠ some '"') :
    ∀ char ∈ located.word, isCursorWordChar char = true := by
  simp only [wordAt?, Option.bind_eq_bind, Option.bind_eq_some_iff, Option.some.injEq] at found
  obtain ⟨line, -, offset, -, word, isFound, rfl⟩ := found
  obtain ⟨-, later, length, -, matched, -⟩ :=
    exists_of_mem_findMatches (List.mem_of_find?_eq_some isFound)
  exact isCursorWordChar_of_cursorWordAt? matched unquoted

end Text

end RoutineServer
