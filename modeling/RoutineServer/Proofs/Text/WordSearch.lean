import Mathlib.Data.List.Induction
import RoutineServer.Proofs.Text.Coordinates
import RoutineServer.Proofs.Text.Matches
import RoutineServer.Proofs.Text.WholeWord

namespace RoutineServer

/-!
# The words of a line

The search for words goes over a line from left to right and arrives at every
place that no found word reaches over. Quotes are paired on the way: an opening
quote takes the next one for its end, unless that one follows directly. So a
word is found where a run of word characters starts or a quote opens, and not
where an earlier quote is still open.
-/

namespace Text

/-- A word that starts with a quote ends with the next one, and there is something between. -/
theorem exists_of_cursorWordAt?_quote
    {rest word : Text}
    {length : Nat}
    (matched : cursorWordAt? ('"' :: rest) = some (length, word)) :
    ∃ inside behind, word = '"' :: inside ++ ['"'] ∧ '"' :: rest = word ++ behind ∧
      length = word.length ∧ inside ≠ [] ∧ '"' ∉ inside := by
  rw [cursorWordAt?] at matched
  by_cases unclosed :
      ((rest.takeWhile (· != '"')).length == 0 ||
        (rest.takeWhile (· != '"')).length == rest.length) = true
  · simp only [unclosed, ↓reduceIte, beq_self_eq_true, reduceCtorEq] at matched
  · simp only [unclosed, Bool.false_eq_true, ↓reduceIte, Option.ite_none_left_eq_some,
      Option.some.injEq, Prod.mk.injEq] at matched
    obtain ⟨-, rfl, rfl⟩ := matched
    rw [Bool.or_eq_true, not_or, beq_iff_eq, beq_iff_eq] at unclosed
    have split := List.takeWhile_append_dropWhile (p := (· != '"')) (l := rest)
    have last := any_head?_dropWhile (· != '"') rest
    cases shape : rest.dropWhile (· != '"') with
    | nil =>
        rw [shape, List.append_nil] at split
        exact absurd (congrArg List.length split) unclosed.2
    | cons char behind =>
        rw [shape] at split last
        have isQuote : char = '"' := by simpa using last
        have absent : '"' ∉ rest.takeWhile (· != '"') := by
          intro member
          simpa using List.mem_takeWhile_imp member
        generalize rest.takeWhile (· != '"') = inside at split unclosed absent ⊢
        have whole : '"' :: rest = ('"' :: inside ++ ['"']) ++ behind := by
          simp [← split, isQuote]
        have read : ('"' :: rest).take (inside.length + 2) = '"' :: inside ++ ['"'] := by
          rw [whole]
          exact List.take_left' (by simp)
        rw [read]
        exact ⟨inside, behind, rfl, whole, by simp, by simpa using unclosed.1, absent⟩

/-- Any other word at the start of a text is a run as long as it can be. -/
theorem exists_of_cursorWordAt?_other
    {text word : Text}
    {length : Nat}
    (other : text.head? ≠ some '"')
    (matched : cursorWordAt? text = some (length, word)) :
    ∃ behind, text = word ++ behind ∧ length = word.length ∧ word ≠ [] ∧
      behind.head?.any isCursorWordChar = false := by
  rw [cursorWordAt?] at matched
  · simp only [Option.ite_none_left_eq_some, Option.some.injEq, Prod.mk.injEq] at matched
    obtain ⟨nonempty, rfl, rfl⟩ := matched
    have read := List.prefix_iff_eq_take.mp (List.takeWhile_prefix isCursorWordChar (l := text))
    rw [← read]
    exact ⟨text.dropWhile isCursorWordChar, List.takeWhile_append_dropWhile.symm, rfl,
      by simpa using nonempty, any_head?_dropWhile isCursorWordChar text⟩
  · rintro rest rfl
    exact other rfl

/-- Where no word starts, there is no word character. -/
theorem isCursorWordChar_of_cursorWordAt?_eq_none
    {char : Char}
    {rest : Text}
    (missed : cursorWordAt? (char :: rest) = none) :
    isCursorWordChar char = false := by
  rw [← Bool.not_eq_true]
  intro inWord
  have notQuote := (isCursorWordChar_visible inWord).2
  rw [cursorWordAt?] at missed
  · simp [List.takeWhile_cons_of_pos inWord] at missed
  · rintro later shape
    exact notQuote (List.cons.inj shape).1

/-- A word is in quotes, or it is a run of word characters as long as it can be. -/
theorem cases_of_cursorWordAt?
    {text word : Text}
    {length : Nat}
    (matched : cursorWordAt? text = some (length, word)) :
    ∃ behind,
      text = word ++ behind ∧ length = word.length ∧
        ((∃ inside, word = '"' :: inside ++ ['"'] ∧ inside ≠ [] ∧ '"' ∉ inside) ∨
          word ≠ [] ∧ (∀ char ∈ word, isCursorWordChar char = true) ∧
            behind.head?.any isCursorWordChar = false) := by
  by_cases quoted : text.head? = some '"'
  · obtain ⟨rest, rfl⟩ := List.head?_eq_some_iff.mp quoted
    obtain ⟨inside, behind, isWord, whole, size, filled, absent⟩ :=
      exists_of_cursorWordAt?_quote matched
    exact ⟨behind, whole, size, .inl ⟨inside, isWord, filled, absent⟩⟩
  · obtain ⟨behind, whole, size, nonempty, ends⟩ := exists_of_cursorWordAt?_other quoted matched
    rw [whole, List.head?_append_of_ne_nil _ nonempty] at quoted
    exact ⟨behind, whole, size,
      .inr ⟨nonempty, isCursorWordChar_of_cursorWordAt? matched quoted, ends⟩⟩

/-- A word that is found is what the text starts with. -/
theorem exists_of_cursorWordAt?
    {text word : Text}
    {length : Nat}
    (matched : cursorWordAt? text = some (length, word)) :
    word ≠ [] ∧ ∃ behind, text = word ++ behind ∧ length = word.length ∧
      cursorWordAt? (word ++ behind) = some (word.length, word) := by
  obtain ⟨behind, rfl, rfl, ⟨inside, rfl, -⟩ | ⟨nonempty, -⟩⟩ := cases_of_cursorWordAt? matched
  · exact ⟨List.cons_ne_nil _ _, behind, rfl, rfl, matched⟩
  · exact ⟨nonempty, behind, rfl, rfl, matched⟩

/-- The search of a line for words arrives at the place behind `left`, with `rest` before it. -/
inductive Arrives : Text → Text → Prop where
  | start
      {rest : Text} :
      Arrives [] rest
  | passed
      {left rest : Text}
      {char : Char} :
      Arrives left (char :: rest) →
      cursorWordAt? (char :: rest) = none →
      Arrives (left ++ [char]) rest
  | found
      {left word rest : Text} :
      Arrives left (word ++ rest) →
      cursorWordAt? (word ++ rest) = some (word.length, word) →
      Arrives (left ++ word) rest

theorem matchesFrom_of_found
    {word rest : Text}
    (offset : Nat)
    (matched : cursorWordAt? (word ++ rest) = some (word.length, word)) :
    matchesFrom cursorWordAt? offset 0 (word ++ rest) =
      (⟨offset, offset + byteLength word⟩, word) ::
        matchesFrom cursorWordAt? (offset + byteLength word) 0 rest := by
  obtain ⟨char, more, rfl⟩ := List.exists_cons_of_ne_nil (exists_of_cursorWordAt? matched).1
  have taken : (char :: (more ++ rest)).take (char :: more).length = char :: more :=
    List.take_left
  have skipped : (char :: more).length - 1 = more.length := rfl
  rw [List.cons_append] at matched ⊢
  rw [matchesFrom, matched]
  simp only
  rw [taken, skipped, matchesFrom_skip, byteLength_cons, Nat.add_assoc]

/-- Where the search arrives it goes on as from the start. -/
theorem Arrives.findMatches_eq
    {left rest : Text}
    (arrives : Arrives left rest) :
    ∃ earlier,
      findMatches cursorWordAt? (left ++ rest) =
        earlier ++ matchesFrom cursorWordAt? (byteLength left) 0 rest := by
  induction arrives with
  | start =>
      exact ⟨[], rfl⟩
  | @passed left rest char _ missed inductionHypothesis =>
      obtain ⟨earlier, found⟩ := inductionHypothesis
      refine ⟨earlier, ?_⟩
      rw [← List.append_cons, found, matchesFrom, missed, byteLength_append, byteLength_cons,
        byteLength_nil, Nat.add_zero]
  | @found left word rest _ matched inductionHypothesis =>
      obtain ⟨earlier, found⟩ := inductionHypothesis
      refine ⟨earlier ++ [(⟨byteLength left, byteLength left + byteLength word⟩, word)], ?_⟩
      rw [List.append_assoc, found, matchesFrom_of_found _ matched, byteLength_append]
      simp

/-- A word at a place where the search arrives is found. -/
theorem Arrives.mem_findMatches
    {left word rest : Text}
    (arrives : Arrives left (word ++ rest))
    (matched : cursorWordAt? (word ++ rest) = some (word.length, word)) :
    (⟨byteLength left, byteLength left + byteLength word⟩, word) ∈
      findMatches cursorWordAt? (left ++ (word ++ rest)) := by
  obtain ⟨earlier, found⟩ := arrives.findMatches_eq
  rw [found, matchesFrom_of_found _ matched]
  simp

/-- The search arrives at a place, or a word that it finds reaches over the place. -/
theorem arrives_or_covered
    (left rest : Text) :
    Arrives left rest ∨
      ∃ earlier inside outside later,
        left = earlier ++ inside ∧ rest = outside ++ later ∧ inside ≠ [] ∧ outside ≠ [] ∧
          Arrives earlier ((inside ++ outside) ++ later) ∧
            cursorWordAt? ((inside ++ outside) ++ later) =
              some ((inside ++ outside).length, inside ++ outside) := by
  induction left using List.reverseRecOn generalizing rest with
  | nil =>
      exact .inl .start
  | append_singleton left char inductionHypothesis =>
      rcases inductionHypothesis (char :: rest) with
        arrives | ⟨earlier, inside, outside, later, isLeft, isRest, starts, ends, arrives, matched⟩
      · cases answer : cursorWordAt? (char :: rest) with
        | none =>
            exact .inl (.passed arrives answer)
        | some result =>
            obtain ⟨length, word⟩ := result
            obtain ⟨nonempty, behind, isWord, -, matched⟩ := exists_of_cursorWordAt? answer
            obtain ⟨first, more, rfl⟩ := List.exists_cons_of_ne_nil nonempty
            obtain ⟨rfl, rfl⟩ := List.cons.inj isWord
            cases more with
            | nil =>
                exact .inl (.found arrives matched)
            | cons second others =>
                exact .inr ⟨left, [char], second :: others, behind, rfl, rfl,
                  List.cons_ne_nil _ _, List.cons_ne_nil _ _, arrives, matched⟩
      · -- The word that reaches over the place in front ends here, or reaches over this one too.
        obtain ⟨first, more, rfl⟩ := List.exists_cons_of_ne_nil ends
        obtain ⟨rfl, rfl⟩ := List.cons.inj isRest
        have shift : inside ++ char :: more = (inside ++ [char]) ++ more := List.append_cons _ _ _
        rw [shift] at arrives matched
        have isLeft : left ++ [char] = earlier ++ (inside ++ [char]) := by
          rw [isLeft, List.append_assoc]
        cases more with
        | nil =>
            rw [isLeft]
            rw [List.append_nil] at arrives matched
            exact .inl (.found arrives matched)
        | cons second others =>
            exact .inr ⟨earlier, inside ++ [char], second :: others, later, isLeft, rfl,
              by simp, List.cons_ne_nil _ _, arrives, matched⟩

/-- How the quotes in front of a place on a line are paired. -/
inductive Quoting where
  /-- No quote is open. -/
  | closed
  /-- A quote opens directly in front of the place. -/
  | begun
  /-- A quote is open, with something behind it. -/
  | opened
  deriving Repr, DecidableEq

/-- A quote directly behind an opening one does not close it, but opens in its place. -/
def Quoting.step : Quoting → Char → Quoting
  | .closed, char => if char == '"' then .begun else .closed
  | .begun, char => if char == '"' then .begun else .opened
  | .opened, char => if char == '"' then .closed else .opened

/-- The pairing of the quotes of a text, from left to right. -/
def quoting (text : Text) : Quoting :=
  text.foldl Quoting.step .closed

namespace Quoting

variable {text : Text}

/-- Without quotes nothing changes, except directly behind an opening one. -/
theorem foldl_eq_self
    {state : Quoting}
    (settled : state ≠ .begun)
    (unquoted : '"' ∉ text) :
    text.foldl step state = state := by
  have kept : ∀ char, char ≠ '"' → state.step char = state := by
    intro char other
    cases state with
    | closed => simp [step, other]
    | begun => exact absurd rfl settled
    | opened => simp [step, other]
  induction text with
  | nil =>
      rfl
  | cons char rest inductionHypothesis =>
      simp only [List.mem_cons, not_or] at unquoted
      rw [List.foldl_cons, kept char (Ne.symm unquoted.1), inductionHypothesis unquoted.2]

/-- Behind an opening quote, anything but a quote keeps it open. -/
theorem foldl_begun
    (nonempty : text ≠ [])
    (unquoted : '"' ∉ text) :
    text.foldl step .begun = .opened := by
  obtain ⟨char, rest, rfl⟩ := List.exists_cons_of_ne_nil nonempty
  simp only [List.mem_cons, not_or] at unquoted
  simpa [step, Ne.symm unquoted.1] using foldl_eq_self (by decide) unquoted.2

theorem step_quote
    {state : Quoting}
    (free : state ≠ .opened) :
    state.step '"' = .begun := by
  cases state with
  | closed => rfl
  | begun => rfl
  | opened => exact absurd rfl free

/-- A quoted word closes the quote that it opens. -/
theorem foldl_enclosed
    {state : Quoting}
    (free : state ≠ .opened)
    (nonempty : text ≠ [])
    (unquoted : '"' ∉ text) :
    ('"' :: text ++ ['"']).foldl step state = .closed := by
  have inner : ('"' :: text).foldl step state = .opened := by
    rw [List.foldl_cons, step_quote free, foldl_begun nonempty unquoted]
  rw [List.foldl_append, inner]
  rfl

end Quoting

/-- No word can reach over the place between two parts of a line. -/
structure Free (left rest : Text) : Prop where
  noRun : ¬ (left.getLast?.any isCursorWordChar = true ∧ rest.head?.any isCursorWordChar = true)
  noQuote :
    quoting left = .closed ∨ '"' ∉ rest ∨ (quoting left = .begun ∧ rest.head? = some '"')

theorem Free.ne_opened
    {left rest : Text}
    (free : Free left rest)
    (quoted : '"' ∈ rest) :
    quoting left ≠ .opened := by
  rcases free.noQuote with closed | absent | ⟨begun, -⟩
  · rw [closed]
    decide
  · exact absurd quoted absent
  · rw [begun]
    decide

section Found

variable {inside word rest : Text}

theorem cursorWordAt?_quoted
    (nonempty : inside ≠ [])
    (unquoted : '"' ∉ inside)
    (rest : Text) :
    cursorWordAt? (('"' :: inside ++ ['"']) ++ rest) =
      some (('"' :: inside ++ ['"']).length, '"' :: inside ++ ['"']) := by
  have enclosed : (inside ++ '"' :: rest).takeWhile (· != '"') = inside := by
    rw [List.takeWhile_append_of_pos fun char member => ?_]
    · simp
    · rw [bne_iff_ne]
      rintro rfl
      exact unquoted member
  have shape : ('"' :: inside ++ ['"']) ++ rest = '"' :: (inside ++ '"' :: rest) := by simp
  have taken : (inside ++ '"' :: rest).take (inside.length + 1) = inside ++ ['"'] := by
    rw [List.append_cons]
    exact List.take_left' (by simp)
  rw [shape, cursorWordAt?]
  simp [enclosed, nonempty, taken]

theorem cursorWordAt?_run
    (nonempty : word ≠ [])
    (inWord : ∀ char ∈ word, isCursorWordChar char = true)
    (ends : rest.head?.any isCursorWordChar = false) :
    cursorWordAt? (word ++ rest) = some (word.length, word) := by
  have run : (word ++ rest).takeWhile isCursorWordChar = word := by
    rw [List.takeWhile_append_of_pos inWord]
    cases rest with
    | nil =>
        simp
    | cons char more =>
        have stops : isCursorWordChar char = false := ends
        simp [stops]
  rw [cursorWordAt?]
  · simp [run, nonempty]
  · intro more shape
    obtain ⟨first, others, rfl⟩ := List.exists_cons_of_ne_nil nonempty
    exact (isCursorWordChar_visible (inWord first List.mem_cons_self)).2 (List.cons.inj shape).1

/-- Where no word starts at a quote, there is no other quote or it follows directly. -/
theorem head?_of_cursorWordAt?_eq_none
    (missed : cursorWordAt? ('"' :: rest) = none)
    (quoted : '"' ∈ rest) :
    rest.head? = some '"' := by
  obtain ⟨inside, behind, rfl, absent⟩ := List.eq_append_cons_of_mem quoted
  cases inside with
  | nil =>
      rfl
  | cons char more =>
      have found := cursorWordAt?_quoted (List.cons_ne_nil char more) absent behind
      have shape : ('"' :: (char :: more) ++ ['"']) ++ behind =
          '"' :: ((char :: more) ++ '"' :: behind) := by simp
      rw [shape, missed] at found
      cases found

end Found

section Places

variable {left rest : Text}

/-- The word found at a place is quoted there, or it is a run of word characters. -/
theorem quoted_or_run_of_cursorWordAt?
    {word : Text}
    (matched : cursorWordAt? (word ++ rest) = some (word.length, word)) :
    (∃ inside, word = '"' :: inside ++ ['"'] ∧ inside ≠ [] ∧ '"' ∉ inside) ∨
      word ≠ [] ∧ (∀ char ∈ word, isCursorWordChar char = true) ∧
        rest.head?.any isCursorWordChar = false := by
  obtain ⟨behind, whole, -, kind⟩ := cases_of_cursorWordAt? matched
  rwa [← List.append_cancel_left whole] at kind

/-- Behind a word without quotes, the quotes are paired as in front of it. -/
theorem Free.noQuote_of_append
    {word : Text}
    (free : Free left (word ++ rest))
    (nonempty : word ≠ [])
    (unquoted : '"' ∉ word) :
    quoting (left ++ word) = .closed ∨ '"' ∉ rest := by
  rcases free.noQuote with closed | absent | ⟨-, quote⟩
  · left
    rw [quoting] at closed ⊢
    rw [List.foldl_append, closed, Quoting.foldl_eq_self (by decide) unquoted]
  · exact .inr fun member => absent (List.mem_append_right _ member)
  · rw [List.head?_append_of_ne_nil _ nonempty] at quote
    exact absurd (List.mem_of_mem_head? quote) unquoted

/-- No word reaches over a place where the search arrives. -/
theorem Arrives.free
    (arrives : Arrives left rest) :
    Free left rest := by
  induction arrives with
  | start =>
      exact ⟨by simp, .inl rfl⟩
  | @passed left rest char _ missed inductionHypothesis =>
      have outside := isCursorWordChar_of_cursorWordAt?_eq_none missed
      refine ⟨by simp [outside], ?_⟩
      by_cases isQuote : char = '"'
      · subst isQuote
        by_cases quoted : '"' ∈ rest
        · have begun := Quoting.step_quote (inductionHypothesis.ne_opened List.mem_cons_self)
          refine .inr (.inr ⟨?_, head?_of_cursorWordAt?_eq_none missed quoted⟩)
          rwa [quoting, List.foldl_append]
        · exact .inr (.inl quoted)
      · have unquoted : '"' ∉ [char] := by simpa using Ne.symm isQuote
        have paired :=
          @Free.noQuote_of_append left rest [char] inductionHypothesis (by simp) unquoted
        exact paired.imp_right .inl
  | @found left word rest _ matched inductionHypothesis =>
      rcases quoted_or_run_of_cursorWordAt? matched with
        ⟨inside, rfl, filled, absent⟩ | ⟨nonempty, inWord, ends⟩
      · have notOpen := inductionHypothesis.ne_opened (by simp)
        constructor
        · rw [← List.append_assoc, List.getLast?_concat]
          rintro ⟨last, -⟩
          cases last
        · left
          rw [quoting, List.foldl_append]
          exact Quoting.foldl_enclosed notOpen filled absent
      · have unquoted : '"' ∉ word :=
          fun member => (isCursorWordChar_visible (inWord _ member)).2 rfl
        have paired := inductionHypothesis.noQuote_of_append nonempty unquoted
        exact ⟨by simp [ends], paired.imp_right .inl⟩

/-- Between the quotes of a word, its opening quote is open and closes behind the place. -/
theorem not_free_of_enclosed
    {earlier ahead most later : Text}
    (notOpen : quoting earlier ≠ .opened)
    (filled : ahead ++ most ≠ [])
    (absent : '"' ∉ ahead ++ most) :
    ¬ Free (earlier ++ '"' :: ahead) (most ++ '"' :: later) := by
  intro free
  rw [List.mem_append, not_or] at absent
  have state : quoting (earlier ++ '"' :: ahead) = ahead.foldl Quoting.step .begun := by
    rw [← Quoting.step_quote notOpen, quoting, List.foldl_append]
    rfl
  have stillOpen := free.ne_opened (by simp)
  rw [state] at stillOpen
  have noneAhead : ahead = [] := by
    by_contra some
    exact stillOpen (Quoting.foldl_begun some absent.1)
  subst noneAhead
  obtain ⟨next, more, rfl⟩ := List.exists_cons_of_ne_nil filled
  rcases free.noQuote with closed | noQuote | ⟨-, isQuote⟩
  · rw [state] at closed
    cases closed
  · exact noQuote (by simp)
  · rw [List.cons_append, List.head?_cons, Option.some.injEq] at isQuote
    exact absent.2 (by simp [isQuote])

/-- The search arrives at every place that no word can reach over. -/
theorem Free.arrives
    (free : Free left rest) :
    Arrives left rest := by
  rcases arrives_or_covered left rest with
    arrives | ⟨earlier, inside, outside, later, rfl, rfl, starts, ends, arrives, matched⟩
  · exact arrives
  · rcases quoted_or_run_of_cursorWordAt? matched with
      ⟨enclosed, shape, filled, absent⟩ | ⟨-, inWord, -⟩
    · obtain ⟨first, ahead, rfl⟩ := List.exists_cons_of_ne_nil starts
      obtain ⟨rfl, inner⟩ := List.cons.inj shape
      obtain ⟨most, last, rfl⟩ := (List.eq_nil_or_concat outside).resolve_left ends
      rw [List.append_eq, List.concat_eq_append, ← List.append_assoc] at inner
      obtain ⟨rfl, isLast⟩ := List.append_inj' inner rfl
      obtain rfl := (List.cons.inj isLast).1
      rw [List.concat_eq_append, List.append_assoc] at free
      exact absurd free
        (not_free_of_enclosed (arrives.free.ne_opened (by simp)) filled absent)
    · have last : (earlier ++ inside).getLast? = some (inside.getLast starts) := by
        rw [List.getLast?_append_of_ne_nil _ starts, List.getLast?_eq_some_getLast starts]
      obtain ⟨first, more, rfl⟩ := List.exists_cons_of_ne_nil ends
      refine absurd ⟨?_, ?_⟩ free.noRun
      · rw [last]
        exact inWord _ (List.mem_append_left _ (List.getLast_mem starts))
      · exact inWord first (by simp)

end Places

/--
A word of a line that the search finds: a run of word characters over which no
quoted word reaches, or what stands between quotes that are not paired otherwise.
-/
inductive Selectable (left : Text) : Text → Text → Prop where
  | run
      {word right : Text} :
      word ≠ [] →
      (∀ char ∈ word, isCursorWordChar char = true) →
      left.getLast?.any isCursorWordChar = false →
      right.head?.any isCursorWordChar = false →
      quoting left = .closed ∨ '"' ∉ right →
      Selectable left word right
  | quoted
      {inside right : Text} :
      inside ≠ [] →
      '"' ∉ inside →
      quoting left ≠ .opened →
      Selectable left ('"' :: inside ++ ['"']) right

section Selection

variable {left word right : Text}

theorem selectable_iff :
    Selectable left word right ↔
      Free left (word ++ right) ∧
        cursorWordAt? (word ++ right) = some (word.length, word) := by
  constructor
  · intro selectable
    cases selectable with
    | run nonempty inWord before after quotes =>
        have unquoted : '"' ∉ word :=
          fun member => (isCursorWordChar_visible (inWord _ member)).2 rfl
        refine ⟨⟨by simp [before], ?_⟩, cursorWordAt?_run nonempty inWord after⟩
        rcases quotes with closed | absent
        · exact .inl closed
        · exact .inr (.inl (by simp [unquoted, absent]))
    | @quoted inside _ filled absent notOpen =>
        have outside : isCursorWordChar '"' = false := by decide
        refine ⟨⟨by simp [outside], ?_⟩, cursorWordAt?_quoted filled absent right⟩
        cases state : quoting left with
        | closed => exact .inl rfl
        | begun => exact .inr (.inr ⟨rfl, rfl⟩)
        | opened => exact absurd state notOpen
  · rintro ⟨free, matched⟩
    rcases quoted_or_run_of_cursorWordAt? matched with
      ⟨inside, rfl, filled, absent⟩ | ⟨nonempty, inWord, ends⟩
    · exact .quoted filled absent (free.ne_opened (by simp))
    · have starts : (word ++ right).head?.any isCursorWordChar = true := by
        obtain ⟨first, more, rfl⟩ := List.exists_cons_of_ne_nil nonempty
        exact inWord first List.mem_cons_self
      refine .run nonempty inWord ?_ ends ?_
      · rw [← Bool.not_eq_true]
        exact fun last => free.noRun ⟨last, starts⟩
      · rcases free.noQuote with closed | absent | ⟨-, quote⟩
        · exact .inl closed
        · exact .inr fun member => absent (List.mem_append_right _ member)
        · rw [quote] at starts
          cases starts

/-- The search finds exactly the selectable words. -/
theorem mem_findMatches_iff :
    (⟨byteLength left, byteLength left + byteLength word⟩, word) ∈
        findMatches cursorWordAt? (left ++ (word ++ right)) ↔
      Selectable left word right := by
  rw [selectable_iff]
  constructor
  · intro member
    obtain ⟨front, later, length, whole, found, place⟩ := exists_of_mem_findMatches member
    have isFront : front = left := by
      rw [← before_eq whole (Span.mk.inj place).1, before_eq rfl rfl]
    rw [isFront] at whole
    obtain rfl := List.append_cancel_left whole
    obtain ⟨nonempty, behind, isBehind, -, matched⟩ := exists_of_cursorWordAt? found
    rw [← isBehind] at matched
    refine ⟨Arrives.free ?_, matched⟩
    rcases arrives_or_covered left (word ++ right) with
      arrives | ⟨earlier, inside, outside, later, isLeft, isRest, starts, ends, arrives, covers⟩
    · exact arrives
    · -- A word that reached over the place would overlap the one that is found there.
      have covering := arrives.mem_findMatches covers
      have shape : earlier ++ ((inside ++ outside) ++ later) = left ++ (word ++ right) := by
        rw [isLeft, isRest]
        simp
      rw [shape] at covering
      have size := byteLength_pos nonempty
      have startsBefore := byteLength_pos starts
      have endsBehind := byteLength_pos ends
      have leftSize := congrArg byteLength isLeft
      rw [byteLength_append] at leftSize
      rcases apart_of_mem_findMatches covering member with same | before | behind
      · have sameStart := (Span.mk.inj (Prod.mk.inj same).1).1
        omega
      · simp only [byteLength_append] at before
        omega
      · simp only at behind
        omega
  · rintro ⟨free, matched⟩
    exact free.arrives.mem_findMatches matched

end Selection

/-- The line of a word that does not end with a carriage return has all of the word. -/
theorem exists_isLine_of_word
    {text front word back : Text}
    (whole : text = front ++ (word ++ back))
    (single : '\n' ∉ word)
    (nonempty : word ≠ [])
    (solid : word.getLast? ≠ some '\r') :
    ∃ above left right behind,
      IsLine text (front.count '\n') above (left ++ (word ++ right)) behind ∧
        front = above ++ left ∧
          lineSpan? text (front.count '\n') =
            some ⟨byteLength above, byteLength above + byteLength (left ++ (word ++ right))⟩ ∧
            lineText text (front.count '\n') = left ++ (word ++ right) := by
  obtain ⟨place, isFront, isBack⟩ := Place.exists_of_append whole
  have number := place.count_front
  obtain ⟨behind, isLine⟩ := place.exists_isLine
  have span := place.lineSpan?_eq
  have content := place.lineText_eq
  rw [← number, isFront] at isLine span content
  obtain ⟨more, isRight⟩ : ∃ more, place.right = word ++ more := by
    rw [Place.back] at isBack
    cases isBelow : place.below with
    | nil =>
        rw [isBelow, started_nil, List.append_nil] at isBack
        exact ⟨back, isBack⟩
    | cons next others =>
        rw [isBelow, started_cons] at isBack
        exact exists_append_of_not_mem single isBack.symm
  obtain ⟨right, isLineText⟩ : ∃ right, dropReturn place.line = place.left ++ (word ++ right) := by
    obtain ⟨returns, shape, areReturns, -⟩ := exists_returns place.line
    have split : (place.left ++ word) ++ more = dropReturn place.line ++ returns := by
      rw [← shape, Place.line, isRight, List.append_assoc]
    rcases List.append_eq_append_iff.mp split with ⟨right, isText, -⟩ | ⟨right, isText, isReturns⟩
    · exact ⟨right, by rw [isText, List.append_assoc]⟩
    · -- What is dropped is a carriage return, so none of the word is.
      rcases List.eq_nil_or_concat right with rfl | ⟨most, last, rfl⟩
      · exact ⟨[], by rw [List.append_nil] at isText ⊢; exact isText.symm⟩
      · have isLast := congrArg List.getLast? isText
        rw [List.getLast?_append_of_ne_nil _ nonempty, List.concat_eq_append, ← List.append_assoc,
          List.getLast?_concat, areReturns last (by rw [isReturns]; simp)] at isLast
        exact absurd isLast solid
  rw [isLineText] at isLine span content
  exact ⟨_, _, right, behind, isLine, isFront.symm, span, content⟩

/-- A place inside a word divides it. -/
theorem exists_append_of_inside
    {text front word back : Text}
    {offset : Nat}
    (whole : text = front ++ (word ++ back))
    (boundary : isBoundary offset text = true)
    (starts : byteLength front < offset)
    (stops : offset < byteLength front + byteLength word) :
    ∃ one two, word = one ++ two ∧ one ≠ [] ∧ two ≠ [] ∧ byteLength (front ++ one) = offset := by
  obtain ⟨upTo, rest, split, rfl⟩ := isBoundary_iff.mp boundary
  rw [whole] at split
  rcases List.append_eq_append_iff.mp split with ⟨one, rfl, shape⟩ | ⟨more, rfl, -⟩
  · rw [byteLength_append] at starts stops
    rcases List.append_eq_append_iff.mp shape with ⟨more, rfl, -⟩ | ⟨two, rfl, -⟩
    · rw [byteLength_append] at stops
      omega
    · refine ⟨one, two, rfl, ?_, ?_, rfl⟩
      · rintro rfl
        exact Nat.lt_irrefl _ starts
      · rintro rfl
        rw [List.append_nil] at stops
        exact Nat.lt_irrefl _ stops
  · rw [byteLength_append] at starts
    omega

/-- A cursor inside a word selects it exactly if it is selectable on its line. -/
theorem wordAt?_eq_some_iff
    {text front word back above left right : Text}
    {offset : Nat}
    (whole : text = front ++ (word ++ back))
    (boundary : isBoundary offset text = true)
    (starts : byteLength front < offset)
    (stops : offset < byteLength front + byteLength word)
    (single : '\n' ∉ word)
    (isFront : front = above ++ left)
    (isSpan : lineSpan? text (front.count '\n') =
      some ⟨byteLength above, byteLength above + byteLength (left ++ (word ++ right))⟩)
    (isText : lineText text (front.count '\n') = left ++ (word ++ right)) :
    wordAt? text (positionOf text offset) =
        some ⟨⟨byteLength front, byteLength front + byteLength word⟩, word⟩ ↔
      Selectable left word right := by
  obtain ⟨one, two, rfl, oneNonempty, twoNonempty, rfl⟩ :=
    exists_append_of_inside whole boundary starts stops
  have inner : text = (front ++ one) ++ (two ++ back) := by
    simpa using whole
  have settles : settled (front ++ one) (two ++ back) := by
    intro _
    obtain ⟨char, more, rfl⟩ := List.exists_cons_of_ne_nil twoNonempty
    refine ⟨char, more ++ back, rfl, ?_⟩
    rintro rfl
    exact single (by simp)
  have placed := offsetOf?_positionOf inner rfl settles
  have onLine : (positionOf text (byteLength (front ++ one))).line = front.count '\n' := by
    obtain ⟨place, isPlace, -⟩ := Place.exists_of_append inner
    have absent : one.count '\n' = 0 :=
      List.count_eq_zero.mpr fun member => single (List.mem_append_left _ member)
    rw [← isPlace, place.positionOf_eq]
    show place.above.length = front.count '\n'
    rw [← place.count_front, isPlace, List.count_append, absent, Nat.add_zero]
  have column :
      byteLength (front ++ one) - byteLength above = byteLength left + byteLength one := by
    rw [isFront]
    simp only [byteLength_append]
    omega
  rw [wordAt?, onLine, isSpan, isText, placed, ← mem_findMatches_iff]
  simp only [Option.bind_eq_bind, Option.bind_some, Option.bind_eq_some_iff, Option.some.injEq,
    Located.mk.injEq, column]
  constructor
  · rintro ⟨⟨⟨start, stop⟩, word⟩, isFound, isPlace, rfl⟩
    simp only [Span.shift, Span.mk.injEq, isFront, byteLength_append] at isPlace
    have isLeft : start = byteLength left := by omega
    have isRight : stop = byteLength left + byteLength (one ++ two) := by
      rw [byteLength_append]
      omega
    rw [isLeft, isRight] at isFound
    exact List.mem_of_find?_eq_some isFound
  · intro member
    have oneSize := byteLength_pos oneNonempty
    have twoSize := byteLength_pos twoNonempty
    refine ⟨_, find?_eq_of_mem (pairwise_findMatches _ _) member ?_ ?_, ?_, rfl⟩
    · simp only
      omega
    · simp only [byteLength_append]
      omega
    · simp only [Span.shift, isFront, byteLength_append, Nat.add_assoc]

end Text

end RoutineServer
