import RoutineServer.Proofs.Text.Spelling
import RoutineServer.Routine.Name

namespace RoutineServer

/-!
# Names and their normal forms

A plain name is read as far as it goes, a quoted one up to its closing quote. A
name without blanks and quotes is its own normal form, and the normal form of a
quoted name is what its quotes enclose.
-/

theorem isNameChar_ascii
    {char : Char}
    (inName : isNameChar char = true) :
    char.toNat < 0x80 := by
  simp only [isNameChar, Bool.or_eq_true, beq_iff_eq] at inName
  rcases inName with (((alphanumeric | rfl) | rfl) | rfl) | rfl
  · exact Text.ascii_of_isAlphanum alphanumeric
  all_goals decide

/-- A name character is no blank and no quote. -/
theorem isNameChar_visible
    {char : Char}
    (inName : isNameChar char = true) :
    isBlank char = false ∧ char ≠ '"' := by
  have ascii := isNameChar_ascii inName
  revert inName
  exact forall_ascii (fun char => isNameChar char = true → isBlank char = false ∧ char ≠ '"')
    (by decide +kernel) char ascii

namespace Text

theorem trimStart_eq_self
    {text : Text}
    (visible : ∀ char ∈ text.head?, isBlank char = false) :
    trimStart text = text := by
  cases text with
  | nil =>
      rfl
  | cons char rest =>
      rw [trimStart, List.dropWhile_cons_of_neg]
      simp [visible char rfl]

/-- A text without blanks at its ends is trimmed. -/
theorem trim_eq_self
    {text : Text}
    (starts : ∀ char ∈ text.head?, isBlank char = false)
    (ends : ∀ char ∈ text.getLast?, isBlank char = false) :
    trim text = text := by
  have reversed : trimStart text.reverse = text.reverse :=
    trimStart_eq_self fun char member => ends char (by rwa [List.head?_reverse] at member)
  rw [trimStart] at reversed
  rw [trim, trimStart_eq_self starts, trimEnd, reversed, List.reverse_reverse]

theorem exists_append_trim
    (text : Text) :
    ∃ before behind, text = before ++ (trim text ++ behind) := by
  have front : text = text.takeWhile isBlank ++ trimStart text :=
    List.takeWhile_append_dropWhile.symm
  have back : trim text ++ ((trimStart text).reverse.takeWhile isBlank).reverse =
      trimStart text := by
    rw [trim, trimEnd, ← List.reverse_append, List.takeWhile_append_dropWhile,
      List.reverse_reverse]
  exact ⟨_, _, front.trans (congrArg _ back.symm)⟩

end Text

namespace Name

/-- Without quotes there is nothing to free a name of but blanks. -/
theorem normalize_of_unquoted
    {name : Text}
    (unquoted : '"' ∉ Text.trim name) :
    normalize name = Text.trim name := by
  rw [normalize]
  split
  · rename_i shape
    rw [shape] at unquoted
    exact absurd List.mem_cons_self unquoted
  · rfl

/-- A word without blanks and quotes is its own normal form. -/
theorem normalize_eq_self
    {name : Text}
    (visible : ∀ char ∈ name, isBlank char = false ∧ char ≠ '"') :
    normalize name = name := by
  have trimmed : Text.trim name = name :=
    Text.trim_eq_self (fun char first => (visible char (List.mem_of_mem_head? first)).1)
      fun char last => (visible char (List.mem_of_mem_getLast? last)).1
  rw [normalize_of_unquoted, trimmed]
  rw [trimmed]
  exact fun member => (visible '"' member).2 rfl

/-- The normal form of a quoted name is what the quotes enclose. -/
theorem normalize_quoted
    (inside : Text) :
    normalize ('"' :: (inside ++ ['"'])) = undouble inside := by
  have visible : isBlank '"' = false := by decide
  have trimmed : Text.trim ('"' :: (inside ++ ['"'])) = '"' :: (inside ++ ['"']) := by
    apply Text.trim_eq_self
    · simpa using visible
    · rw [← List.cons_append, List.getLast?_concat]
      simpa using visible
  rw [normalize, trimmed]
  simp

theorem double_eq_self
    {name : Text}
    (unquoted : '"' ∉ name) :
    double name = name := by
  induction name with
  | nil =>
      rfl
  | cons char rest inductionHypothesis =>
      simp only [List.mem_cons, not_or] at unquoted
      rw [double, inductionHypothesis unquoted.2]
      simp [Ne.symm unquoted.1]

theorem quote_ne_nil
    (name : Text) :
    quote name ≠ [] :=
  List.cons_ne_nil _ _

theorem quote_of_unquoted
    {name : Text}
    (unquoted : '"' ∉ name) :
    quote name = '"' :: name ++ ['"'] := by
  rw [quote, double_eq_self unquoted]

theorem undouble_eq_self
    {text : Text}
    (unquoted : '"' ∉ text) :
    undouble text = text := by
  fun_induction undouble text with
  | case1 rest inductionHypothesis =>
      exact absurd List.mem_cons_self unquoted
  | case2 char rest _ inductionHypothesis =>
      rw [inductionHypothesis fun later => unquoted (List.mem_cons_of_mem _ later)]
  | case3 =>
      rfl

/-- Freed of its doubled quotes, a text still has the same characters. -/
theorem mem_undouble
    {text : Text}
    {char : Char} :
    char ∈ undouble text ↔ char ∈ text := by
  fun_induction undouble text with
  | case1 rest inductionHypothesis =>
      simp [inductionHypothesis]
  | case2 first rest _ inductionHypothesis =>
      simp [inductionHypothesis]
  | case3 =>
      rfl

/-- How a name is written in front of the text behind it: as long as it can be, or in quotes. -/
inductive Token : Text → Text → Prop where
  | plain
      {spelling behind : Text} :
      spelling ≠ [] →
      (∀ char ∈ spelling, isNameChar char = true) →
      behind.head?.any isNameChar = false →
      Token spelling behind
  | quoted
      {inside behind : Text} :
      Token ('"' :: (inside ++ ['"'])) behind

/-- Behind a name the token does not change if something is left. -/
theorem Token.append
    {spelling behind : Text}
    (token : Token spelling behind)
    (remains : behind ≠ [])
    (more : Text) :
    Token spelling (behind ++ more) := by
  cases token with
  | quoted => exact .quoted
  | plain nonempty inside ends =>
      refine .plain nonempty inside ?_
      cases behind with
      | nil => exact absurd rfl remains
      | cons char rest => exact ends

theorem Token.plain_or_quoted
    {spelling behind : Text}
    (token : Token spelling behind) :
    (∀ char ∈ spelling, isNameChar char = true) ∧ behind.head?.any isNameChar = false ∨
      ∃ inside, spelling = '"' :: (inside ++ ['"']) := by
  cases token with
  | plain _ inside ends => exact .inl ⟨inside, ends⟩
  | quoted => exact .inr ⟨_, rfl⟩

/-- A quoted name is a doubled text and a quote, or it takes up all that is left. -/
theorem quotedLength_cases
    (text : Text) :
    quotedLength text = text.length ∨
      ∃ name, text.take (quotedLength text) = double name ++ ['"'] := by
  fun_induction quotedLength text with
  | case1 rest inductionHypothesis =>
      rcases inductionHypothesis with all | ⟨name, taken⟩
      · exact .inl (by simp [all])
      · exact .inr ⟨'"' :: name, by simp [double, taken]⟩
  | case2 rest other =>
      exact .inr ⟨[], rfl⟩
  | case3 char rest other plain inductionHypothesis =>
      rcases inductionHypothesis with all | ⟨name, taken⟩
      · exact .inl (by simp [all])
      · have notQuote : char ≠ '"' := plain
        exact .inr ⟨char :: name, by simp [double, taken, notQuote]⟩
  | case4 =>
      exact .inl rfl

theorem token_of_length
    {text : Text}
    (nonempty : text.take (length text) ≠ [])
    (remains : text.drop (length text) ≠ []) :
    Token (text.take (length text)) (text.drop (length text)) := by
  by_cases quote : ∃ rest, text = '"' :: rest
  · obtain ⟨rest, rfl⟩ := quote
    rw [length, List.take_succ_cons, List.drop_succ_cons] at *
    rcases quotedLength_cases rest with all | ⟨inside, taken⟩
    · exact absurd (List.drop_eq_nil_of_le (Nat.le_of_eq all.symm)) remains
    · rw [taken]
      exact .quoted
  · have plain : length text = (text.takeWhile isNameChar).length := by
      rw [length]
      rintro rest rfl
      exact quote ⟨rest, rfl⟩
    have taken : text.take (length text) = text.takeWhile isNameChar := by
      rw [plain]
      exact (List.prefix_iff_eq_take.mp (List.takeWhile_prefix isNameChar)).symm
    have dropped : text.drop (length text) = text.dropWhile isNameChar := by
      have split :=
        (List.take_append_drop (length text) text).trans
          (List.takeWhile_append_dropWhile (p := isNameChar)).symm
      rw [taken] at split
      exact List.append_cancel_left split
    rw [taken] at nonempty ⊢
    rw [dropped]
    exact .plain nonempty (fun char member => List.mem_takeWhile_imp member)
      (any_head?_dropWhile isNameChar text)

/-- A name is read behind blanks; if it does not take up all that is left, it is a token. -/
theorem read?_eq_some
    {text : Text}
    {reading : Reading}
    (found : read? text = some reading) :
    ∃ blanks rest,
      text = blanks ++ (reading.spelling ++ rest) ∧ blanks.length = reading.skipped ∧
        (∀ char ∈ blanks, isBlank char = true) ∧
          (rest ≠ [] → Token reading.spelling rest) := by
  simp only [read?, Option.ite_none_left_eq_some, Option.some.injEq] at found
  obtain ⟨nonempty, rfl⟩ := found
  refine ⟨text.takeWhile isBlank, (Text.trimStart text).drop (length (Text.trimStart text)),
    ?_, rfl, fun char member => List.mem_takeWhile_imp member, ?_⟩
  · rw [List.take_append_drop]
    exact List.takeWhile_append_dropWhile.symm
  · exact token_of_length (by simpa [List.isEmpty_iff] using nonempty)

end Name

end RoutineServer
