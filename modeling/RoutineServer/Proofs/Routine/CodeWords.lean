import RoutineServer.Proofs.Routine.EndingAlignment

namespace RoutineServer

/-!
# Words, tags and keywords of code

A word is a longest run of letters, digits and underscores of ASCII. A text can
be looked at piece by piece where no word reaches over the place between the
pieces. Besides words the search for the end of a declaration reads dollar-quote
tags; a dollar sign in front of a digit is a parameter and starts no tag.
-/

/-- No word reaches over the place between two texts. -/
def WordBreak (left right : Text) : Prop :=
  ¬ (left.getLast?.any isKeywordChar = true ∧ right.head?.any isKeywordChar = true)

instance (left right : Text) : Decidable (WordBreak left right) :=
  inferInstanceAs (Decidable (¬ _))

theorem takeWhile_eq_nil_of_head
    {text : Text}
    (outside : text.head?.any isKeywordChar = false) :
    text.takeWhile isKeywordChar = [] := by
  cases text with
  | nil => rfl
  | cons char rest => exact List.takeWhile_cons_of_neg (by simpa using outside)

namespace WordBreak

variable {left right : Text}

theorem of_head
    (outside : right.head?.any isKeywordChar = false)
    (left : Text) :
    WordBreak left right := by
  rintro ⟨-, inside⟩
  rw [outside] at inside
  cases inside

theorem of_getLast
    (outside : left.getLast?.any isKeywordChar = false)
    (right : Text) :
    WordBreak left right := by
  rintro ⟨inside, -⟩
  rw [outside] at inside
  cases inside

theorem head
    (apart : WordBreak left right)
    (inside : left.getLast?.any isKeywordChar = true) :
    right.head?.any isKeywordChar = false := by
  rw [← Bool.not_eq_true]
  exact fun starts => apart ⟨inside, starts⟩

theorem getLast
    (apart : WordBreak left right)
    (inside : right.head?.any isKeywordChar = true) :
    left.getLast?.any isKeywordChar = false := by
  rw [← Bool.not_eq_true]
  exact fun ends => apart ⟨ends, inside⟩

theorem tail
    {first second : Char}
    {rest : Text}
    (apart : WordBreak (first :: second :: rest) right) :
    WordBreak (second :: rest) right := by
  rwa [WordBreak, List.getLast?_cons_cons] at apart

/-- A run of keyword characters that starts in front of a break ends there at the latest. -/
theorem takeWhile_append
    (apart : WordBreak left right)
    (nonempty : left ≠ []) :
    (left ++ right).takeWhile isKeywordChar = left.takeWhile isKeywordChar := by
  induction left with
  | nil =>
      exact absurd rfl nonempty
  | cons char rest inductionHypothesis =>
      by_cases inside : isKeywordChar char = true
      · rw [List.cons_append, List.takeWhile_cons_of_pos inside, List.takeWhile_cons_of_pos inside]
        cases rest with
        | nil =>
            rw [List.nil_append, takeWhile_eq_nil_of_head (apart.head (by simpa using inside))]
            rfl
        | cons second more => rw [inductionHypothesis apart.tail (by simp)]
      · rw [List.cons_append, List.takeWhile_cons_of_neg inside, List.takeWhile_cons_of_neg inside]

/-- The first character of a text decides whether a word reaches over into it. -/
theorem append_right
    {middle : Text}
    (apart : WordBreak left middle)
    (nonempty : middle ≠ [])
    (right : Text) :
    WordBreak left (middle ++ right) := by
  rwa [WordBreak, List.head?_append_of_ne_nil _ nonempty]

theorem of_append_right
    {middle : Text}
    (apart : WordBreak left (middle ++ right)) :
    WordBreak left middle := by
  cases middle with
  | nil => exact .of_head rfl left
  | cons char rest => exact apart

end WordBreak

/-- A word is bounded by what stands on either side of it. -/
structure Delimited (left word right : Text) : Prop where
  before : WordBreak left word
  after : WordBreak word right

instance (left word right : Text) : Decidable (Delimited left word right) :=
  decidable_of_iff (WordBreak left word ∧ WordBreak word right)
    ⟨fun ⟨before, after⟩ => ⟨before, after⟩, fun ⟨before, after⟩ => ⟨before, after⟩⟩

/--
The words of a text from a place on, told whether the place is inside a word,
which then is not listed.
-/
def wordsFrom : Bool → Text → List Text
  | _, [] => []
  | inside, char :: rest =>
      if isKeywordChar char then
        if inside then wordsFrom true rest
        else (char :: rest).takeWhile isKeywordChar :: wordsFrom true rest
      else
        wordsFrom false rest

/-- The words of a text: its longest runs of keyword characters. -/
def codeWords (code : Text) : List Text :=
  wordsFrom false code

theorem wordsFrom_of_head
    {text : Text}
    (outside : text.head?.any isKeywordChar = false)
    (inside : Bool) :
    wordsFrom inside text = codeWords text := by
  cases text with
  | nil => rfl
  | cons char rest => simp_all [codeWords, wordsFrom]

theorem wordsFrom_append
    {left right : Text}
    (apart : WordBreak left right)
    (nonempty : left ≠ [])
    (inside : Bool) :
    wordsFrom inside (left ++ right) = wordsFrom inside left ++ codeWords right := by
  induction left generalizing inside with
  | nil =>
      exact absurd rfl nonempty
  | cons char rest inductionHypothesis =>
      have later (within : Bool) (same : within = isKeywordChar char) :
          wordsFrom within (rest ++ right) = wordsFrom within rest ++ codeWords right := by
        cases rest with
        | cons second more => exact inductionHypothesis apart.tail (by simp) within
        | nil =>
            cases within with
            | false => rfl
            | true => exact wordsFrom_of_head (apart.head (by simpa using same.symm)) true
      have word := apart.takeWhile_append nonempty
      rw [List.cons_append] at word ⊢
      by_cases keyword : isKeywordChar char = true
      · rw [wordsFrom, wordsFrom, if_pos keyword, if_pos keyword, later true keyword.symm, word]
        cases inside with
        | true => rfl
        | false => rfl
      · rw [wordsFrom, wordsFrom, if_neg keyword, if_neg keyword,
          later false (by simpa using keyword)]

/-- Between pieces without a word in common, the words are those of the pieces. -/
theorem codeWords_append
    {left right : Text}
    (apart : WordBreak left right) :
    codeWords (left ++ right) = codeWords left ++ codeWords right := by
  cases left with
  | nil => rfl
  | cons char rest => exact wordsFrom_append apart (by simp) false

/-- A text that is a single word. -/
structure IsWord (word : Text) : Prop where
  nonempty : word ≠ []
  keywordChars : ∀ char ∈ word, isKeywordChar char = true

namespace IsWord

variable {word : Text}

theorem head
    (isWord : IsWord word) :
    word.head?.any isKeywordChar = true := by
  obtain ⟨char, rest, rfl⟩ := List.exists_cons_of_ne_nil isWord.nonempty
  simpa using isWord.keywordChars char List.mem_cons_self

theorem getLast
    (isWord : IsWord word) :
    word.getLast?.any isKeywordChar = true := by
  rw [List.getLast?_eq_some_getLast isWord.nonempty]
  exact isWord.keywordChars _ (List.getLast_mem isWord.nonempty)

theorem takeWhile_append
    (isWord : IsWord word)
    {rest : Text}
    (apart : WordBreak word rest) :
    (word ++ rest).takeWhile isKeywordChar = word := by
  rw [apart.takeWhile_append isWord.nonempty, List.takeWhile_eq_self_iff]
  exact isWord.keywordChars

end IsWord

/-- A text that starts inside a word starts with a whole one, if nothing precedes it. -/
theorem exists_word_of_head
    {text : Text}
    (starts : text.head?.any isKeywordChar = true) :
    ∃ word behind, text = word ++ behind ∧ IsWord word ∧
      behind.head?.any isKeywordChar = false := by
  refine ⟨text.takeWhile isKeywordChar, text.dropWhile isKeywordChar,
    List.takeWhile_append_dropWhile.symm,
    ⟨fun empty => ?_, fun char member => List.mem_takeWhile_imp member⟩,
    any_head?_dropWhile isKeywordChar text⟩
  rw [any_head?_eq, empty] at starts
  cases starts

theorem wordsFrom_true_of_word
    {word : Text}
    (keywordChars : ∀ char ∈ word, isKeywordChar char = true) :
    wordsFrom true word = [] := by
  induction word with
  | nil => rfl
  | cons char rest inductionHypothesis =>
      rw [wordsFrom, if_pos (keywordChars char List.mem_cons_self), if_pos rfl]
      exact inductionHypothesis fun other member => keywordChars other (.tail _ member)

theorem codeWords_word
    {word : Text}
    (isWord : IsWord word) :
    codeWords word = [word] := by
  have whole : word.takeWhile isKeywordChar = word :=
    List.takeWhile_eq_self_iff.mpr isWord.keywordChars
  cases word with
  | nil => exact absurd rfl isWord.nonempty
  | cons char rest =>
      rw [codeWords, wordsFrom, if_pos (isWord.keywordChars char List.mem_cons_self),
        if_neg Bool.false_ne_true, whole, wordsFrom_true_of_word]
      exact fun other member => isWord.keywordChars other (.tail _ member)

theorem codeWords_append_word
    {passed word : Text}
    (apart : WordBreak passed word)
    (isWord : IsWord word) :
    codeWords (passed ++ word) = codeWords passed ++ [word] := by
  rw [codeWords_append apart, codeWords_word isWord]

theorem codeWords_append_other
    {char : Char}
    (other : isKeywordChar char = false)
    (passed : Text) :
    codeWords (passed ++ [char]) = codeWords passed := by
  rw [codeWords_append (.of_head (by simpa using other) passed)]
  simp [codeWords, wordsFrom, other]

/-- A dollar-quote tag: a label or none between dollar signs. -/
def IsTag (tag : Text) : Prop :=
  ∃ label, tag = '$' :: label ++ ['$'] ∧
    (∀ char ∈ label, isKeywordChar char = true) ∧ label.head?.any Char.isDigit = false

theorem startsLabel_of_isKeywordChar
    {char : Char}
    (keyword : isKeywordChar char = true)
    (other : char.isDigit = false) :
    startsLabel char = true := by
  simpa [isKeywordChar, startsLabel, Char.isAlphanum, other] using keyword

/-- A tag is found as such, whatever follows it. -/
theorem dollarTagLength?_append
    {tag : Text}
    (isTag : IsTag tag)
    (rest : Text) :
    dollarTagLength? (tag ++ rest) = some tag.length := by
  obtain ⟨label, rfl, keywordChars, notDigit⟩ := isTag
  have shape : '$' :: label ++ ['$'] ++ rest = '$' :: (label ++ '$' :: rest) := by simp
  rw [shape, dollarTagLength?_dollar]
  cases label with
  | nil => rfl
  | cons char more =>
      have isWord : IsWord (char :: more) := ⟨by simp, keywordChars⟩
      have starts : startsLabel char = true :=
        startsLabel_of_isKeywordChar (keywordChars char List.mem_cons_self)
          (by simpa using notDigit)
      have notDollar : char ≠ '$' := ne_of_holds starts (by decide)
      have label : (char :: more ++ '$' :: rest).takeWhile isKeywordChar = char :: more :=
        isWord.takeWhile_append (.of_head rfl _)
      rw [label, List.drop_left]
      simp [starts, notDollar]

theorem isDigit_iff_toNat
    {char : Char} :
    char.isDigit = true ↔ 48 ≤ char.toNat ∧ char.toNat ≤ 57 := by
  change (decide (48 ≤ char.val) && decide (char.val ≤ 57)) = true ↔ _
  simp [UInt32.le_iff_toNat_le, ← Char.toNat_val]

/-- A dollar sign in front of a digit starts no tag. -/
theorem dollarTagLength?_digit
    {rest : Text}
    (digit : rest.head?.any Char.isDigit = true) :
    dollarTagLength? ('$' :: rest) = none := by
  rw [dollarTagLength?_dollar]
  cases rest with
  | nil => rfl
  | cons char more =>
      have isDigit : char.isDigit = true := by simpa using digit
      have notDollar : char ≠ '$' := ne_of_holds isDigit (by decide)
      have notLabel : startsLabel char = false := by
        have notLetter : ¬ char.isAlpha = true := by
          rw [isAlpha_iff_toNat]
          rw [isDigit_iff_toNat] at isDigit
          omega
        have notUnderscore : char ≠ '_' := ne_of_holds isDigit (by decide)
        simp [startsLabel, notLetter, notUnderscore]
      simp [notDollar, notLabel]

/-- Whether every dollar sign stands directly in front of a digit. -/
def dollarsBeforeDigits : Text → Bool
  | [] => true
  | char :: rest => (char != '$' || rest.head?.any Char.isDigit) && dollarsBeforeDigits rest

theorem digit_of_dollarsBeforeDigits
    {front rest : Text}
    (dollars : dollarsBeforeDigits (front ++ '$' :: rest) = true) :
    rest.head?.any Char.isDigit = true := by
  induction front with
  | nil =>
      rw [List.nil_append, dollarsBeforeDigits, Bool.and_eq_true] at dollars
      exact dollars.1
  | cons char more inductionHypothesis =>
      rw [List.cons_append, dollarsBeforeDigits, Bool.and_eq_true] at dollars
      exact inductionHypothesis dollars.2

theorem dollarsBeforeDigits_of_not_mem
    {code : Text}
    (none : '$' ∉ code) :
    dollarsBeforeDigits code = true := by
  induction code with
  | nil => rfl
  | cons char rest inductionHypothesis =>
      rw [List.mem_cons, not_or] at none
      simp [dollarsBeforeDigits, Ne.symm none.1, inductionHypothesis none.2]

/-- A word is a keyword, in any letter case. -/
def IsKeyword (keyword : String) (word : Text) : Prop :=
  Text.equalAsciiCase word keyword.toList = true

instance (keyword : String) (word : Text) : Decidable (IsKeyword keyword word) :=
  inferInstanceAs (Decidable (_ = _))

theorem isKeyword_iff
    {keyword : String}
    {word : Text} :
    IsKeyword keyword word ↔ word.map Char.toLower = keyword.toList.map Char.toLower :=
  beq_iff_eq

theorem isKeywordChar_of_toLower
    {char : Char}
    (small : isKeywordChar char.toLower = true) :
    isKeywordChar char = true := by
  by_cases capital : char.isUpper = true
  · have letter : char.isAlpha = true := isAlpha_iff_toNat.mpr (.inl (isUpper_iff_toNat.mp capital))
    simp [isKeywordChar, Char.isAlphanum, letter]
  · rwa [toLower_of_not_isUpper capital] at small

/-- A keyword is a word. -/
theorem IsKeyword.isWord
    {keyword : String}
    {word : Text}
    (spelled : IsKeyword keyword word)
    (proper : keyword.toList.map Char.toLower ≠ [] ∧
      (keyword.toList.map Char.toLower).all isKeywordChar = true) :
    IsWord word := by
  rw [isKeyword_iff] at spelled
  rw [← spelled, List.all_eq_true] at proper
  exact ⟨by simpa using proper.1, fun char member =>
    isKeywordChar_of_toLower (proper.2 _ (List.mem_map_of_mem member))⟩

/-- A word is not two different keywords. -/
theorem IsKeyword.other
    {keyword other : String}
    {word : Text}
    (spelled : IsKeyword keyword word)
    (differ : keyword.toList.map Char.toLower ≠ other.toList.map Char.toLower) :
    ¬ IsKeyword other word := by
  rw [isKeyword_iff] at spelled ⊢
  rwa [spelled]

theorem not_isBlank_of_isKeywordChar
    {char : Char}
    (keyword : isKeywordChar char = true) :
    isBlank char = false := by
  simp only [isKeywordChar, Char.isAlphanum, Bool.or_eq_true, beq_iff_eq] at keyword
  rcases keyword with (letter | digit) | rfl
  · exact not_isBlank_of_isAlpha letter
  · rw [isDigit_iff_toNat] at digit
    simp only [isBlank, Bool.or_eq_false_iff, Bool.and_eq_false_iff, decide_eq_false_iff_not,
      beq_eq_false_iff_ne]
    omega
  · decide

/-- The word behind the blanks at the start of a text; empty if there is none. -/
def nextWord (text : Text) : Text :=
  (Text.trimStart text).takeWhile isKeywordChar

/-- A text of blanks only. -/
def IsGap (gap : Text) : Prop :=
  ∀ char ∈ gap, isBlank char = true

instance (gap : Text) : Decidable (IsGap gap) :=
  List.decidableBAll _ gap

namespace IsGap

variable {gap rest : Text}

/-- The blanks at the start of a text, if a visible character follows them. -/
theorem trimStart_append
    (isGap : IsGap gap)
    (visible : rest.head?.any isBlank = false) :
    Text.trimStart (gap ++ rest) = rest ∧ Text.leadingBlanks (gap ++ rest) = gap.length := by
  have first : rest.dropWhile isBlank = rest ∧ rest.takeWhile isBlank = [] := by
    cases rest with
    | nil => exact ⟨rfl, rfl⟩
    | cons char more =>
        have shown : ¬ isBlank char = true := by simpa using visible
        exact ⟨List.dropWhile_cons_of_neg shown, List.takeWhile_cons_of_neg shown⟩
  rw [Text.trimStart, Text.leadingBlanks, List.dropWhile_append_of_pos isGap,
    List.takeWhile_append_of_pos isGap, first.1, first.2, List.append_nil]
  exact ⟨rfl, rfl⟩

end IsGap

theorem IsWord.head_visible
    {word : Text}
    (isWord : IsWord word)
    (rest : Text) :
    (word ++ rest).head?.any isBlank = false := by
  obtain ⟨char, more, rfl⟩ := List.exists_cons_of_ne_nil isWord.nonempty
  simpa using not_isBlank_of_isKeywordChar (isWord.keywordChars char List.mem_cons_self)

/-- The keyword after blanks is the next word, if there is one. -/
theorem nextKeyword?_eq
    (code : Text) :
    nextKeyword? code =
      if nextWord code = [] then none else some (Text.leadingBlanks code, nextWord code) := by
  rw [nextKeyword?, nextWord]
  cases (Text.trimStart code).takeWhile isKeywordChar with
  | nil => rfl
  | cons char rest => rfl

/-- Behind blanks a word is found as the next one. -/
theorem nextKeyword?_append
    {gap word rest : Text}
    (isGap : IsGap gap)
    (isWord : IsWord word)
    (apart : WordBreak word rest) :
    nextKeyword? (gap ++ (word ++ rest)) = some (gap.length, word) := by
  obtain ⟨trimmed, blanks⟩ := isGap.trimStart_append (isWord.head_visible rest)
  rw [nextKeyword?_eq, nextWord, trimmed, blanks, isWord.takeWhile_append apart,
    if_neg isWord.nonempty]

/-- A semicolon behind blanks is found there. -/
theorem semicolonAfterBlanks?_append
    {gap : Text}
    (isGap : IsGap gap)
    (rest : Text) :
    semicolonAfterBlanks? (gap ++ ';' :: rest) = some (gap.length + 1) := by
  have visible : (';' :: rest).head?.any isBlank = false := rfl
  obtain ⟨trimmed, blanks⟩ := isGap.trimStart_append visible
  rw [semicolonAfterBlanks?, trimmed, blanks]
  rfl

/-- The next word of a text does not depend on what follows, unless there are only blanks. -/
theorem nextWord_append
    {text following : Text}
    (apart : WordBreak text following)
    (visible : ¬ IsGap text) :
    nextWord (text ++ following) = nextWord text := by
  have nonempty : text.dropWhile isBlank ≠ [] := by
    rw [Ne, List.dropWhile_eq_nil_iff]
    exact visible
  have trimmed : Text.trimStart (text ++ following) = Text.trimStart text ++ following := by
    rw [Text.trimStart, List.dropWhile_append, if_neg (by simpa using nonempty)]
    rfl
  have last : (Text.trimStart text).getLast? = text.getLast? := by
    rw [Text.trimStart, ← List.getLast?_append_of_ne_nil (text.takeWhile isBlank) nonempty,
      List.takeWhile_append_dropWhile]
  have apartTrimmed : WordBreak (Text.trimStart text) following := by
    rwa [WordBreak, last]
  rw [nextWord, trimmed, apartTrimmed.takeWhile_append nonempty, nextWord]

theorem leadingBlanks_append
    {text : Text}
    (visible : ¬ IsGap text)
    (following : Text) :
    Text.leadingBlanks (text ++ following) = Text.leadingBlanks text := by
  have proper : (text.takeWhile isBlank).length ≠ text.length := by
    intro whole
    have same := (List.takeWhile_prefix isBlank).eq_of_length whole
    exact visible (List.takeWhile_eq_self_iff.mp same)
  rw [Text.leadingBlanks, List.takeWhile_append, if_neg proper, Text.leadingBlanks]

/-- A text that starts with neither has no part in the blanks and the word found in front of it. -/
theorem nextKeyword?_append_of_head
    {following : Text}
    (visible : following.head?.any isBlank = false)
    (outside : following.head?.any isKeywordChar = false)
    (text : Text) :
    nextKeyword? (text ++ following) = nextKeyword? text := by
  rw [nextKeyword?_eq, nextKeyword?_eq]
  by_cases gap : IsGap text
  · have behind : nextWord (text ++ following) = [] := by
      rw [nextWord, (gap.trimStart_append visible).1, takeWhile_eq_nil_of_head outside]
    have alone : nextWord text = [] := by
      rw [nextWord, Text.trimStart, List.dropWhile_eq_nil_iff.mpr gap]
      rfl
    rw [behind, alone]
    rfl
  · rw [nextWord_append (.of_head outside text) gap, leadingBlanks_append gap]

theorem exists_of_nextKeyword?
    {code word : Text}
    {blanks : Nat}
    (found : nextKeyword? code = some (blanks, word)) :
    ∃ gap rest, IsGap gap ∧ IsWord word ∧ rest.head?.any isKeywordChar = false ∧
      blanks = gap.length ∧ code = gap ++ (word ++ rest) := by
  rw [nextKeyword?_eq, Option.ite_none_left_eq_some, Option.some_inj, Prod.mk.injEq] at found
  obtain ⟨nonempty, rfl, rfl⟩ := found
  have starts : (Text.trimStart code).head?.any isKeywordChar = true := by
    rw [any_head?_eq, Bool.not_eq_true', List.isEmpty_eq_false_iff]
    exact nonempty
  obtain ⟨word, behind, shape, isWord, ends⟩ := exists_word_of_head starts
  have found : nextWord code = word := by
    rw [nextWord, shape, isWord.takeWhile_append (.of_head ends word)]
  rw [found]
  refine ⟨code.takeWhile isBlank, behind, fun char member => List.mem_takeWhile_imp member, isWord,
    ends, rfl, ?_⟩
  rw [← shape, Text.trimStart, List.takeWhile_append_dropWhile]

theorem exists_of_semicolonAfterBlanks?
    {code : Text}
    {length : Nat}
    (found : semicolonAfterBlanks? code = some length) :
    ∃ gap rest, IsGap gap ∧ code = gap ++ ';' :: rest := by
  rw [semicolonAfterBlanks?, Option.ite_none_right_eq_some, beq_iff_eq] at found
  obtain ⟨rest, shape⟩ := List.head?_eq_some_iff.mp found.1
  refine ⟨code.takeWhile isBlank, rest, fun char member => List.mem_takeWhile_imp member, ?_⟩
  rw [← shape, Text.trimStart, List.takeWhile_append_dropWhile]

end RoutineServer
