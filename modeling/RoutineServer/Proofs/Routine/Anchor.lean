import RoutineServer.Proofs.Text.Keyword
import RoutineServer.Routine.Anchor

namespace RoutineServer

/-!
# Where anchors can stand

An anchor starts at the front of a word, with a `c`. None of its other
characters is both: its other words start with other letters, and blanks are
not letters. So anchors never overlap.
-/

namespace Text

/-- The character in front of what follows a text, given the one in front of the text. -/
def previousAfter (previous : Option Char) (text : Text) : Option Char :=
  text.getLast?.or previous

@[simp] theorem previousAfter_nil
    (previous : Option Char) :
    previousAfter previous [] = previous := rfl

@[simp] theorem previousAfter_cons
    (previous : Option Char)
    (char : Char)
    (rest : Text) :
    previousAfter previous (char :: rest) = previousAfter (some char) rest := by
  cases rest with
  | nil =>
      rfl
  | cons next more =>
      simp [previousAfter, List.getLast?_cons]

theorem previousAfter_append
    (previous : Option Char)
    (first second : Text) :
    previousAfter previous (first ++ second) =
      previousAfter (previousAfter previous first) second := by
  induction first generalizing previous with
  | nil =>
      rfl
  | cons char rest inductionHypothesis =>
      simp [inductionHypothesis]

@[simp] theorem previousAfter_none
    (text : Text) :
    previousAfter none text = text.getLast? := by
  simp [previousAfter]

/-- A word can start after a part of a text if it can start after the text. -/
theorem wordStart_of_cons
    {char : Char}
    {rest : Text}
    (free : wordStart (char :: rest).getLast? = true) :
    wordStart rest.getLast? = true := by
  cases rest with
  | nil =>
      rfl
  | cons next more =>
      simpa [List.getLast?_cons_cons] using free

end Text

namespace Anchor

/-- The kind that the words of an anchor name, and the text behind them. -/
def rest? (code : Text) : Option (RoutineKind × Text) := do
  let created ← (Text.dropFolded? "create".toList code).bind Text.dropBlanks?
  (dropKind? ((dropReplace? created).getD created)).filter fun found => Text.wordEnd found.2

/-- An anchor stands where a word can start and the words of an anchor follow. -/
theorem at?_eq_rest?
    (previous : Option Char)
    (code : Text) :
    at? previous code =
      if Text.wordStart previous then
        (rest? code).map fun found => ⟨found.1, code.length - found.2.length⟩
      else
        none := by
  cases free : Text.wordStart previous with
  | false =>
      simp [at?, free]
  | true =>
      simp only [at?, rest?, free, ↓reduceIte, Option.bind_eq_bind]
      cases created : (Text.dropFolded? "create".toList code).bind Text.dropBlanks? with
      | none =>
          rfl
      | some more =>
          cases kind : dropKind? ((dropReplace? more).getD more) with
          | none =>
              simp [kind]
          | some found =>
              cases ends : Text.wordEnd found.2 with
              | false =>
                  simp [kind, Option.filter, ends]
              | true =>
                  simp [kind, Option.filter, ends]

/-- No anchor starts at a character that does not start a word with a `c`. -/
theorem at?_eq_none
    {previous : Option Char}
    {char : Char}
    {rest : Text}
    (inert :
      Text.wordStart previous = true →
        Text.sameFolded 'c' char = false) :
    at? previous (char :: rest) = none := by
  rw [at?_eq_rest?]
  cases free : Text.wordStart previous with
  | false =>
      rfl
  | true =>
      have create : Text.dropFolded? "create".toList (char :: rest) = none := by
        simp [Text.dropFolded?, inert free]
      simp only [rest?, create, Option.bind_eq_bind, Option.bind_none, Option.map_none,
        ↓reduceIte]

/-- A text at whose characters no anchor can start, whatever follows the text. -/
def Inert : Option Char → Text → Prop
  | _, [] => True
  | previous, char :: rest =>
      (Text.wordStart previous = true → Text.sameFolded 'c' char = false) ∧
        Inert (some char) rest

theorem Inert.append
    {previous : Option Char}
    {first second : Text}
    (firstInert : Inert previous first)
    (secondInert : Inert (Text.previousAfter previous first) second) :
    Inert previous (first ++ second) := by
  induction first generalizing previous with
  | nil =>
      exact secondInert
  | cons char rest inductionHypothesis =>
      rw [Text.previousAfter_cons] at secondInert
      exact ⟨firstInert.1, inductionHypothesis firstInert.2 secondInert⟩

theorem inert_of_blank
    (previous : Option Char)
    {blanks : Text}
    (blank : ∀ char ∈ blanks, isBlank char = true) :
    Inert previous blanks := by
  induction blanks generalizing previous with
  | nil =>
      trivial
  | cons char rest inductionHypothesis =>
      refine ⟨fun _ => ?_, inductionHypothesis _ fun other member => blank other (by simp [member])⟩
      cases starts : Text.sameFolded 'c' char with
      | false =>
          rfl
      | true =>
          have letter : char.isAlpha = true :=
            Text.isAlpha_of_sameFolded (by decide) starts
          have notBlank := not_isBlank_of_isAlpha letter
          rw [blank char (by simp)] at notBlank
          cases notBlank

/-- The inside of a word is inert. -/
theorem inert_of_letters
    {previous : Option Char}
    {letters : Text}
    (inside : Text.wordStart previous = false)
    (alpha : ∀ char ∈ letters, char.isAlpha = true) :
    Inert previous letters := by
  induction letters generalizing previous with
  | nil =>
      trivial
  | cons char rest inductionHypothesis =>
      have letter : isWordChar char = true :=
        isWordChar_of_isAlpha (alpha char (by simp))
      refine ⟨fun free => ?_,
        inductionHypothesis ?_ fun other member => alpha other (by simp [member])⟩
      · rw [inside] at free
        cases free
      · simp [Text.wordStart, letter]

/-- A spelled word that starts with another letter than `c` is inert. -/
theorem inert_of_spells
    (previous : Option Char)
    {expected : Char}
    {more spelling : Text}
    (spelled : Text.Spells (expected :: more) spelling)
    (plain : isPlainWord (expected :: more) = true)
    (other : Text.sameFolded 'c' expected = false) :
    Inert previous spelling := by
  have alpha := spelled.isAlpha plain
  cases spelled with
  | @cons _ char _ rest same restSpelled =>
      have letter : isWordChar char = true :=
        isWordChar_of_isAlpha (alpha char (by simp))
      refine ⟨fun _ => ?_, inert_of_letters ?_ fun next member => alpha next (by simp [member])⟩
      · simp only [Text.sameFolded, beq_iff_eq, beq_eq_false_iff_ne] at same other ⊢
        rwa [← same]
      · simp [Text.wordStart, letter]

private theorem dropKind?_eq_some
    {code rest : Text}
    {kind : RoutineKind}
    (dropped : dropKind? code = some (kind, rest)) :
    ∃ spelling,
      code = spelling ++ rest ∧ Text.Spells kind.name spelling := by
  simp only [dropKind?] at dropped
  cases function : Text.dropFolded? "function".toList code with
  | some found =>
      simp only [function, Option.some.injEq, Prod.mk.injEq] at dropped
      obtain ⟨rfl, rfl⟩ := dropped
      exact Text.dropFolded?_eq_some_iff.mp function
  | none =>
      simp only [function, Option.map_eq_some_iff, Prod.mk.injEq] at dropped
      obtain ⟨found, procedure, rfl, rfl⟩ := dropped
      exact Text.dropFolded?_eq_some_iff.mp procedure

/-- `or replace` and its blanks are inert letters and blanks, and end with a blank. -/
private theorem dropReplace?_eq_some
    {code rest : Text}
    (dropped : dropReplace? code = some rest) :
    ∃ words,
      code = words ++ rest ∧ (∀ previous, Inert previous words) ∧
        (∀ char ∈ words, char.isAlpha = true ∨ isBlank char = true) ∧
          ∃ last, words.getLast? = some last ∧ isBlank last = true := by
  simp only [dropReplace?, Option.bind_eq_bind, Option.bind_eq_some_iff] at dropped
  obtain ⟨replace, ⟨afterOr, orDropped, orBlanks⟩, afterReplace, replaceDropped, replaceBlanks⟩ :=
    dropped
  obtain ⟨orWord, rfl, orSpelled⟩ := Text.dropFolded?_eq_some_iff.mp orDropped
  obtain ⟨firstBlanks, rfl, -, firstBlank⟩ := Text.dropBlanks?_eq_some orBlanks
  obtain ⟨replaceWord, rfl, replaceSpelled⟩ := Text.dropFolded?_eq_some_iff.mp replaceDropped
  obtain ⟨secondBlanks, rfl, nonempty, secondBlank⟩ := Text.dropBlanks?_eq_some replaceBlanks
  refine ⟨orWord ++ (firstBlanks ++ (replaceWord ++ secondBlanks)), by simp, fun previous => ?_,
    fun char member => ?_, secondBlanks.getLast nonempty, ?_,
    secondBlank _ (List.getLast_mem nonempty)⟩
  · have orInert := inert_of_spells previous orSpelled (by decide) (by decide)
    have replaceInert := fun before =>
      inert_of_spells before replaceSpelled (by decide) (by decide)
    exact orInert.append ((inert_of_blank _ firstBlank).append
      ((replaceInert _).append (inert_of_blank _ secondBlank)))
  · simp only [List.mem_append] at member
    rcases member with inOr | inFirst | inReplace | inSecond
    · exact .inl (orSpelled.isAlpha (by decide) char inOr)
    · exact .inr (firstBlank char inFirst)
    · exact .inl (replaceSpelled.isAlpha (by decide) char inReplace)
    · exact .inr (secondBlank char inSecond)
  · simp [List.getLast?_append, List.getLast?_eq_some_getLast nonempty]

/--
An anchor word by word: `create` and blanks, `or replace` and blanks if it is
there, and the word of a kind.
-/
structure Phrase (kind : RoutineKind) (create blanks replacing word : Text) : Prop where
  create_spelled : Text.Spells "create".toList create
  nonempty : blanks ≠ []
  blank : ∀ char ∈ blanks, isBlank char = true
  inert : ∀ previous, Inert previous replacing
  letters_or_blanks : ∀ char ∈ replacing, char.isAlpha = true ∨ isBlank char = true
  ends_blank :
    replacing = [] ∨ ∃ last, replacing.getLast? = some last ∧ isBlank last = true
  kind_spelled : Text.Spells kind.name word

theorem exists_phrase
    {code rest : Text}
    {kind : RoutineKind}
    (found : rest? code = some (kind, rest)) :
    ∃ create blanks replacing word,
      code = create ++ (blanks ++ (replacing ++ (word ++ rest))) ∧
        Phrase kind create blanks replacing word ∧ Text.wordEnd rest = true := by
  simp only [rest?, Option.bind_eq_bind, Option.bind_eq_some_iff,
    Option.filter_eq_some_iff] at found
  obtain ⟨created, ⟨afterCreate, createDropped, blanksDropped⟩, kindDropped, wordEnd⟩ := found
  obtain ⟨create, rfl, createSpelled⟩ := Text.dropFolded?_eq_some_iff.mp createDropped
  obtain ⟨blanks, rfl, nonempty, blank⟩ := Text.dropBlanks?_eq_some blanksDropped
  -- Whether `or replace` is there or not, the kind's word ends the anchor.
  cases replaced : dropReplace? created with
  | none =>
      rw [replaced, Option.getD_none] at kindDropped
      obtain ⟨word, rfl, kindSpelled⟩ := dropKind?_eq_some kindDropped
      exact ⟨create, blanks, [], word, rfl,
        ⟨createSpelled, nonempty, blank, fun _ => trivial, by simp, .inl rfl, kindSpelled⟩, wordEnd⟩
  | some afterReplace =>
      rw [replaced, Option.getD_some] at kindDropped
      obtain ⟨word, rfl, kindSpelled⟩ := dropKind?_eq_some kindDropped
      obtain ⟨replacing, rfl, inert, lettersOrBlanks, endsBlank⟩ := dropReplace?_eq_some replaced
      exact ⟨create, blanks, replacing, word, rfl,
        ⟨createSpelled, nonempty, blank, inert, lettersOrBlanks, .inr endsBlank, kindSpelled⟩, wordEnd⟩

/-- The word of a kind consists of letters of ASCII. -/
theorem isAlpha_of_spells_kind
    {kind : RoutineKind}
    {word : Text}
    (spelled : Text.Spells kind.name word) :
    ∀ char ∈ word, char.isAlpha = true := by
  cases kind with
  | function => exact spelled.isAlpha (by decide)
  | procedure => exact spelled.isAlpha (by decide)

theorem ne_nil_of_spells_kind
    {kind : RoutineKind}
    {word : Text}
    (spelled : Text.Spells kind.name word) :
    word ≠ [] := by
  rintro rfl
  cases kind with
  | function => cases spelled
  | procedure => cases spelled

/--
The words of an anchor: a `c` and characters at which no anchor can start, the
last of them a letter. A word ends behind them.
-/
structure Words (first : Char) (inner rest : Text) : Prop where
  starts : Text.sameFolded 'c' first = true
  inert : Inert (some first) inner
  ends : ∃ last, inner.getLast? = some last ∧ last.isAlpha = true
  wordEnd : Text.wordEnd rest = true

/-- What stands in front of the rest are the words of an anchor. -/
theorem rest?_eq_some
    {code rest : Text}
    {kind : RoutineKind}
    (found : rest? code = some (kind, rest)) :
    ∃ first inner, code = first :: (inner ++ rest) ∧ Words first inner rest := by
  obtain ⟨create, blanks, replacing, word, rfl, phrase, wordEnd⟩ := exists_phrase found
  have kindAlpha := isAlpha_of_spells_kind phrase.kind_spelled
  have kindNonempty := ne_nil_of_spells_kind phrase.kind_spelled
  have createAlpha := phrase.create_spelled.isAlpha (by decide)
  have kindInert : ∀ previous, Inert previous word := by
    intro previous
    cases kind with
    | function =>
        exact inert_of_spells previous phrase.kind_spelled (by decide) (by decide)
    | procedure =>
        exact inert_of_spells previous phrase.kind_spelled (by decide) (by decide)
  cases phrase.create_spelled with
  | @cons _ first _ reate starts reateSpelled =>
      refine ⟨first, reate ++ (blanks ++ (replacing ++ word)), by simp, starts, ?_, ?_, wordEnd⟩
      · have letter : isWordChar first = true :=
          isWordChar_of_isAlpha (createAlpha first (by simp))
        have reateInert : Inert (some first) reate :=
          inert_of_letters (by simp [Text.wordStart, letter])
            fun char member => createAlpha char (by simp [member])
        exact reateInert.append ((inert_of_blank _ phrase.blank).append
          ((phrase.inert _).append (kindInert _)))
      · refine ⟨word.getLast kindNonempty, ?_, kindAlpha _ (List.getLast_mem kindNonempty)⟩
        simp [List.getLast?_append, List.getLast?_eq_some_getLast kindNonempty]

/-- Blanks are taken off up to what shows none in front. -/
theorem dropBlanks?_append
    {blanks : Text}
    (nonempty : blanks ≠ [])
    (blank : ∀ char ∈ blanks, isBlank char = true)
    {rest : Text}
    (visible : Text.trimStart rest = rest) :
    Text.dropBlanks? (blanks ++ rest) = some rest := by
  cases blanks with
  | nil =>
      exact absurd rfl nonempty
  | cons char more =>
      have moreBlank : ∀ other ∈ more, isBlank other = true :=
        fun other member => blank other (List.mem_cons_of_mem _ member)
      rw [List.cons_append, Text.dropBlanks?, if_pos (blank char List.mem_cons_self),
        Text.trimStart, List.dropWhile_append_of_pos moreBlank]
      exact congrArg some visible

/-- A text that starts with a spelled word shows no blank in front. -/
theorem trimStart_append
    {expected : Char}
    {more spelling : Text}
    (spelled : Text.Spells (expected :: more) spelling)
    (plain : isPlainWord (expected :: more) = true)
    (rest : Text) :
    Text.trimStart (spelling ++ rest) = spelling ++ rest := by
  have alpha := spelled.isAlpha plain
  cases spelled with
  | cons same restSpelled =>
      have letter := not_isBlank_of_isAlpha (alpha _ List.mem_cons_self)
      rw [List.cons_append, Text.trimStart, List.dropWhile_cons_of_neg (by simp [letter])]

/-- A word is not found where another word starts with another letter. -/
theorem dropFolded?_eq_none
    {expected other : Char}
    {more others spelling : Text}
    (spelled : Text.Spells (expected :: more) spelling)
    (different : Text.sameFolded other expected = false)
    (rest : Text) :
    Text.dropFolded? (other :: others) (spelling ++ rest) = none := by
  cases spelled with
  | cons same restSpelled =>
      simp only [Text.sameFolded, beq_iff_eq, beq_eq_false_iff_ne] at same different
      rw [same] at different
      simp [Text.dropFolded?, Text.sameFolded, different]

/-- The word of a kind is found whatever follows it, and `or replace` is not. -/
theorem dropKind?_append
    {kind : RoutineKind}
    {word : Text}
    (spelled : Text.Spells kind.name word)
    (rest : Text) :
    dropKind? (word ++ rest) = some (kind, rest) ∧
      dropReplace? (word ++ rest) = none ∧
        Text.trimStart (word ++ rest) = word ++ rest := by
  have dropped : Text.dropFolded? kind.name (word ++ rest) = some rest :=
    Text.dropFolded?_eq_some_iff.mpr ⟨word, rfl, spelled⟩
  cases kind with
  | function =>
      have noReplace : Text.dropFolded? "or".toList (word ++ rest) = none :=
        dropFolded?_eq_none spelled (by decide) rest
      have isFunction : Text.dropFolded? "function".toList (word ++ rest) = some rest := dropped
      refine ⟨?_, ?_, trimStart_append spelled (by decide) rest⟩
      · simp only [dropKind?, isFunction]
      · simp only [dropReplace?, noReplace, Option.bind_none, Option.bind_eq_bind]
  | procedure =>
      have noReplace : Text.dropFolded? "or".toList (word ++ rest) = none :=
        dropFolded?_eq_none spelled (by decide) rest
      have notFunction : Text.dropFolded? "function".toList (word ++ rest) = none :=
        dropFolded?_eq_none spelled (by decide) rest
      have isProcedure : Text.dropFolded? "procedure".toList (word ++ rest) = some rest := dropped
      refine ⟨?_, ?_, trimStart_append spelled (by decide) rest⟩
      · simp only [dropKind?, notFunction, isProcedure, Option.map_some]
      · simp only [dropReplace?, noReplace, Option.bind_none, Option.bind_eq_bind]

/-- `or replace` is found whatever follows it. -/
private theorem dropReplace?_append
    {code rest : Text}
    (dropped : dropReplace? code = some rest) :
    ∃ words,
      code = words ++ rest ∧
        ∀ other, Text.trimStart other = other →
          dropReplace? (words ++ other) = some other ∧
            Text.trimStart (words ++ other) = words ++ other := by
  simp only [dropReplace?, Option.bind_eq_bind, Option.bind_eq_some_iff] at dropped
  obtain ⟨replace, ⟨afterOr, orDropped, orBlanks⟩, afterReplace, replaceDropped, replaceBlanks⟩ :=
    dropped
  obtain ⟨orWord, rfl, orSpelled⟩ := Text.dropFolded?_eq_some_iff.mp orDropped
  obtain ⟨firstBlanks, rfl, firstNonempty, firstBlank⟩ := Text.dropBlanks?_eq_some orBlanks
  obtain ⟨replaceWord, rfl, replaceSpelled⟩ := Text.dropFolded?_eq_some_iff.mp replaceDropped
  obtain ⟨secondBlanks, rfl, secondNonempty, secondBlank⟩ := Text.dropBlanks?_eq_some replaceBlanks
  refine ⟨orWord ++ (firstBlanks ++ (replaceWord ++ secondBlanks)), by simp, ?_⟩
  intro other visible
  have orTaken :
      Text.dropFolded? "or".toList
          (orWord ++ (firstBlanks ++ (replaceWord ++ (secondBlanks ++ other)))) =
        some (firstBlanks ++ (replaceWord ++ (secondBlanks ++ other))) :=
    Text.dropFolded?_eq_some_iff.mpr ⟨orWord, rfl, orSpelled⟩
  have replaceTaken :
      Text.dropFolded? "replace".toList (replaceWord ++ (secondBlanks ++ other)) =
        some (secondBlanks ++ other) :=
    Text.dropFolded?_eq_some_iff.mpr ⟨replaceWord, rfl, replaceSpelled⟩
  have firstTaken :=
    dropBlanks?_append firstNonempty firstBlank
      (trimStart_append replaceSpelled (by decide) (secondBlanks ++ other))
  have secondTaken := dropBlanks?_append secondNonempty secondBlank visible
  simp only [List.append_assoc]
  refine ⟨?_, trimStart_append orSpelled (by decide) _⟩
  simp only [dropReplace?, orTaken, replaceTaken, firstTaken, secondTaken, Option.bind_some,
    Option.bind_eq_bind]

/-- The words of an anchor are found whatever follows them, if a word ends there. -/
theorem rest?_append
    {code rest : Text}
    {kind : RoutineKind}
    (found : rest? code = some (kind, rest)) :
    ∃ words,
      code = words ++ rest ∧
        ∀ other, Text.wordEnd other = true → rest? (words ++ other) = some (kind, other) := by
  simp only [rest?, Option.bind_eq_bind, Option.bind_eq_some_iff,
    Option.filter_eq_some_iff] at found
  obtain ⟨created, ⟨afterCreate, createDropped, blanksDropped⟩, kindDropped, -⟩ := found
  obtain ⟨createWord, rfl, createSpelled⟩ := Text.dropFolded?_eq_some_iff.mp createDropped
  obtain ⟨blanks, rfl, nonempty, blank⟩ := Text.dropBlanks?_eq_some blanksDropped
  obtain ⟨words, rfl, again⟩ :
      ∃ words,
        created = words ++ rest ∧
          ∀ other,
            dropKind? ((dropReplace? (words ++ other)).getD (words ++ other)) =
                some (kind, other) ∧
              Text.trimStart (words ++ other) = words ++ other := by
    cases replaced : dropReplace? created with
    | none =>
        rw [replaced, Option.getD_none] at kindDropped
        obtain ⟨word, rfl, spelled⟩ := dropKind?_eq_some kindDropped
        refine ⟨word, rfl, fun other => ?_⟩
        obtain ⟨isKind, noReplace, starts⟩ := dropKind?_append spelled other
        rw [noReplace]
        exact ⟨isKind, starts⟩
    | some afterReplace =>
        rw [replaced, Option.getD_some] at kindDropped
        obtain ⟨word, rfl, spelled⟩ := dropKind?_eq_some kindDropped
        obtain ⟨replacing, rfl, again⟩ := dropReplace?_append replaced
        refine ⟨replacing ++ word, by simp, fun other => ?_⟩
        obtain ⟨isKind, -, visible⟩ := dropKind?_append spelled other
        obtain ⟨isReplace, starts⟩ := again (word ++ other) visible
        rw [List.append_assoc, isReplace]
        exact ⟨isKind, starts⟩
  refine ⟨createWord ++ (blanks ++ words), by simp, ?_⟩
  intro other ends
  obtain ⟨isKind, visible⟩ := again other
  have createTaken :
      Text.dropFolded? "create".toList (createWord ++ (blanks ++ (words ++ other))) =
        some (blanks ++ (words ++ other)) :=
    Text.dropFolded?_eq_some_iff.mpr ⟨createWord, rfl, createSpelled⟩
  simp only [rest?, List.append_assoc, createTaken, dropBlanks?_append nonempty blank visible,
    isKind, Option.bind_some, Option.bind_eq_bind, Option.filter, ends, ↓reduceIte]

/-- An anchor found at a place, with the text split at its end. -/
theorem at?_eq_some
    {previous : Option Char}
    {code : Text}
    {anchor : Anchor}
    (found : at? previous code = some anchor) :
    Text.wordStart previous = true ∧
      ∃ first inner rest,
        code = first :: (inner ++ rest) ∧
          anchor.length = inner.length + 1 ∧
            Words first inner rest := by
  rw [at?_eq_rest?] at found
  cases free : Text.wordStart previous with
  | false =>
      simp [free] at found
  | true =>
      simp only [free, ↓reduceIte, Option.map_eq_some_iff] at found
      obtain ⟨⟨kind, rest⟩, restFound, rfl⟩ := found
      obtain ⟨first, inner, rfl, words⟩ := rest?_eq_some restFound
      refine ⟨rfl, first, inner, rest, rfl, ?_, words⟩
      simp only [List.length_cons, List.length_append]
      omega

/-- The last word of an anchor names its kind and stands behind a blank. -/
theorem exists_kind_word
    {previous : Option Char}
    {code : Text}
    {anchor : Anchor}
    (found : at? previous code = some anchor) :
    ∃ front blank word rest,
      code = front ++ blank :: (word ++ rest) ∧ isBlank blank = true ∧
        Text.Spells anchor.kind.name word ∧ Text.wordEnd rest = true ∧
          anchor.length = (front ++ blank :: word).length := by
  rw [at?_eq_rest?, Option.ite_none_right_eq_some, Option.map_eq_some_iff] at found
  obtain ⟨-, ⟨kind, rest⟩, restFound, rfl⟩ := found
  obtain ⟨create, blanks, replacing, word, rfl, phrase, wordEnd⟩ := exists_phrase restFound
  have ends : ∃ last, (create ++ (blanks ++ replacing)).getLast? = some last ∧
      isBlank last = true := by
    rcases phrase.ends_blank with rfl | ⟨last, isLast, blank⟩
    · refine ⟨blanks.getLast phrase.nonempty, ?_, phrase.blank _ (List.getLast_mem _)⟩
      simp [List.getLast?_append, List.getLast?_eq_some_getLast phrase.nonempty]
    · exact ⟨last, by simp [List.getLast?_append, isLast], blank⟩
  obtain ⟨last, isLast, blank⟩ := ends
  obtain ⟨front, split⟩ := List.getLast?_eq_some_iff.mp isLast
  have whole : create ++ (blanks ++ (replacing ++ (word ++ rest))) =
      front ++ last :: (word ++ rest) := by
    have pieces := congrArg (· ++ (word ++ rest)) split
    simpa using pieces
  refine ⟨front, last, word, rest, whole, blank, phrase.kind_spelled, wordEnd, ?_⟩
  rw [whole]
  simp only [List.length_append, List.length_cons]
  omega

/-- An anchor is found by its words alone, if a word ends behind the text that holds them. -/
theorem at?_append_iff
    {previous : Option Char}
    {code other : Text}
    {anchor : Anchor}
    (ends : Text.wordEnd other = true) :
    at? previous code = some anchor ↔
      at? previous (code ++ other) = some anchor ∧ anchor.length ≤ code.length := by
  have wordEnd_append (rest : Text) : Text.wordEnd (rest ++ other) = Text.wordEnd rest := by
    cases rest with
    | nil => exact ends
    | cons char more => rfl
  rw [at?_eq_rest?, at?_eq_rest?]
  cases free : Text.wordStart previous with
  | false =>
      simp
  | true =>
      simp only [↓reduceIte, Option.map_eq_some_iff, Prod.exists]
      constructor
      · rintro ⟨kind, rest, found, rfl⟩
        obtain ⟨words, rfl, again⟩ := rest?_append found
        obtain ⟨_, _, _, isWords⟩ := rest?_eq_some found
        refine ⟨⟨kind, rest ++ other, ?_, ?_⟩, Nat.sub_le _ _⟩
        · rw [List.append_assoc]
          exact again _ ((wordEnd_append rest).trans isWords.wordEnd)
        · simp only [List.length_append, mk.injEq, true_and]
          omega
      · rintro ⟨⟨kind, rest, found, rfl⟩, within⟩
        obtain ⟨words, shape, again⟩ := rest?_append found
        obtain ⟨_, _, _, isWords⟩ := rest?_eq_some found
        have size : (code ++ other).length - rest.length = words.length := by
          rw [shape, List.length_append, Nat.add_sub_cancel]
        simp only [size] at within ⊢
        obtain ⟨tail, rfl⟩ : words <+: code :=
          List.prefix_of_prefix_length_le ⟨rest, shape.symm⟩ (List.prefix_append code other) within
        rw [List.append_assoc, List.append_cancel_left_eq] at shape
        have tailEnds : Text.wordEnd tail = true := by
          rw [← wordEnd_append, shape]
          exact isWords.wordEnd
        refine ⟨kind, tail, again tail tailEnds, ?_⟩
        rw [List.length_append, Nat.add_sub_cancel]

/-- The words of an anchor end with a letter. -/
theorem wordStart_take_length
    {previous : Option Char}
    {code : Text}
    {anchor : Anchor}
    (found : at? previous code = some anchor) :
    Text.wordStart (code.take anchor.length).getLast? = false := by
  obtain ⟨-, first, inner, rest, rfl, length, words⟩ := at?_eq_some found
  obtain ⟨last, isLast, letter⟩ := words.ends
  rw [length, List.take_succ_cons, List.take_left, List.getLast?_cons, isLast]
  simp [Text.wordStart, isWordChar_of_isAlpha letter]

/-- No anchor starts at the first `count` characters of a text. -/
def Clear : Option Char → Nat → Text → Prop
  | _, 0, _ => True
  | _, _ + 1, [] => True
  | previous, count + 1, char :: rest =>
      at? previous (char :: rest) = none ∧ Clear (some char) count rest

theorem Clear.mono
    {previous : Option Char}
    {shorter longer : Nat}
    {code : Text}
    (clear : Clear previous longer code)
    (within : shorter ≤ longer) :
    Clear previous shorter code := by
  induction code generalizing previous shorter longer with
  | nil =>
      cases shorter with
      | zero => trivial
      | succ => trivial
  | cons char rest inductionHypothesis =>
      cases shorter with
      | zero =>
          trivial
      | succ less =>
          cases longer with
          | zero =>
              omega
          | succ more =>
              exact ⟨clear.1, inductionHypothesis clear.2 (by omega)⟩

/-- An inert text and a clear stretch behind it make a clear stretch. -/
theorem Inert.clear_append
    {previous : Option Char}
    {first second : Text}
    {count : Nat}
    (inert : Inert previous first)
    (clear : Clear (Text.previousAfter previous first) count second) :
    Clear previous (first.length + count) (first ++ second) := by
  induction first generalizing previous with
  | nil =>
      simpa using clear
  | cons char rest inductionHypothesis =>
      rw [Text.previousAfter_cons] at clear
      have more := inductionHypothesis inert.2 clear
      rw [List.length_cons, Nat.add_right_comm]
      exact ⟨at?_eq_none inert.1, more⟩

theorem Inert.clear
    {previous : Option Char}
    {first : Text}
    (inert : Inert previous first)
    (second : Text) :
    Clear previous first.length (first ++ second) := by
  have nothing : Clear (Text.previousAfter previous first) 0 second := by
    simp [Clear]
  exact inert.clear_append nothing

/-- No anchor starts before the first one. -/
theorem clear_distance
    (previous : Option Char)
    (code : Text) :
    Clear previous (distance previous code) code := by
  induction code generalizing previous with
  | nil =>
      trivial
  | cons char rest inductionHypothesis =>
      cases found : at? previous (char :: rest) with
      | some anchor =>
          simp [distance, found, Clear]
      | none =>
          simp only [distance, found, Option.isSome_none, Bool.false_eq_true, ↓reduceIte]
          exact ⟨found, inductionHypothesis (some char)⟩

/-- Either an anchor starts where the first one is looked for, or nothing is left there. -/
theorem at?_drop_distance
    (previous : Option Char)
    (code : Text) :
    code.drop (distance previous code) = [] ∨
      (at? (Text.previousAfter previous (code.take (distance previous code)))
        (code.drop (distance previous code))).isSome = true := by
  induction code generalizing previous with
  | nil =>
      exact .inl rfl
  | cons char rest inductionHypothesis =>
      cases found : at? previous (char :: rest) with
      | some anchor =>
          right
          simp [distance, found]
      | none =>
          simpa [distance, found] using inductionHypothesis (some char)

theorem distance_le_length
    (previous : Option Char)
    (code : Text) :
    distance previous code ≤ code.length := by
  induction code generalizing previous with
  | nil =>
      simp [distance]
  | cons char rest inductionHypothesis =>
      have tail := inductionHypothesis (some char)
      simp only [distance, List.length_cons]
      split
      · omega
      · omega

/-- Behind the start of an anchor, none starts before the next anchor after its end. -/
theorem clear_of_at?_eq_some
    {previous : Option Char}
    {char : Char}
    {rest : Text}
    {anchor : Anchor}
    (found : at? previous (char :: rest) = some anchor) :
    Clear (some char)
      (anchor.length - 1 +
        distance ((char :: rest).take anchor.length).getLast? ((char :: rest).drop anchor.length))
      rest := by
  obtain ⟨-, first, inner, following, shape, length, words⟩ := at?_eq_some found
  simp only [List.cons.injEq] at shape
  obtain ⟨rfl, rfl⟩ := shape
  have head : ((char :: (inner ++ following)).take anchor.length).getLast? =
      Text.previousAfter (some char) inner := by
    rw [length, List.take_succ_cons, List.take_left, ← Text.previousAfter_none,
      Text.previousAfter_cons]
  have tail : (char :: (inner ++ following)).drop anchor.length = following := by
    rw [length, List.drop_succ_cons, List.drop_left]
  rw [head, tail, length, Nat.add_sub_cancel]
  exact words.inert.clear_append (clear_distance _ following)

end Anchor

end RoutineServer
