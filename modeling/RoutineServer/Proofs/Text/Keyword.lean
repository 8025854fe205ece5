import Mathlib.Data.List.TakeWhile
import RoutineServer.Text.Pattern

namespace RoutineServer

/-!
# Keywords in a text

Keywords are looked for with letter case ignored. Folding could in principle
lead from outside ASCII into a keyword, but the only letters it reaches are `k`
and `s`. A word without these two is therefore spelled with letters of ASCII:
no blank and no end of a word can stand inside it.

The second half says what `dropFolded?` and `dropBlanks?` take off a text.
-/

/-- A small letter of ASCII that no character outside ASCII folds to. -/
def isPlainLetter (char : Char) : Bool :=
  char.isLower && char != 'k' && char != 's'

theorem ne_of_holds
    {property : Char → Bool}
    {char other : Char}
    (holds : property char = true)
    (fails : property other = false) :
    char ≠ other := by
  rintro rfl
  rw [holds] at fails
  cases fails

theorem any_head?_dropWhile
    (property : α → Bool)
    (items : List α) :
    (items.dropWhile property).head?.any property = false := by
  have fails := List.head?_dropWhile_not property items
  cases behind : (items.dropWhile property).head? with
  | none => rfl
  | some item => simpa [behind] using fails

theorem isLower_iff_toNat
    {char : Char} :
    char.isLower = true ↔ 97 ≤ char.toNat ∧ char.toNat ≤ 122 := by
  change (decide (97 ≤ char.val) && decide (char.val ≤ 122)) = true ↔ _
  simp [UInt32.le_iff_toNat_le, ← Char.toNat_val]

theorem isUpper_iff_toNat
    {char : Char} :
    char.isUpper = true ↔ 65 ≤ char.toNat ∧ char.toNat ≤ 90 := by
  change decide (65 ≤ char.val ∧ char.val ≤ 90) = true ↔ _
  simp [UInt32.le_iff_toNat_le, ← Char.toNat_val]

theorem isAlpha_iff_toNat
    {char : Char} :
    char.isAlpha = true ↔
      (65 ≤ char.toNat ∧ char.toNat ≤ 90) ∨
        (97 ≤ char.toNat ∧ char.toNat ≤ 122) := by
  change (char.isUpper || char.isLower) = true ↔ _
  rw [Bool.or_eq_true, isUpper_iff_toNat, isLower_iff_toNat]

theorem not_isBlank_of_isAlpha
    {char : Char}
    (letter : char.isAlpha = true) :
    isBlank char = false := by
  rw [isAlpha_iff_toNat] at letter
  simp only [isBlank, Bool.or_eq_false_iff, Bool.and_eq_false_iff, decide_eq_false_iff_not,
    beq_eq_false_iff_ne]
  omega

theorem isWordChar_of_isAlpha
    {char : Char}
    (letter : char.isAlpha = true) :
    isWordChar char = true := by
  have inside : char.toNat < 0x80 := by
    rw [isAlpha_iff_toNat] at letter
    omega
  simp [isWordChar, inside, Char.isAlphanum, letter]

/-- Only a capital letter of ASCII has a small form of its own. -/
theorem toLower_of_not_isUpper
    {char : Char}
    (other : ¬ char.isUpper = true) :
    char.toLower = char :=
  dif_neg fun bounds => other (decide_eq_true bounds)

/-- A character whose small form is a small letter is a letter of ASCII. -/
private theorem isAlpha_of_isLower_toLower
    {char : Char}
    (small : char.toLower.isLower = true) :
    char.isAlpha = true := by
  rw [isAlpha_iff_toNat]
  by_cases capital : char.isUpper = true
  · exact Or.inl (isUpper_iff_toNat.mp capital)
  · rw [toLower_of_not_isUpper capital] at small
    exact Or.inr (isLower_iff_toNat.mp small)

/-- Folding leads from outside ASCII to `k`, to `s`, or stays outside. -/
private theorem foldRuns_avoid_plainLetters :
    ∀ run ∈ foldRuns,
      0x80 ≤ (run.first : Int) + run.shift ∨
        (run.first = run.last ∧
          ((run.first : Int) + run.shift = 0x6B ∨ (run.first : Int) + run.shift = 0x73)) := by
  decide +kernel

/-- The character with a code point from U+0080 on is not a plain letter. -/
private theorem not_isPlainLetter_ofNat
    {codePoint : Nat}
    (outside : 0x80 ≤ codePoint) :
    isPlainLetter (Char.ofNat codePoint) = false := by
  by_cases valid : codePoint.isValidChar
  · have value : (Char.ofNat codePoint).toNat = codePoint := by
      unfold Char.ofNat
      rw [dif_pos valid]
      unfold Char.ofNatAux Char.toNat
      simp
    have notLower : ¬ (Char.ofNat codePoint).isLower = true := by
      rw [isLower_iff_toNat, value]
      omega
    simp [isPlainLetter, notLower]
  · have zero : Char.ofNat codePoint = '\x00' := by
      unfold Char.ofNat
      rw [dif_neg valid]
      rfl
    rw [zero]
    decide

/-- What folds to a plain letter is that letter, small or capital. -/
theorem isAlpha_of_isPlainLetter_foldChar
    {char : Char}
    (plain : isPlainLetter (foldChar char) = true) :
    char.isAlpha = true := by
  by_cases ascii : char.toNat < 0x80
  · have folded : foldChar char = char.toLower := by
      simp [foldChar, ascii]
    rw [folded] at plain
    apply isAlpha_of_isLower_toLower
    simp only [isPlainLetter, Bool.and_eq_true] at plain
    exact plain.1.1
  · have outside : isPlainLetter (foldChar char) = false := by
      simp only [foldChar, ascii, ↓reduceIte, mapByRuns]
      cases found : foldRuns.findSome? (CaseRun.image? · char.toNat) with
      | none =>
          have own := not_isPlainLetter_ofNat (Nat.le_of_not_lt ascii)
          rwa [Char.ofNat_toNat] at own
      | some codePoint =>
          obtain ⟨run, member, image⟩ := List.exists_of_findSome?_eq_some found
          simp only [CaseRun.image?, Option.ite_none_right_eq_some, Bool.and_eq_true,
            decide_eq_true_eq, Option.some.injEq] at image
          obtain ⟨⟨⟨low, high⟩, -⟩, shifted⟩ := image
          rcases foldRuns_avoid_plainLetters run member with far | ⟨single, landing⟩
          · apply not_isPlainLetter_ofNat
            omega
          · have landed : codePoint = 0x6B ∨ codePoint = 0x73 := by
              omega
            rcases landed with rfl | rfl
            · exact rfl
            · exact rfl
    rw [outside] at plain
    cases plain

/-- A word of plain letters, the words that are searched for. -/
def isPlainWord (word : Text) : Bool :=
  word.all isPlainLetter

namespace Text

/-- A plain letter is matched by letters of ASCII only. -/
theorem isAlpha_of_sameFolded
    {expected char : Char}
    (plain : isPlainLetter expected = true)
    (same : sameFolded expected char = true) :
    char.isAlpha = true := by
  have small : expected.isLower = true := by
    simp only [isPlainLetter, Bool.and_eq_true] at plain
    exact plain.1.1
  have self : foldChar expected = expected := by
    have bounds := isLower_iff_toNat.mp small
    have ascii : expected.toNat < 0x80 := by
      omega
    simp only [foldChar, ascii, ↓reduceIte]
    apply toLower_of_not_isUpper
    rw [isUpper_iff_toNat]
    omega
  simp only [sameFolded, self, beq_iff_eq] at same
  apply isAlpha_of_isPlainLetter_foldChar
  rwa [← same]

/-- A text spells a word when it agrees with it up to case. -/
inductive Spells : Text → Text → Prop where
  | nil :
      Spells [] []
  | cons
      {expected char : Char}
      {more rest : Text} :
      sameFolded expected char = true →
      Spells more rest →
      Spells (expected :: more) (char :: rest)

/-- A spelled word of plain letters consists of letters of ASCII. -/
theorem Spells.isAlpha
    {word text : Text}
    (spelled : Spells word text)
    (plain : isPlainWord word = true) :
    ∀ char ∈ text, char.isAlpha = true := by
  induction spelled with
  | nil =>
      simp
  | @cons expected char more rest same restSpelled inductionHypothesis =>
      simp only [isPlainWord, List.all_cons, Bool.and_eq_true] at plain
      intro other member
      rcases List.mem_cons.mp member with isHead | inRest
      · subst other
        exact isAlpha_of_sameFolded plain.1 same
      · exact inductionHypothesis plain.2 other inRest

theorem Spells.length_eq
    {word text : Text}
    (spelled : Spells word text) :
    word.length = text.length := by
  induction spelled with
  | nil =>
      rfl
  | cons _ _ inductionHypothesis =>
      simp [inductionHypothesis]

/-- `dropFolded?` takes off exactly a spelling of the word. -/
theorem dropFolded?_eq_some_iff
    {word text rest : Text} :
    dropFolded? word text = some rest ↔
      ∃ spelling, text = spelling ++ rest ∧ Spells word spelling := by
  induction word generalizing text with
  | nil =>
      constructor
      · intro dropped
        simp only [dropFolded?, Option.some.injEq] at dropped
        exact ⟨[], by simp [dropped], .nil⟩
      · rintro ⟨spelling, rfl, spelled⟩
        cases spelled
        rfl
  | cons expected more inductionHypothesis =>
      cases text with
      | nil =>
          constructor
          · intro dropped
            simp [dropFolded?] at dropped
          · rintro ⟨spelling, shape, spelled⟩
            cases spelled
            simp at shape
      | cons char tail =>
          constructor
          · intro dropped
            simp only [dropFolded?, Option.ite_none_right_eq_some] at dropped
            obtain ⟨same, restDropped⟩ := dropped
            obtain ⟨spelling, rfl, spelled⟩ := inductionHypothesis.mp restDropped
            exact ⟨char :: spelling, rfl, .cons same spelled⟩
          · rintro ⟨spelling, shape, spelled⟩
            cases spelled with
            | @cons _ first _ others same restSpelled =>
                simp only [List.cons_append, List.cons.injEq] at shape
                obtain ⟨rfl, rfl⟩ := shape
                simp only [dropFolded?, same, ↓reduceIte]
                exact inductionHypothesis.mpr ⟨others, rfl, restSpelled⟩

/-- `dropBlanks?` takes off all leading blanks, and at least one. -/
theorem dropBlanks?_eq_some
    {text rest : Text}
    (dropped : dropBlanks? text = some rest) :
    ∃ blanks, text = blanks ++ rest ∧ blanks ≠ [] ∧ ∀ char ∈ blanks, isBlank char = true := by
  cases text with
  | nil =>
      simp [dropBlanks?] at dropped
  | cons char tail =>
      simp only [dropBlanks?, Option.ite_none_right_eq_some, Option.some.injEq] at dropped
      obtain ⟨blank, rfl⟩ := dropped
      refine ⟨char :: tail.takeWhile isBlank, ?_, by simp, ?_⟩
      · simp [trimStart]
      · intro other member
        rcases List.mem_cons.mp member with isHead | inRest
        · subst other
          exact blank
        · exact List.mem_takeWhile_imp inRest

end Text

end RoutineServer
