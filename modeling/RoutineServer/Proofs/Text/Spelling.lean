import RoutineServer.Proofs.Text.Keyword

namespace RoutineServer

/-!
# Spellings of ASCII text

A search without regard to case can find characters outside ASCII in place of
letters of ASCII: the Kelvin sign for `k` and the long s for `s`. Nothing else
of ASCII is found in another form than its own, apart from the case of letters.
So the characters found for an ASCII character are identifier characters
exactly if it is one itself, and a blank or a sign is found only as itself.
-/

/-- What holds of the first 128 characters holds of all of ASCII. -/
theorem forall_ascii
    (property : Char → Prop)
    (checked : ∀ codePoint < 0x80, property (Char.ofNat codePoint))
    (char : Char)
    (ascii : char.toNat < 0x80) :
    property char := by
  have here := checked char.toNat ascii
  rwa [Char.ofNat_toNat] at here

/-- A run of folded characters stays outside ASCII or is one of the two letters that do not. -/
private theorem foldRuns_landing :
    ∀ run ∈ foldRuns,
      (0x80 ≤ (run.first : Int) + run.shift ∧
          ((run.last : Int) + run.shift < 0xD800 ∨
            (0xDFFF < (run.first : Int) + run.shift ∧ (run.last : Int) + run.shift < 0x110000))) ∨
        (run.first = run.last ∧
          ((run.first = 0x212A ∧ run.shift = 0x6B - 0x212A) ∨
            (run.first = 0x17F ∧ run.shift = 0x73 - 0x17F))) := by
  decide +kernel

theorem toNat_ofNat_of_isValidChar
    {codePoint : Nat}
    (valid : codePoint.isValidChar) :
    (Char.ofNat codePoint).toNat = codePoint := by
  unfold Char.ofNat
  rw [dif_pos valid]
  unfold Char.ofNatAux Char.toNat
  simp

/-- A character that folds into ASCII is ASCII itself, the Kelvin sign or the long s. -/
theorem foldChar_ascii
    {char : Char}
    (ascii : (foldChar char).toNat < 0x80) :
    char.toNat < 0x80 ∨
      (char.toNat = 0x212A ∧ foldChar char = 'k') ∨
        (char.toNat = 0x17F ∧ foldChar char = 's') := by
  by_cases inside : char.toNat < 0x80
  · exact .inl inside
  · right
    simp only [foldChar, inside, ↓reduceIte, mapByRuns] at ascii ⊢
    cases found : foldRuns.findSome? (CaseRun.image? · char.toNat) with
    | none =>
        simp only [found] at ascii
        exact absurd ascii inside
    | some codePoint =>
        simp only [found] at ascii ⊢
        obtain ⟨run, member, image⟩ := List.exists_of_findSome?_eq_some found
        simp only [CaseRun.image?, Option.ite_none_right_eq_some, Bool.and_eq_true,
          decide_eq_true_eq, Option.some.injEq] at image
        obtain ⟨⟨⟨low, high⟩, -⟩, shifted⟩ := image
        rcases foldRuns_landing run member with ⟨far, proper⟩ | ⟨single, landing⟩
        · -- The image is a character of its own, and not one of ASCII.
          have valid : codePoint.isValidChar := by
            simp only [Nat.isValidChar]
            omega
          rw [toNat_ofNat_of_isValidChar valid] at ascii
          omega
        · rcases landing with ⟨first, shift⟩ | ⟨first, shift⟩
          · left
            have landed : codePoint = 0x6B := by omega
            subst landed
            exact ⟨by omega, rfl⟩
          · right
            have landed : codePoint = 0x73 := by omega
            subst landed
            exact ⟨by omega, rfl⟩

theorem foldChar_of_ascii
    {char : Char}
    (ascii : char.toNat < 0x80) :
    foldChar char = char.toLower := by
  simp [foldChar, ascii]

theorem toLower_ascii
    {char : Char}
    (ascii : char.toNat < 0x80) :
    char.toLower.toNat < 0x80 ∧
      isIdentifierChar char.toLower = isIdentifierChar char ∧
        char.toLower.isAlpha = char.isAlpha ∧
          (char.isAlpha = false → char.toLower = char) := by
  revert ascii
  apply forall_ascii fun char =>
    char.toLower.toNat < 0x80 ∧
      isIdentifierChar char.toLower = isIdentifierChar char ∧
        char.toLower.isAlpha = char.isAlpha ∧
          (char.isAlpha = false → char.toLower = char)
  decide +kernel

namespace Text

/-- The characters found for an ASCII character are identifier characters if it is one. -/
theorem isIdentifierChar_of_sameFolded
    {expected char : Char}
    (ascii : expected.toNat < 0x80)
    (same : sameFolded expected char = true) :
    isIdentifierChar char = isIdentifierChar expected := by
  obtain ⟨inside, kept, -, -⟩ := toLower_ascii ascii
  rw [sameFolded, beq_iff_eq, foldChar_of_ascii ascii] at same
  rw [same] at inside
  rcases foldChar_ascii inside with charAscii | ⟨kelvin, folded⟩ | ⟨longS, folded⟩
  · obtain ⟨-, charKept, -, -⟩ := toLower_ascii charAscii
    rw [← charKept, ← kept, same, foldChar_of_ascii charAscii]
  · have isKelvin : char = Char.ofNat 0x212A := by
      rw [← kelvin, Char.ofNat_toNat]
    rw [← kept, same, folded, isKelvin]
    decide +kernel
  · have isLongS : char = Char.ofNat 0x17F := by
      rw [← longS, Char.ofNat_toNat]
    rw [← kept, same, folded, isLongS]
    decide +kernel

/-- An ASCII character that is no letter is found only as itself. -/
theorem eq_of_sameFolded
    {symbol char : Char}
    (ascii : symbol.toNat < 0x80)
    (other : symbol.isAlpha = false)
    (same : sameFolded symbol char = true) :
    char = symbol := by
  obtain ⟨-, -, -, fixed⟩ := toLower_ascii ascii
  rw [sameFolded, beq_iff_eq, foldChar_of_ascii ascii, fixed other] at same
  have inside : (foldChar char).toNat < 0x80 := by
    rwa [← same]
  rcases foldChar_ascii inside with charAscii | ⟨-, folded⟩ | ⟨-, folded⟩
  · obtain ⟨-, -, sameKind, charFixed⟩ := toLower_ascii charAscii
    rw [foldChar_of_ascii charAscii] at same
    rw [same]
    exact (charFixed (by rw [← sameKind, ← same, other])).symm
  · rw [same, folded] at other
    cases other
  · rw [same, folded] at other
    cases other

theorem sameFolded_comm
    (left right : Char) :
    sameFolded left right = sameFolded right left := by
  simp only [sameFolded, Bool.beq_comm]

theorem ascii_of_isAlphanum
    {char : Char}
    (alphanumeric : char.isAlphanum = true) :
    char.toNat < 0x80 := by
  simp only [Char.isAlphanum, Bool.or_eq_true, isAlpha_iff_toNat, Char.isDigit, Bool.and_eq_true,
    decide_eq_true_eq, UInt32.le_iff_toNat_le, ge_iff_le] at alphanumeric
  change (_ ∨ _) ∨ 48 ≤ char.toNat ∧ char.toNat ≤ 57 at alphanumeric
  omega

namespace Spells

theorem refl
    (text : Text) :
    Spells text text := by
  induction text with
  | nil =>
      exact .nil
  | cons char rest inductionHypothesis =>
      exact .cons (by simp [sameFolded]) inductionHypothesis

theorem symm
    {first second : Text}
    (spelled : Spells first second) :
    Spells second first := by
  induction spelled with
  | nil =>
      exact .nil
  | cons same _ inductionHypothesis =>
      refine .cons ?_ inductionHypothesis
      rwa [sameFolded_comm]

theorem trans
    {first second third : Text}
    (left : Spells first second)
    (right : Spells second third) :
    Spells first third := by
  induction left generalizing third with
  | nil =>
      exact right
  | cons same _ inductionHypothesis =>
      cases right with
      | cons otherSame rest =>
          refine .cons ?_ (inductionHypothesis rest)
          simp only [sameFolded, beq_iff_eq] at same otherSame ⊢
          exact same.trans otherSame

theorem exists_of_mem
    {word text : Text}
    {char : Char}
    (spelled : Spells word text)
    (member : char ∈ text) :
    ∃ expected ∈ word, sameFolded expected char = true := by
  induction spelled with
  | nil =>
      cases member
  | @cons expected first more rest same _ inductionHypothesis =>
      rcases List.mem_cons.mp member with isFirst | isLater
      · rw [isFirst]
        exact ⟨expected, List.mem_cons_self, same⟩
      · obtain ⟨other, inMore, otherSame⟩ := inductionHypothesis isLater
        exact ⟨other, List.mem_cons_of_mem _ inMore, otherSame⟩

/-- A sign that a name does not have is not in its spellings either. -/
theorem not_mem
    {word text : Text}
    {symbol : Char}
    (spelled : Spells word text)
    (ascii : symbol.toNat < 0x80)
    (other : symbol.isAlpha = false)
    (absent : symbol ∉ word) :
    symbol ∉ text := by
  intro member
  obtain ⟨expected, inWord, same⟩ := spelled.exists_of_mem member
  rw [sameFolded_comm] at same
  rw [eq_of_sameFolded ascii other same] at inWord
  exact absent inWord

theorem getLast?
    {word text : Text}
    {last : Char}
    (spelled : Spells word text)
    (ends : text.getLast? = some last) :
    ∃ expected, word.getLast? = some expected ∧ sameFolded expected last = true := by
  induction spelled with
  | nil =>
      cases ends
  | @cons expected char more rest same restSpelled inductionHypothesis =>
      cases restSpelled with
      | nil =>
          simp only [List.getLast?_singleton, Option.some.injEq] at ends
          subst ends
          exact ⟨expected, rfl, same⟩
      | cons =>
          rw [List.getLast?_cons_cons] at ends ⊢
          exact inductionHypothesis ends

/-- What spells two words one after the other is in two parts. -/
theorem of_append
    {first second text : Text}
    (spelled : Spells (first ++ second) text) :
    ∃ left right, text = left ++ right ∧ Spells first left ∧ Spells second right := by
  induction first generalizing text with
  | nil =>
      exact ⟨[], text, rfl, .nil, spelled⟩
  | cons expected more inductionHypothesis =>
      cases spelled with
      | @cons _ char _ rest same restSpelled =>
          obtain ⟨left, right, rfl, leftSpelled, rightSpelled⟩ := inductionHypothesis restSpelled
          exact ⟨char :: left, right, rfl, .cons same leftSpelled, rightSpelled⟩

/-- Two spellings in ASCII differ in the case of letters only. -/
theorem map_toLower
    {word text : Text}
    (spelled : Spells word text)
    (wordAscii : ∀ char ∈ word, char.toNat < 0x80)
    (textAscii : ∀ char ∈ text, char.toNat < 0x80) :
    word.map Char.toLower = text.map Char.toLower := by
  induction spelled with
  | nil =>
      rfl
  | cons same _ inductionHypothesis =>
      simp only [List.forall_mem_cons] at wordAscii textAscii
      rw [sameFolded, beq_iff_eq, foldChar_of_ascii wordAscii.1,
        foldChar_of_ascii textAscii.1] at same
      rw [List.map_cons, List.map_cons, same, inductionHypothesis wordAscii.2 textAscii.2]

end Spells

end Text

end RoutineServer
