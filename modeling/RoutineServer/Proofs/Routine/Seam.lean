import RoutineServer.Proofs.Routine.Anchor

namespace RoutineServer

/-!
# Anchors at a seam

A text that ends outside a word, followed by a text that starts with an anchor,
has the anchors of both and no other: the words of an anchor cannot run over
the seam, because none of them but the first starts with a `c`.
-/

namespace Anchor

/-- A text whose end does not cut a word, before a text that starts with a `c`. -/
structure Seam (front back : Text) : Prop where
  closed : Text.wordStart front.getLast? = true
  starts : ∃ char rest, back = char :: rest ∧ Text.sameFolded 'c' char = true

/-- Whether a word starts with another letter than an anchor does. -/
def startsOtherwise (word : Text) : Bool :=
  word.head?.any fun expected => !Text.sameFolded 'c' expected

/-- A step that takes something off a text does the same in front of a seam. -/
def Stays (back : Text) (drop : Text → Option Text) (front : Text) : Prop :=
  drop (front ++ back) = (drop front).map (· ++ back) ∧
    ∀ rest, drop front = some rest → Seam rest back

/-- Two steps in a row do the same in front of a seam if each of them does. -/
theorem Stays.bind
    {back front : Text}
    {first second : Text → Option Text}
    (firstStays : Stays back first front)
    (secondStays : ∀ rest, first front = some rest → Stays back second rest) :
    Stays back (fun text => (first text).bind second) front := by
  simp only [Stays, firstStays.1]
  cases found : first front with
  | none =>
      simp
  | some rest =>
      simp only [Option.map_some, Option.bind_some]
      exact secondStays rest found

namespace Seam

/-- An anchor makes a seam with a text that ends outside a word. -/
theorem of_isSome
    {previous : Option Char}
    {front back : Text}
    (closed : Text.wordStart front.getLast? = true)
    (anchored : (at? previous back).isSome = true) :
    Seam front back := by
  obtain ⟨anchor, found⟩ := Option.isSome_iff_exists.mp anchored
  obtain ⟨-, first, inner, rest, shape, -, words⟩ := at?_eq_some found
  exact ⟨closed, first, inner ++ rest, shape, words.starts⟩

theorem tail
    {char : Char}
    {front back : Text}
    (seam : Seam (char :: front) back) :
    Seam front back :=
  ⟨Text.wordStart_of_cons seam.closed, seam.starts⟩

theorem of_append
    {dropped front back : Text}
    (seam : Seam (dropped ++ front) back) :
    Seam front back := by
  induction dropped with
  | nil =>
      exact seam
  | cons char rest inductionHypothesis =>
      exact inductionHypothesis seam.tail

theorem exists_letter
    {front back : Text}
    (seam : Seam front back) :
    ∃ char rest, back = char :: rest ∧ char.isAlpha = true := by
  obtain ⟨char, rest, shape, starts⟩ := seam.starts
  exact ⟨char, rest, shape, Text.isAlpha_of_sameFolded (by decide) starts⟩

/-- A word that does not start with `c` does not stand at the start of the back. -/
theorem dropFolded?_back
    {word front back : Text}
    (seam : Seam front back)
    (other : startsOtherwise word = true) :
    Text.dropFolded? word back = none := by
  obtain ⟨char, rest, rfl, starts⟩ := seam.starts
  cases word with
  | nil =>
      simp [startsOtherwise] at other
  | cons expected more =>
      have differs : Text.sameFolded expected char = false := by
        simp only [startsOtherwise, List.head?_cons, Option.any_some, Bool.not_eq_true',
          Text.sameFolded, beq_iff_eq, beq_eq_false_iff_ne] at starts other ⊢
        rw [← starts]
        exact Ne.symm other
      simp [Text.dropFolded?, differs]

/-- A word in front of a seam does not reach over it. -/
theorem dropFolded?_append
    {word front back : Text}
    (seam : Seam front back)
    (nonempty : front ≠ [])
    (plain : isPlainWord word = true) :
    Text.dropFolded? word (front ++ back) =
        (Text.dropFolded? word front).map (· ++ back) ∧
      ∀ rest, Text.dropFolded? word front = some rest → rest ≠ [] ∧ Seam rest back := by
  induction word generalizing front with
  | nil =>
      refine ⟨rfl, fun rest dropped => ?_⟩
      simp only [Text.dropFolded?, Option.some.injEq] at dropped
      subst rest
      exact ⟨nonempty, seam⟩
  | cons expected more inductionHypothesis =>
      simp only [isPlainWord, List.all_cons, Bool.and_eq_true] at plain
      cases front with
      | nil =>
          exact absurd rfl nonempty
      | cons char tail =>
          cases same : Text.sameFolded expected char with
          | false =>
              simp [Text.dropFolded?, same]
          | true =>
              -- The matched letter belongs to a word, so it is not the last character.
              have letter : isWordChar char = true :=
                isWordChar_of_isAlpha (Text.isAlpha_of_sameFolded plain.1 same)
              have tailNonempty : tail ≠ [] := by
                rintro rfl
                have closed := seam.closed
                simp [Text.wordStart, letter] at closed
              have tailDropped := inductionHypothesis seam.tail tailNonempty plain.2
              simpa only [List.cons_append, Text.dropFolded?, same, ↓reduceIte] using tailDropped

/-- A word that does not start with `c` does not reach over a seam, even from an empty front. -/
theorem dropFolded?_append_of_other
    {word front back : Text}
    (seam : Seam front back)
    (plain : isPlainWord word = true)
    (other : startsOtherwise word = true) :
    Text.dropFolded? word (front ++ back) =
        (Text.dropFolded? word front).map (· ++ back) ∧
      ∀ rest, Text.dropFolded? word front = some rest → rest ≠ [] ∧ Seam rest back := by
  cases front with
  | nil =>
      have alone : Text.dropFolded? word [] = none := by
        cases word with
        | nil => simp [startsOtherwise] at other
        | cons expected more => rfl
      simp [seam.dropFolded?_back other, alone]
  | cons char tail =>
      exact seam.dropFolded?_append (by simp) plain

/-- Blanks in front of a seam end there at the latest. -/
theorem dropBlanks?_append
    {front back : Text}
    (seam : Seam front back)
    (nonempty : front ≠ []) :
    Stays back Text.dropBlanks? front := by
  cases front with
  | nil =>
      exact absurd rfl nonempty
  | cons char tail =>
      cases blank : isBlank char with
      | false =>
          simp [Stays, Text.dropBlanks?, blank]
      | true =>
          obtain ⟨letter, more, rfl, alpha⟩ := seam.exists_letter
          have stops : isBlank letter = false :=
            not_isBlank_of_isAlpha alpha
          refine ⟨?_, fun rest dropped => ?_⟩
          · simp only [List.cons_append, Text.dropBlanks?, blank, ↓reduceIte, Option.map_some,
              Option.some.injEq, Text.trimStart]
            rw [List.dropWhile_append]
            split
            case isTrue empty =>
                rw [List.isEmpty_iff] at empty
                simp [empty, stops]
            case isFalse =>
                rfl
          · obtain ⟨blanks, shape, -, -⟩ := Text.dropBlanks?_eq_some dropped
            rw [shape] at seam
            exact seam.of_append

/-- A word and the blanks behind it do not reach over a seam. -/
theorem dropWordBlanks_stays
    {word front back : Text}
    (seam : Seam front back)
    (plain : isPlainWord word = true)
    (apart : front ≠ [] ∨ startsOtherwise word = true) :
    Stays back (fun text => (Text.dropFolded? word text).bind Text.dropBlanks?) front := by
  have wordDropped :
      Text.dropFolded? word (front ++ back) =
          (Text.dropFolded? word front).map (· ++ back) ∧
        ∀ rest, Text.dropFolded? word front = some rest → rest ≠ [] ∧ Seam rest back := by
    rcases apart with nonempty | other
    · exact seam.dropFolded?_append nonempty plain
    · exact seam.dropFolded?_append_of_other plain other
  have wordStays : Stays back (Text.dropFolded? word) front :=
    ⟨wordDropped.1, fun rest found => (wordDropped.2 rest found).2⟩
  apply wordStays.bind
  intro rest found
  obtain ⟨nonempty, restSeam⟩ := wordDropped.2 rest found
  exact restSeam.dropBlanks?_append nonempty

theorem dropReplace?_stays
    {front back : Text}
    (seam : Seam front back) :
    Stays back dropReplace? front := by
  have orStays :
      Stays back (fun text => (Text.dropFolded? "or".toList text).bind Text.dropBlanks?) front :=
    seam.dropWordBlanks_stays (by decide) (.inr (by decide))
  apply orStays.bind
  intro rest found
  exact (orStays.2 rest found).dropWordBlanks_stays (by decide) (.inr (by decide))

theorem dropKind?_append
    {front back : Text}
    (seam : Seam front back) :
    dropKind? (front ++ back) =
        (dropKind? front).map (fun found => (found.1, found.2 ++ back)) ∧
      ∀ found, dropKind? front = some found → found.2 ≠ [] := by
  have functionDropped :=
    seam.dropFolded?_append_of_other
      (by decide : isPlainWord "function".toList = true) (by decide)
  have procedureDropped :=
    seam.dropFolded?_append_of_other
      (by decide : isPlainWord "procedure".toList = true) (by decide)
  simp only [dropKind?]
  rw [functionDropped.1, procedureDropped.1]
  cases function : Text.dropFolded? "function".toList front with
  | some rest =>
      refine ⟨rfl, fun found same => ?_⟩
      simp only [Option.some.injEq] at same
      subst found
      exact (functionDropped.2 rest function).1
  | none =>
      cases procedure : Text.dropFolded? "procedure".toList front with
      | none =>
          simp
      | some rest =>
          refine ⟨rfl, fun found same => ?_⟩
          simp only [Option.map_some, Option.some.injEq] at same
          subst found
          exact (procedureDropped.2 rest procedure).1

/-- The words of an anchor do not reach over a seam. -/
theorem rest?_append
    {front back : Text}
    (seam : Seam front back)
    (nonempty : front ≠ []) :
    rest? (front ++ back) =
      (rest? front).map fun found => (found.1, found.2 ++ back) := by
  have createStays :
      Stays back
        (fun text => (Text.dropFolded? "create".toList text).bind Text.dropBlanks?) front :=
    seam.dropWordBlanks_stays (by decide) (.inl nonempty)
  have createSame :
      (Text.dropFolded? "create".toList (front ++ back)).bind Text.dropBlanks? =
        ((Text.dropFolded? "create".toList front).bind Text.dropBlanks?).map (· ++ back) :=
    createStays.1
  simp only [rest?, Option.bind_eq_bind]
  rw [createSame]
  cases create : (Text.dropFolded? "create".toList front).bind Text.dropBlanks? with
  | none =>
      rfl
  | some created =>
      have createdSeam : Seam created back := createStays.2 created create
      obtain ⟨replaceSame, replaceSeam⟩ := createdSeam.dropReplace?_stays
      -- With or without `or replace`, the kind is read from a text with the same back.
      obtain ⟨kindSame, kindSeam⟩ :
          (dropReplace? (created ++ back)).getD (created ++ back) =
              (dropReplace? created).getD created ++ back ∧
            Seam ((dropReplace? created).getD created) back := by
        rw [replaceSame]
        cases replace : dropReplace? created with
        | none => exact ⟨rfl, createdSeam⟩
        | some replaced => exact ⟨rfl, replaceSeam replaced replace⟩
      obtain ⟨sameKind, kindNonempty⟩ := kindSeam.dropKind?_append
      simp only [Option.map_some, Option.bind_some, kindSame, sameKind]
      cases kind : dropKind? ((dropReplace? created).getD created) with
      | none =>
          rfl
      | some found =>
          have foundNonempty := kindNonempty found kind
          have sameEnd : Text.wordEnd (found.2 ++ back) = Text.wordEnd found.2 := by
            cases rest : found.2 with
            | nil => exact absurd rest foundNonempty
            | cons char more => rfl
          simp only [Option.map_some, Option.filter_some, sameEnd]
          split
          · rfl
          · rfl

/-- An anchor in front of a seam stays the same. -/
theorem at?_append
    {front back : Text}
    (seam : Seam front back)
    (nonempty : front ≠ [])
    (previous : Option Char) :
    at? previous (front ++ back) = at? previous front := by
  simp only [at?_eq_rest?, seam.rest?_append nonempty, Option.map_map]
  split
  · congr 1
    funext found
    simp only [Function.comp_apply, List.length_append, mk.injEq, true_and]
    omega
  · rfl

/-- An anchor behind a seam is the first one after a front without anchors. -/
theorem distance_append
    {front back : Text}
    (seam : Seam front back)
    (previous : Option Char)
    (anchored : (at? (Text.previousAfter previous front) back).isSome = true) :
    distance previous (front ++ back) = distance previous front := by
  induction front generalizing previous with
  | nil =>
      obtain ⟨char, rest, rfl, -⟩ := seam.starts
      rw [Text.previousAfter_nil] at anchored
      simp [distance, anchored]
  | cons char rest inductionHypothesis =>
      have same := seam.at?_append (by simp) previous
      rw [List.cons_append] at same
      rw [Text.previousAfter_cons] at anchored
      rw [List.cons_append, distance, distance, same,
        inductionHypothesis seam.tail (some char) anchored]

end Seam

end Anchor

end RoutineServer
