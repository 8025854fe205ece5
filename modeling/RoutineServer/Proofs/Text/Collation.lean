import RoutineServer.Proofs.Text.Spelling
import RoutineServer.Text.Lower
import RoutineServer.Text.Order

namespace RoutineServer

/-!
# How names are compared

Names are looked up by their lower case and listed in its order. Lower case is
reached in one step, so a key is its own key, and the order of texts is total,
so a sorted list of names is in order throughout.
-/

namespace CaseRun

/-- The first code point that a run leads to. -/
def firstImage (run : CaseRun) : Nat :=
  (run.first + run.shift).toNat

/-- The last code point that a run leads to. -/
def lastImage (run : CaseRun) : Nat :=
  run.firstImage + (run.last - run.first)

/-- Whether no code point that a run leads to lies in another one, as their ends and steps show. -/
def avoids (run other : CaseRun) : Bool :=
  run.lastImage.blt other.first || other.last.blt run.firstImage ||
    (other.step == 2 && (run.step == 2 || run.first == run.last) &&
      (run.firstImage + other.first) % 2 == 1)

theorem bounds_of_image?
    {run : CaseRun}
    {codePoint image : Nat}
    (proper : 0 ≤ (run.first : Int) + run.shift)
    (mapped : run.image? codePoint = some image) :
    run.firstImage ≤ image ∧ image ≤ run.lastImage ∧
      (image - run.firstImage) % run.step = 0 := by
  simp only [image?, Option.ite_none_right_eq_some, Bool.and_eq_true, decide_eq_true_eq,
    beq_iff_eq, Option.some.injEq] at mapped
  obtain ⟨⟨⟨low, high⟩, onStep⟩, shifted⟩ := mapped
  have distance : image - run.firstImage = codePoint - run.first := by
    simp only [firstImage]
    omega
  rw [distance]
  refine ⟨?_, ?_, onStep⟩
  · simp only [firstImage]
    omega
  · simp only [lastImage, firstImage]
    omega

theorem image?_eq_none_of_avoids
    {run other : CaseRun}
    {codePoint image : Nat}
    (proper : 0 ≤ (run.first : Int) + run.shift)
    (apart : run.avoids other = true)
    (mapped : run.image? codePoint = some image) :
    other.image? image = none := by
  obtain ⟨low, high, onStep⟩ := bounds_of_image? proper mapped
  simp only [image?, ite_eq_right_iff, reduceCtorEq, imp_false, Bool.and_eq_true,
    decide_eq_true_eq, beq_iff_eq]
  rintro ⟨⟨behind, upTo⟩, step⟩
  simp only [avoids, Bool.or_eq_true, Bool.and_eq_true, beq_iff_eq, Nat.blt_eq] at apart
  rcases apart with (below | above) | ⟨⟨two, even⟩, odd⟩
  · omega
  · omega
  · -- Both go in steps of two, but from places of different parity.
    rw [two] at step
    rcases even with also | single
    · rw [also] at onStep
      omega
    · have one : image = run.firstImage := by
        simp only [lastImage] at high
        omega
      omega

end CaseRun

private theorem lowerRuns_avoid :
    (lowerRuns.all fun run => lowerRuns.all run.avoids) = true := by
  decide +kernel

/-- The runs lead to characters, and none but the Kelvin sign leads into ASCII. -/
private theorem lowerRuns_landing :
    ∀ run ∈ lowerRuns,
      0 ≤ (run.first : Int) + run.shift ∧
        (0x80 ≤ run.firstImage ∧ (run.lastImage < 0x130 ∨ 0x130 < run.firstImage) ∧
            (run.lastImage < 0xD800 ∨ 0xDFFF < run.firstImage ∧ run.lastImage < 0x110000) ∨
          run.firstImage = 0x6B ∧ run.lastImage = 0x6B) := by
  decide +kernel

/-- A character that is its own lower case, wherever it stands. -/
def IsLower (char : Char) : Prop :=
  lowerChar char = [char] ∧ char ≠ capitalSigma

theorem isLower_of_mapByRuns
    {char : Char}
    {image : Nat}
    (found : lowerRuns.findSome? (CaseRun.image? · char.toNat) = some image) :
    IsLower (Char.ofNat image) := by
  obtain ⟨run, member, mapped⟩ := List.exists_of_findSome?_eq_some found
  obtain ⟨proper, landing⟩ := lowerRuns_landing run member
  obtain ⟨low, high, -⟩ := CaseRun.bounds_of_image? proper mapped
  have missed : ∀ other ∈ lowerRuns, other.image? image = none := by
    intro other isRun
    have apart := List.all_eq_true.mp lowerRuns_avoid run member
    exact CaseRun.image?_eq_none_of_avoids proper (List.all_eq_true.mp apart other isRun) mapped
  rcases landing with ⟨far, noDot, valid⟩ | ⟨first, last⟩
  · have same : (Char.ofNat image).toNat = image := by
      apply toNat_ofNat_of_isValidChar
      simp only [Nat.isValidChar]
      omega
    have outside : ¬ image < 0x80 := by omega
    have notDotted : (Char.ofNat image == capitalDottedI) = false := by
      rw [beq_eq_false_iff_ne]
      intro dotted
      have code := congrArg Char.toNat dotted
      have dottedCode : capitalDottedI.toNat = 0x130 := by decide
      omega
    constructor
    · have unmapped : lowerRuns.findSome? (CaseRun.image? · image) = none :=
        List.findSome?_eq_none_iff.mpr missed
      simp only [lowerChar, same, outside, notDotted, mapByRuns, unmapped, ↓reduceIte,
        Bool.false_eq_true]
    · -- The capital sigma has a lower case, so that no run leads to it.
      intro sigma
      have code := congrArg Char.toNat sigma
      rw [same] at code
      have sigmaRun := missed ⟨0x3A3, 0x3AB, 1, 32⟩ (by decide +kernel)
      rw [code] at sigmaRun
      exact absurd sigmaRun (by decide)
  · have kelvin : image = 0x6B := by omega
    subst kelvin
    exact ⟨by decide, by decide⟩

theorem isLower_of_mem_lowerChar
    {char image : Char}
    (plain : char ≠ capitalSigma)
    (member : image ∈ lowerChar char) :
    IsLower image := by
  simp only [lowerChar] at member
  split at member
  case isTrue ascii =>
    rw [List.mem_singleton.mp member]
    exact forall_ascii (fun char => IsLower char.toLower)
      (by simp only [IsLower]; decide +kernel) char ascii
  case isFalse outside =>
    split at member
    case isTrue =>
      rw [List.mem_cons, List.mem_singleton] at member
      rcases member with rfl | rfl
      · exact ⟨by decide, by decide⟩
      · exact ⟨by decide +kernel, by decide⟩
    case isFalse notDotted =>
      rw [List.mem_singleton.mp member]
      cases found : lowerRuns.findSome? (CaseRun.image? · char.toNat) with
      | none =>
          have unmapped : mapByRuns lowerRuns char = char := by
            rw [mapByRuns, found]
          rw [unmapped]
          refine ⟨?_, plain⟩
          simp only [lowerChar, outside, notDotted, unmapped, ↓reduceIte, Bool.false_eq_true]
      | some codePoint =>
          rw [mapByRuns, found]
          exact isLower_of_mapByRuns found

namespace Text

theorem isLower_of_mem_lowerAfter
    {passed text : Text}
    {char : Char}
    (member : char ∈ lowerAfter passed text) :
    IsLower char := by
  induction text generalizing passed with
  | nil =>
      cases member
  | cons first rest inductionHypothesis =>
      rw [lowerAfter] at member
      rcases List.mem_append.mp member with isFirst | isLater
      · split at isFirst
        case isFalse other => exact isLower_of_mem_lowerChar (by simpa using other) isFirst
        case isTrue =>
          split at isFirst
          case isTrue =>
            rw [List.mem_singleton.mp isFirst]
            exact ⟨by decide +kernel, by decide⟩
          case isFalse =>
            rw [List.mem_singleton.mp isFirst]
            exact ⟨by decide +kernel, by decide⟩
      · exact inductionHypothesis isLater

theorem lowerAfter_eq_self
    {text : Text}
    (lowered : ∀ char ∈ text, IsLower char)
    (passed : Text) :
    lowerAfter passed text = text := by
  induction text generalizing passed with
  | nil =>
      rfl
  | cons first rest inductionHypothesis =>
      obtain ⟨same, other⟩ := lowered first List.mem_cons_self
      have notSigma : (first == capitalSigma) = false := by simpa using other
      have later := inductionHypothesis fun char member =>
        lowered char (List.mem_cons_of_mem _ member)
      simp [lowerAfter, notSigma, same, later]

/-- Lower case is reached in one step. -/
theorem lower_lower
    (text : Text) :
    lower (lower text) = lower text :=
  lowerAfter_eq_self (fun _ member => isLower_of_mem_lowerAfter member) []

/-- How long the lower case is does not depend on where the characters stand. -/
theorem length_lowerAfter
    (passed text : Text) :
    (lowerAfter passed text).length = (text.flatMap lowerChar).length := by
  induction text generalizing passed with
  | nil =>
      rfl
  | cons first rest inductionHypothesis =>
      rw [lowerAfter, List.length_append, inductionHypothesis, List.flatMap_cons,
        List.length_append]
      congr 1
      split
      case isTrue isSigma =>
        rw [beq_iff_eq.mp isSigma]
        split <;> decide +kernel
      case isFalse => rfl

theorem lowerChar_ne_nil
    (char : Char) :
    lowerChar char ≠ [] := by
  rw [lowerChar]
  split
  · exact List.cons_ne_nil _ _
  · split
    · exact List.cons_ne_nil _ _
    · exact List.cons_ne_nil _ _

/-- A piece of a text has the same lower case as the text only if it is all of it. -/
theorem eq_of_lower_eq
    {before piece behind : Text}
    (same : lower piece = lower (before ++ (piece ++ behind))) :
    before = [] ∧ behind = [] := by
  have lengths := congrArg List.length same
  rw [lower, lower, length_lowerAfter, length_lowerAfter, List.flatMap_append, List.flatMap_append,
    List.length_append, List.length_append] at lengths
  have empty : ∀ part : Text, (part.flatMap lowerChar).length = 0 → part = [] := by
    intro part none
    cases part with
    | nil =>
        rfl
    | cons char rest =>
        have nothing := List.eq_nil_of_length_eq_zero none
        rw [List.flatMap_cons, List.append_eq_nil_iff] at nothing
        exact absurd nothing.1 (lowerChar_ne_nil char)
  exact ⟨empty before (by omega), empty behind (by omega)⟩

theorem lowerAfter_of_ascii
    {text : Text}
    (ascii : ∀ char ∈ text, char.toNat < 0x80)
    (passed : Text) :
    lowerAfter passed text = text.map Char.toLower := by
  induction text generalizing passed with
  | nil =>
      rfl
  | cons first rest inductionHypothesis =>
      rw [List.forall_mem_cons] at ascii
      have notSigma : (first == capitalSigma) = false := by
        rw [beq_eq_false_iff_ne]
        rintro rfl
        exact absurd ascii.1 (by decide)
      simp [lowerAfter, notSigma, lowerChar, ascii.1, inductionHypothesis ascii.2]

/-- Texts in ASCII with the same lower case spell one another. -/
theorem spells_of_lower_eq
    {left right : Text}
    (leftAscii : ∀ char ∈ left, char.toNat < 0x80)
    (rightAscii : ∀ char ∈ right, char.toNat < 0x80)
    (same : lower left = lower right) :
    Spells left right := by
  rw [lower, lower, lowerAfter_of_ascii leftAscii, lowerAfter_of_ascii rightAscii] at same
  induction left generalizing right with
  | nil =>
      rw [List.map_eq_nil_iff.mp same.symm]
      exact .nil
  | cons first rest inductionHypothesis =>
      cases right with
      | nil =>
          cases same
      | cons other more =>
          rw [List.forall_mem_cons] at leftAscii rightAscii
          rw [List.map_cons, List.map_cons, List.cons.injEq] at same
          refine .cons ?_ (inductionHypothesis leftAscii.2 rightAscii.2 same.2)
          rw [sameFolded, beq_iff_eq, foldChar_of_ascii leftAscii.1,
            foldChar_of_ascii rightAscii.1, same.1]

theorem atMost_total
    (left right : Text) :
    (atMost left right || atMost right left) = true := by
  induction left generalizing right with
  | nil =>
      rfl
  | cons first rest inductionHypothesis =>
      cases right with
      | nil =>
          rfl
      | cons other more =>
          simp only [atMost, Bool.or_eq_true, Bool.and_eq_true, decide_eq_true_eq, beq_iff_eq]
          rcases Nat.lt_trichotomy first.toNat other.toNat with less | same | greater
          · exact .inl (.inl less)
          · have equal : first = other := Char.toNat_inj.mp same
            have later := inductionHypothesis more
            rw [Bool.or_eq_true] at later
            rcases later with isLess | isMore
            · exact .inl (.inr ⟨equal, isLess⟩)
            · exact .inr (.inr ⟨equal.symm, isMore⟩)
          · exact .inr (.inl greater)

theorem atMost_trans
    {first second third : Text}
    (left : atMost first second = true)
    (right : atMost second third = true) :
    atMost first third = true := by
  induction first generalizing second third with
  | nil =>
      rfl
  | cons char rest inductionHypothesis =>
      cases second with
      | nil =>
          cases left
      | cons middle more =>
          cases third with
          | nil =>
              cases right
          | cons last others =>
              simp only [atMost, Bool.or_eq_true, Bool.and_eq_true, decide_eq_true_eq,
                beq_iff_eq] at left right ⊢
              rcases left with less | ⟨rfl, restLess⟩
              · rcases right with also | ⟨rfl, -⟩
                · exact .inl (Nat.lt_trans less also)
                · exact .inl less
              · rcases right with also | ⟨rfl, othersLess⟩
                · exact .inl also
                · exact .inr ⟨rfl, inductionHypothesis restLess othersLess⟩

end Text

end RoutineServer
