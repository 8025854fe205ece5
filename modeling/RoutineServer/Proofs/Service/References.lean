import RoutineServer.Keyword
import RoutineServer.Proofs.Routine.NamePlace
import RoutineServer.Proofs.Text.Collation
import RoutineServer.Proofs.Text.Coordinates
import RoutineServer.Proofs.Text.WholeWord
import RoutineServer.Service.Navigation

namespace RoutineServer

/-!
# References to a name

The mentions of a name are its quoted occurrences and the plain ones that are
not inside a quoted one. They come in order and do not overlap, since a plain
occurrence that meets a quoted one stands just between its quotes. The name of a
declaration is one of them, so leaving the declarations out takes away exactly
the names that are declared.
-/

/-- In ASCII, word boundaries and whole words look at the same characters. -/
theorem isIdentifierChar_ascii
    {char : Char}
    (ascii : char.toNat < 0x80) :
    isIdentifierChar char = isWordChar char ∧
      (isIdentifierChar char = true → isNameChar char = true) ∧
        (isBlank char = true → isIdentifierChar char = false) := by
  revert ascii
  apply forall_ascii fun char =>
    isIdentifierChar char = isWordChar char ∧
      (isIdentifierChar char = true → isNameChar char = true) ∧
        (isBlank char = true → isIdentifierChar char = false)
  decide +kernel

/-- The last word of an anchor is a keyword, however it is spelled. -/
theorem Keyword.contains_of_spells_kind
    {kind : RoutineKind}
    {name : Text}
    (spelled : Text.Spells kind.name name)
    (ascii : ∀ char ∈ name, char.toNat < 0x80) :
    contains name = true := by
  have kindAscii : ∀ char ∈ kind.name, char.toNat < 0x80 := by
    intro char member
    have letter := Anchor.isAlpha_of_spells_kind (.refl kind.name) char member
    exact Text.ascii_of_isAlphanum (by simp [Char.isAlphanum, letter])
  have isKeyword : kind.name ∈ all := by
    cases kind with
    | function => exact List.mem_map_of_mem (by decide +kernel : "function" ∈ spellings)
    | procedure => exact List.mem_map_of_mem (by decide +kernel : "procedure" ∈ spellings)
  refine List.any_eq_true.mpr ⟨kind.name, isKeyword, ?_⟩
  rw [Text.equalAsciiCase, beq_iff_eq]
  exact spelled.map_toLower kindAscii ascii

theorem isNameChar_toLower
    {char : Char}
    (ascii : char.toNat < 0x80) :
    isNameChar char.toLower = isNameChar char := by
  revert ascii
  apply forall_ascii fun char => isNameChar char.toLower = isNameChar char
  decide +kernel

/-- Ranges that are not empty and follow one another without overlap. -/
structure Range.Successive (ranges : List Range) : Prop where
  nonempty : ∀ range ∈ ranges, range.start.Precedes range.stop
  ordered : ranges.Pairwise fun first second =>
    first.stop = second.start ∨ first.stop.Precedes second.start

namespace Text

/-- The ranges of separate spans are successive. -/
theorem Separate.successive
    {text : Text}
    {spans : List Span}
    (separate : Separate spans)
    (bounded : ∀ span ∈ spans,
      isBoundary span.start text = true ∧ isBoundary span.stop text = true) :
    Range.Successive (spans.map (rangeOf text)) where
  nonempty := by
    intro range member
    obtain ⟨span, isSpan, rfl⟩ := List.mem_map.mp member
    obtain ⟨starts, stops⟩ := bounded span isSpan
    exact positionOf_precedes_of_lt starts stops (separate.nonempty span isSpan)
  ordered := by
    rw [List.pairwise_map]
    refine separate.ordered.imp_of_mem ?_
    intro first second isFirst isSecond apart
    have stops := (bounded first isFirst).2
    have starts := (bounded second isSecond).1
    exact positionOf_eq_or_precedes stops starts apart

/--
A plain occurrence of a name lies in front of a quoted one or behind it, or it
stands just between the quotes.
-/
theorem cases_of_occursAt_quoted
    {text name front spelling back : Text}
    {quoted : Span}
    (nonempty : name ≠ [])
    (unquoted : '"' ∉ name)
    (whole : text = front ++ (spelling ++ back))
    (spelled : Spells name spelling)
    (occurs : OccursAt text ('"' :: name ++ ['"']) quoted) :
    byteLength front + byteLength spelling ≤ quoted.start ∨
      quoted.stop ≤ byteLength front ∨
        (front.getLast? = some '"' ∧
          (⟨byteLength front, byteLength front + byteLength spelling⟩ : Span).within quoted =
            true) := by
  obtain ⟨before, enclosed, behind, shape, rfl, quotedSpelled, -⟩ := occurs
  obtain ⟨inside, rfl, insideSpelled⟩ := quotedSpelled.of_quoted
  have absent : '"' ∉ spelling := spelled.not_mem (by decide) (by decide) unquoted
  have notQuote : ∀ others, '"' :: others ≠ spelling ++ back := by
    intro others isQuote
    obtain ⟨char, more, rfl⟩ := List.exists_cons_of_ne_nil (spelled.ne_nil nonempty)
    rw [List.cons_append, List.cons.injEq] at isQuote
    rw [isQuote.1] at absent
    exact absent List.mem_cons_self
  have sizes : spelling.length = inside.length :=
    spelled.length_eq.symm.trans insideSpelled.length_eq
  rw [whole] at shape
  rcases List.append_eq_append_iff.mp shape with ⟨middle, rfl, rest⟩ | ⟨middle, rfl, rest⟩
  · -- The quoted one starts behind the start of the plain one, so behind its end.
    obtain ⟨more, rfl⟩ := exists_append_of_not_mem absent rest
    left
    simp only [byteLength_append]
    omega
  · cases middle with
    | nil =>
        exact absurd rest (notQuote _)
    | cons first inner =>
        simp only [List.cons_append, List.append_assoc, List.cons.injEq] at rest
        obtain ⟨rfl, rest⟩ := rest
        rcases List.append_eq_append_iff.mp rest with ⟨more, rfl, later⟩ | ⟨more, isInside, later⟩
        · cases more with
          | nil =>
              exact absurd later (notQuote _)
          | cons second others =>
              have isQuote := (List.cons.inj later).1
              right; left
              simp only [← isQuote, byteLength_append, byteLength_cons, byteLength_nil]
              omega
        · obtain ⟨others, rfl⟩ := exists_append_of_not_mem absent later
          have empty : inner = [] ∧ others = [] := by
            have lengths := congrArg List.length isInside
            simp only [List.length_append] at lengths
            exact ⟨List.eq_nil_of_length_eq_zero (by omega),
              List.eq_nil_of_length_eq_zero (by omega)⟩
          obtain ⟨rfl, rfl⟩ := empty
          right; right
          rw [List.nil_append, List.append_nil] at isInside
          subst isInside
          refine ⟨List.getLast?_concat, ?_⟩
          simp only [Span.within, byteLength_append, byteLength_cons, byteLength_nil,
            Bool.and_eq_true, decide_eq_true_eq]
          omega

/-- Spans of which no two overlap are separate once they are sorted by their starts. -/
theorem separate_mergeSort
    {spans : List Span}
    (nonempty : ∀ span ∈ spans, span.start < span.stop)
    (apart : spans.Pairwise fun first second =>
      first.stop ≤ second.start ∨ second.stop ≤ first.start) :
    Separate (spans.mergeSort (·.start ≤ ·.start)) where
  nonempty := by
    intro span member
    exact nonempty span (List.mem_mergeSort.mp member)
  ordered := by
    have sorted :
        (spans.mergeSort (·.start ≤ ·.start)).Pairwise fun first second =>
          decide (first.start ≤ second.start) = true := by
      apply List.pairwise_mergeSort
      · intro first second third
        simpa using Nat.le_trans
      · intro first second
        simpa using Nat.le_total first.start second.start
    have stillApart :=
      ((List.mergeSort_perm spans (·.start ≤ ·.start)).pairwise_iff (fun either => either.symm)).mpr
        apart
    refine (sorted.and stillApart).imp_of_mem ?_
    rintro first second - isSecond ⟨before, behind | overlapping⟩
    · exact behind
    · have size := nonempty second (List.mem_mergeSort.mp isSecond)
      simp only [decide_eq_true_eq] at before
      omega

theorem Spells.quoted
    {name spelling : Text}
    (spelled : Spells name spelling) :
    Spells ('"' :: name ++ ['"']) ('"' :: spelling ++ ['"']) := by
  refine .cons (by decide) ?_
  induction spelled with
  | nil => exact .cons (by decide) .nil
  | cons same _ inductionHypothesis => exact .cons same inductionHypothesis

/-- Two quoted occurrences can share a quote only. -/
theorem Spells.enclosed_of_overlap
    {name ahead shared : Text}
    (spelled : Spells ('"' :: name ++ ['"']) (ahead ++ '"' :: shared))
    (unquoted : '"' ∉ name)
    (starts : ahead ≠ []) :
    ∃ enclosed, ahead = '"' :: enclosed ∧ Spells name enclosed := by
  obtain ⟨enclosed, shape, enclosedSpelled⟩ := spelled.of_quoted
  obtain ⟨first, previous, rfl⟩ := List.exists_cons_of_ne_nil starts
  obtain ⟨rfl, inner⟩ := List.cons.inj shape
  have absent : '"' ∉ enclosed := enclosedSpelled.not_mem (by decide) (by decide) unquoted
  obtain ⟨rest, rfl⟩ := exists_append_of_not_mem absent inner.symm
  have noRest : rest = [] := by
    have lengths := congrArg List.length inner
    simp only [List.append_eq, List.length_append, List.length_cons, List.length_nil] at lengths
    exact List.eq_nil_of_length_eq_zero (by omega)
  rw [noRest, List.append_nil]
  exact ⟨enclosed, rfl, enclosedSpelled⟩

/-- Every occurrence starts inside one that is found. -/
theorem exists_found_of_occursAt
    {text name : Text}
    {span : Span}
    (nonempty : name ≠ [])
    (occurs : OccursAt text name span) :
    ∃ found ∈ wholeWords text name, found.start ≤ span.start ∧ span.start < found.stop := by
  rcases mem_or_covered_of_occursAt nonempty occurs with member | ⟨found, member, before, behind⟩
  · exact ⟨span, member, Nat.le_refl _, (separate_wholeWords nonempty).nonempty span member⟩
  · exact ⟨found, member, Nat.le_of_lt before, behind⟩

/-- What spells a name in ASCII is made of name characters, as the name is. -/
theorem Spells.isNameChar
    {name spelling : Text}
    (spelled : Spells name spelling)
    (inName : ∀ char ∈ name, isNameChar char = true)
    (ascii : ∀ char ∈ spelling, char.toNat < 0x80) :
    ∀ char ∈ spelling, RoutineServer.isNameChar char = true := by
  intro char member
  obtain ⟨expected, inside, same⟩ := spelled.exists_of_mem member
  have expectedAscii := isNameChar_ascii (inName expected inside)
  rw [sameFolded, beq_iff_eq, foldChar_of_ascii expectedAscii,
    foldChar_of_ascii (ascii char member)] at same
  rw [← isNameChar_toLower (ascii char member), ← same, isNameChar_toLower expectedAscii]
  exact inName expected inside

theorem Spells.any_head?
    {name spelling : Text}
    (spelled : Spells name spelling)
    (ascii : ∀ char ∈ name, char.toNat < 0x80) :
    spelling.head?.any isIdentifierChar = name.head?.any isIdentifierChar := by
  cases spelled with
  | nil => rfl
  | cons same _ => exact isIdentifierChar_of_sameFolded (ascii _ List.mem_cons_self) same

end Text

namespace Declaration.Surroundings

open Text

variable {text name : Text} {declaration : Declaration}

/-- In front of a name is a blank or a letter. -/
theorem exists_last
    (around : Surroundings text declaration) :
    ∃ last, (around.front ++ (around.word ++ around.blanks)).getLast? = some last ∧
      (around.blanks ≠ [] ∧ isBlank last = true ∨
        around.blanks = [] ∧ last.isAlpha = true) := by
  rw [← List.append_assoc]
  by_cases blanks : around.blanks = []
  · have nonempty := Anchor.ne_nil_of_spells_kind around.kind_spelled
    refine ⟨around.word.getLast nonempty, ?_, .inr ⟨blanks, ?_⟩⟩
    · rw [blanks, List.append_nil, List.getLast?_append_of_ne_nil _ nonempty,
        List.getLast?_eq_some_getLast nonempty]
    · exact Anchor.isAlpha_of_spells_kind around.kind_spelled _ (List.getLast_mem nonempty)
  · refine ⟨around.blanks.getLast blanks, ?_, .inl ⟨blanks, ?_⟩⟩
    · rw [List.getLast?_append_of_ne_nil _ blanks, List.getLast?_eq_some_getLast blanks]
    · exact around.blank _ (List.getLast_mem blanks)

/-- Name characters directly in front of a name end the last word of the anchor. -/
theorem exists_word_eq_append
    {earlier inside : Text}
    (around : Surroundings text declaration)
    (split : around.front ++ (around.word ++ around.blanks) = earlier ++ inside)
    (nonempty : inside ≠ [])
    (inName : ∀ char ∈ inside, isNameChar char = true) :
    around.blanks = [] ∧ ∃ others, around.word = others ++ inside := by
  obtain ⟨last, isLast, ⟨-, blank⟩ | ⟨noBlanks, -⟩⟩ := around.exists_last
  · rw [split, List.getLast?_append_of_ne_nil _ nonempty] at isLast
    rw [(isNameChar_visible (inName last (List.mem_of_getLast? isLast))).1] at blank
    cases blank
  · refine ⟨noBlanks, ?_⟩
    rw [noBlanks, List.append_nil] at split
    rcases List.append_eq_append_iff.mp split with ⟨others, -, isWord⟩ | ⟨others, isFront, isInside⟩
    · exact ⟨others, isWord⟩
    · -- The word cannot go on in front, where no name character stands.
      rcases List.eq_nil_or_concat others with empty | ⟨more, char, isMore⟩
      · rw [empty, List.nil_append] at isInside
        exact ⟨[], isInside.symm⟩
      · obtain ⟨first, isFirst, outside⟩ := around.apart
        rw [isFront, isMore, List.concat_eq_append, ← List.append_assoc,
          List.getLast?_concat, Option.some.injEq] at isFirst
        have inInside : first ∈ inside := by
          rw [isInside, isMore, isFirst]
          simp
        rw [inName first inInside] at outside
        cases outside

/-- Name characters between a quote and a name are all of the last word of the anchor. -/
theorem word_eq_of_quote
    {earlier enclosed : Text}
    (around : Surroundings text declaration)
    (before : around.front ++ (around.word ++ around.blanks) = earlier ++ '"' :: enclosed)
    (nonempty : enclosed ≠ [])
    (inName : ∀ char ∈ enclosed, isNameChar char = true) :
    around.word = enclosed := by
  rw [List.append_cons] at before
  obtain ⟨noBlanks, others, isWord⟩ := around.exists_word_eq_append before nonempty inName
  rcases List.eq_nil_or_concat others with rfl | ⟨most, last, rfl⟩
  · exact isWord
  · rw [noBlanks, List.append_nil, isWord, ← List.append_assoc] at before
    have ends := congrArg List.getLast? (List.append_cancel_right before)
    rw [List.concat_eq_append, ← List.append_assoc, List.getLast?_concat,
      List.getLast?_concat, Option.some.injEq] at ends
    have letter := Anchor.isAlpha_of_spells_kind around.kind_spelled last (by rw [isWord]; simp)
    rw [ends] at letter
    cases letter

/-- The plain name of a declaration stands in no quotes. -/
theorem not_within_quoted
    {quoted : Span}
    (around : Surroundings text declaration)
    (nonempty : name ≠ [])
    (unquoted : '"' ∉ name)
    (spelled : Spells name declaration.spelling)
    (occurs : OccursAt text ('"' :: name ++ ['"']) quoted) :
    declaration.nameSpan.within quoted = false := by
  have size := byteLength_pos (spelled.ne_nil nonempty)
  rw [Bool.eq_false_iff, nameSpan, around.nameStart_eq]
  simp only [Span.within, ne_eq, Bool.and_eq_true, decide_eq_true_eq]
  rcases cases_of_occursAt_quoted nonempty unquoted around.whole spelled occurs with
    before | behind | ⟨isQuote, -⟩
  · omega
  · omega
  · obtain ⟨last, isLast, ⟨-, blank⟩ | ⟨-, letter⟩⟩ := around.exists_last
    · rw [isLast, Option.some.injEq] at isQuote
      rw [isQuote] at blank
      exact absurd blank (by decide)
    · rw [isLast, Option.some.injEq] at isQuote
      rw [isQuote] at letter
      cases letter

section Mentioned

variable (around : Surroundings text declaration)
  (ascii : ∀ char ∈ text, char.toNat < 0x80)
  (inName : ∀ char ∈ name, isNameChar char = true)

include around ascii

theorem ascii_in_front :
    ∀ char ∈ around.front ++ (around.word ++ around.blanks), char.toNat < 0x80 := by
  intro char member
  apply ascii
  rw [around.whole]
  exact List.mem_append_left _ member

theorem ascii_from_name :
    ∀ char ∈ declaration.spelling ++ around.behind, char.toNat < 0x80 := by
  intro char member
  apply ascii
  rw [around.whole]
  exact List.mem_append_right _ member

include inName

/-- A name that starts like a word has blanks in front of it. -/
theorem blanks_ne_nil
    (spelled : Spells name declaration.spelling)
    (starts : name.head?.any isIdentifierChar = true) :
    around.blanks ≠ [] := by
  intro noBlanks
  have free := around.free noBlanks
  rw [← spelled.any_head? fun char member => isNameChar_ascii (inName char member)] at starts
  have spellingAscii := around.ascii_from_name ascii
  cases shape : declaration.spelling with
  | nil =>
      rw [shape] at starts
      cases starts
  | cons first rest =>
      rw [shape] at starts free spellingAscii
      have sameClass := (isIdentifierChar_ascii (spellingAscii first List.mem_cons_self)).1
      simp only [List.head?_cons, Option.any_some] at starts free
      rw [sameClass, free] at starts
      cases starts

/-- The plain name of a declaration is a whole word. -/
theorem isWholeWord_of_plain
    (spelled : Spells name declaration.spelling)
    (ends : around.behind.head?.any isNameChar = false) :
    isWholeWord name (around.front ++ (around.word ++ around.blanks)).getLast? around.behind =
      true := by
  refine isWholeWord_iff.mpr ⟨fun starts => ?_, fun _ => ?_⟩
  · obtain ⟨last, isLast, ⟨-, blank⟩ | ⟨noBlanks, -⟩⟩ := around.exists_last
    · have inText := around.ascii_in_front ascii last (List.mem_of_getLast? isLast)
      rw [isLast]
      exact (isIdentifierChar_ascii inText).2.2 blank
    · exact absurd noBlanks (around.blanks_ne_nil ascii inName spelled starts)
  · have restAscii := around.ascii_from_name ascii
    cases shape : around.behind with
    | nil =>
        rfl
    | cons next rest =>
        rw [shape] at ends restAscii
        have inText := restAscii next (List.mem_append_right _ List.mem_cons_self)
        simp only [List.head?_cons, Option.any_some] at ends ⊢
        by_contra identifier
        rw [(isIdentifierChar_ascii inText).2.1 (by simpa using identifier)] at ends
        cases ends

/-- The search for a name finds the plain name of a declaration. -/
theorem mem_wholeWords_of_plain
    (nonempty : name ≠ [])
    (spelled : Spells name declaration.spelling)
    (ends : around.behind.head?.any isNameChar = false) :
    declaration.nameSpan ∈ wholeWords text name := by
  have nameAscii : ∀ char ∈ name, char.toNat < 0x80 :=
    fun char member => isNameChar_ascii (inName char member)
  have frontAscii := around.ascii_in_front ascii
  have restAscii := around.ascii_from_name ascii
  have stands := around.isWholeWord_of_plain ascii inName spelled ends
  rw [nameSpan, around.nameStart_eq]
  cases met_wholeWords nonempty around.whole spelled stands with
  | found member => exact member
  | @covered earlier inside outside later before behind starts _ otherSpelled _ =>
      -- Another occurrence would have to start inside the last word of the anchor.
      have otherAscii : ∀ char ∈ inside ++ outside, char.toNat < 0x80 := by
        intro char member
        rcases List.mem_append.mp member with isInside | isOutside
        · exact frontAscii char (by rw [before]; exact List.mem_append_right _ isInside)
        · exact restAscii char (by rw [behind]; exact List.mem_append_left _ isOutside)
      have otherName := otherSpelled.isNameChar inName otherAscii
      obtain ⟨noBlanks, others, isWord⟩ :=
        around.exists_word_eq_append before starts fun char member =>
          otherName char (List.mem_append_left _ member)
      have likeWord : name.head?.any isIdentifierChar = true := by
        rw [← otherSpelled.any_head? nameAscii]
        obtain ⟨first, more, rfl⟩ := List.exists_cons_of_ne_nil starts
        have inWord : first ∈ around.word := by
          rw [isWord]
          simp
        have letter := Anchor.isAlpha_of_spells_kind around.kind_spelled first inWord
        rw [List.cons_append, List.head?_cons, Option.any_some,
          (isIdentifierChar_ascii (otherAscii first List.mem_cons_self)).1]
        exact isWordChar_of_isAlpha letter
      exact absurd noBlanks (around.blanks_ne_nil ascii inName spelled likeWord)

/-- The search for the quoted name finds the quoted name of a declaration. -/
theorem mem_wholeWords_of_quoted
    {inside : Text}
    (nonempty : name ≠ [])
    (ordinary : Keyword.contains name = false)
    (quoted : declaration.spelling = '"' :: inside ++ ['"'])
    (spelled : Spells name inside) :
    declaration.nameSpan ∈ wholeWords text ('"' :: name ++ ['"']) := by
  have unquoted : '"' ∉ name := fun member => (isNameChar_visible (inName _ member)).2 rfl
  have quotedSpelled : Spells ('"' :: name ++ ['"']) declaration.spelling := by
    rw [quoted]
    exact spelled.quoted
  have outside : isIdentifierChar '"' = false := by decide
  have stands :
      isWholeWord ('"' :: name ++ ['"'])
        (around.front ++ (around.word ++ around.blanks)).getLast? around.behind = true := by
    rw [isWholeWord_iff, List.getLast?_concat]
    simp [outside]
  rw [nameSpan, around.nameStart_eq]
  cases met_wholeWords (List.cons_ne_nil _ _) around.whole quotedSpelled stands with
  | found member => exact member
  | @covered earlier ahead shared later before behind starts overlaps otherSpelled _ =>
      -- Another occurrence would end with the opening quote, and so enclose the anchor's word.
      obtain ⟨first, more, rfl⟩ := List.exists_cons_of_ne_nil overlaps
      rw [quoted] at behind
      rw [← (List.cons.inj behind).1] at otherSpelled
      obtain ⟨enclosed, rfl, enclosedSpelled⟩ := otherSpelled.enclosed_of_overlap unquoted starts
      have enclosedName : ∀ char ∈ enclosed, isNameChar char = true := by
        have frontAscii := around.ascii_in_front ascii
        rw [before] at frontAscii
        exact enclosedSpelled.isNameChar inName fun char member =>
          frontAscii char (by simp [member])
      have isWord := around.word_eq_of_quote before (enclosedSpelled.ne_nil nonempty) enclosedName
      have kindSpelled : Spells declaration.kind.name name :=
        around.kind_spelled.trans (isWord ▸ enclosedSpelled.symm)
      rw [Keyword.contains_of_spells_kind kindSpelled fun char member =>
        isNameChar_ascii (inName char member)] at ordinary
      cases ordinary

end Mentioned

end Declaration.Surroundings

namespace Navigation

open Text

section Mentions

variable {text name : Text} {span : Span}

theorem mem_mentions :
    span ∈ mentions text name ↔
      span ∈ wholeWords text (Name.quote name) ∨
        span ∈ wholeWords text name ∧
          ∀ quoted ∈ wholeWords text (Name.quote name), span.within quoted = false := by
  simp [mentions]

theorem occursAt_of_mem_mentions
    (nonempty : name ≠ [])
    (member : span ∈ mentions text name) :
    OccursAt text (Name.quote name) span ∨ OccursAt text name span := by
  rcases mem_mentions.mp member with quoted | ⟨plain, -⟩
  · exact .inl (occursAt_of_mem_wholeWords (Name.quote_ne_nil name) quoted)
  · exact .inr (occursAt_of_mem_wholeWords nonempty plain)

theorem isBoundary_of_mem_mentions
    (nonempty : name ≠ [])
    (member : span ∈ mentions text name) :
    isBoundary span.start text = true ∧ isBoundary span.stop text = true := by
  rcases occursAt_of_mem_mentions nonempty member with quoted | plain
  · exact quoted.isBoundary
  · exact plain.isBoundary

/-- Mentions of a name come in order and do not overlap. -/
theorem separate_mentions
    (nonempty : name ≠ [])
    (unquoted : '"' ∉ name) :
    Separate (mentions text name) := by
  have quotedSeparate : Separate (wholeWords text (Name.quote name)) :=
    separate_wholeWords (Name.quote_ne_nil name)
  have plainSeparate : Separate (wholeWords text name) := separate_wholeWords nonempty
  apply separate_mergeSort
  · intro span member
    rcases List.mem_append.mp member with isQuoted | isPlain
    · exact quotedSeparate.nonempty span isQuoted
    · exact plainSeparate.nonempty span (List.mem_filter.mp isPlain).1
  · refine List.pairwise_append.mpr ⟨quotedSeparate.ordered.imp .inl,
      (plainSeparate.ordered.filter _).imp .inl, ?_⟩
    intro quoted isQuoted plain isPlain
    obtain ⟨member, notWithin⟩ := List.mem_filter.mp isPlain
    obtain ⟨front, spelling, back, whole, rfl, spelled, -⟩ :=
      occursAt_of_mem_wholeWords nonempty member
    have occurs := occursAt_of_mem_wholeWords (Name.quote_ne_nil name) isQuoted
    rw [Name.quote_of_unquoted unquoted] at occurs
    rcases cases_of_occursAt_quoted nonempty unquoted whole spelled occurs with
      before | behind | ⟨-, within⟩
    · exact .inr before
    · exact .inl behind
    · have anyWithin := List.any_eq_true.mpr ⟨quoted, isQuoted, within⟩
      rw [anyWithin] at notWithin
      cases notWithin

/-- Every place where a name stands starts inside a mention of it. -/
theorem exists_mention_of_occursAt
    (nonempty : name ≠ [])
    (occurs : OccursAt text (Name.quote name) span ∨ OccursAt text name span) :
    ∃ mention ∈ mentions text name, mention.start ≤ span.start ∧ span.start < mention.stop := by
  rcases occurs with quoted | plain
  · obtain ⟨found, isFound, before, behind⟩ :=
      exists_found_of_occursAt (Name.quote_ne_nil name) quoted
    exact ⟨found, mem_mentions.mpr (.inl isFound), before, behind⟩
  · obtain ⟨found, isFound, before, behind⟩ := exists_found_of_occursAt nonempty plain
    by_cases enclosed :
        ∃ quoted ∈ wholeWords text (Name.quote name), found.within quoted = true
    · obtain ⟨quoted, isQuoted, within⟩ := enclosed
      simp only [Span.within, Bool.and_eq_true, decide_eq_true_eq] at within
      exact ⟨quoted, mem_mentions.mpr (.inl isQuoted), Nat.le_trans within.1 before,
        Nat.lt_of_lt_of_le behind within.2⟩
    · refine ⟨found, mem_mentions.mpr (.inr ⟨isFound, ?_⟩), before, behind⟩
      intro quoted isQuoted
      exact Bool.eq_false_iff.mpr fun within => enclosed ⟨quoted, isQuoted, within⟩

/-- The name of a declaration is a mention of it. -/
theorem nameSpan_mem_mentions
    {declaration : Declaration}
    (ascii : ∀ char ∈ text, char.toNat < 0x80)
    (nonempty : name ≠ [])
    (inName : ∀ char ∈ name, isNameChar char = true)
    (ordinary : Keyword.contains name = false)
    (declared : declaration ∈ Declaration.parse text)
    (named : declaration.isNamed name = true) :
    declaration.nameSpan ∈ mentions text name := by
  obtain ⟨around⟩ := Declaration.exists_surroundings declared
  have unquoted : '"' ∉ name := fun member => (isNameChar_visible (inName _ member)).2 rfl
  have nameAscii : ∀ char ∈ name, char.toNat < 0x80 :=
    fun char member => isNameChar_ascii (inName char member)
  have spellingAscii : ∀ char ∈ declaration.spelling, char.toNat < 0x80 :=
    fun char member => around.ascii_from_name ascii char (List.mem_append_left _ member)
  have sameName : lower declaration.name = lower name := beq_iff_eq.mp named
  rw [around.name_eq] at sameName
  rw [mem_mentions, Name.quote_of_unquoted unquoted]
  rcases around.token.plain_or_quoted with ⟨plain, ends⟩ | ⟨inside, quoted⟩
  · rw [Name.normalize_eq_self fun char member => isNameChar_visible (plain char member)]
      at sameName
    have spelled := (spells_of_lower_eq spellingAscii nameAscii sameName).symm
    refine .inr ⟨around.mem_wholeWords_of_plain ascii inName nonempty spelled ends, ?_⟩
    intro other isOther
    exact around.not_within_quoted nonempty unquoted spelled
      (occursAt_of_mem_wholeWords (List.cons_ne_nil _ _) isOther)
  · rw [quoted, Name.normalize_quoted] at sameName
    rw [quoted] at spellingAscii
    have undoubledAscii : ∀ char ∈ Name.undouble inside, char.toNat < 0x80 := by
      intro char member
      exact spellingAscii char (by simp [Name.mem_undouble.mp member])
    have spelled := (spells_of_lower_eq undoubledAscii nameAscii sameName).symm
    have absent := spelled.not_mem (by decide) (by decide) unquoted
    rw [Name.undouble_eq_self fun member => absent (Name.mem_undouble.mpr member)] at spelled
    exact .inl (around.mem_wholeWords_of_quoted ascii inName nonempty ordinary quoted spelled)

theorem mem_referencesIn
    {uri : Uri}
    {includeDeclaration : Bool}
    {location : Location}
    (nonempty : name ≠ []) :
    location ∈ referencesIn uri text name includeDeclaration ↔
      ∃ span ∈ mentions text name,
        (includeDeclaration = true ∨
          ∀ declaration ∈ Declaration.parse text, declaration.isNamed name = true →
            declaration.nameSpan ≠ span) ∧
          ⟨uri, rangeOf text span⟩ = location := by
  cases includeDeclaration with
  | true =>
      simp [referencesIn, nonempty]
  | false =>
      simp [referencesIn, nonempty, and_assoc]

/-- Two mentions of a name have different ranges. -/
theorem eq_of_rangeOf_eq
    {other : Span}
    (nonempty : name ≠ [])
    (member : span ∈ mentions text name)
    (otherMember : other ∈ mentions text name)
    (same : rangeOf text span = rangeOf text other) :
    span = other := by
  obtain ⟨starts, stops⟩ := isBoundary_of_mem_mentions nonempty member
  obtain ⟨otherStarts, otherStops⟩ := isBoundary_of_mem_mentions nonempty otherMember
  rw [rangeOf, rangeOf, Range.mk.injEq] at same
  cases span
  cases other
  rw [Span.mk.injEq]
  exact ⟨positionOf_injective starts otherStarts same.1,
    positionOf_injective stops otherStops same.2⟩

end Mentions

/--
The references to a name in an ASCII document are its quoted occurrences and the
plain ones outside them, in order and without overlap. Without the declarations,
exactly the declared names with the same lower case are missing.
-/
theorem referencesIn_exact
    {text name : Text}
    (ascii : ∀ char ∈ text, char.toNat < 0x80)
    (nonempty : name ≠ [])
    (inName : ∀ char ∈ name, isNameChar char = true)
    (ordinary : Keyword.contains name = false)
    (uri : Uri) :
    (∃ spans,
      referencesIn uri text name true = spans.map (fun span => ⟨uri, rangeOf text span⟩) ∧
        Separate spans ∧ Range.Successive (spans.map (rangeOf text)) ∧
          (∀ span,
            span ∈ spans ↔
              span ∈ wholeWords text (Name.quote name) ∨
                span ∈ wholeWords text name ∧
                  ∀ quoted ∈ wholeWords text (Name.quote name), span.within quoted = false) ∧
            (∀ span ∈ spans, OccursAt text (Name.quote name) span ∨ OccursAt text name span) ∧
              ∀ span, OccursAt text (Name.quote name) span ∨ OccursAt text name span →
                ∃ mention ∈ spans, mention.start ≤ span.start ∧ span.start < mention.stop) ∧
      ∀ location,
        (location ∈ referencesIn uri text name true ∧
            location ∉ referencesIn uri text name false) ↔
          ∃ declaration ∈ Declaration.parse text,
            lower declaration.name = lower name ∧
              location = ⟨uri, rangeOf text declaration.nameSpan⟩ := by
  have unquoted : '"' ∉ name := fun member => (isNameChar_visible (inName _ member)).2 rfl
  have separate : Separate (mentions text name) := separate_mentions nonempty unquoted
  refine ⟨⟨mentions text name, by simp [referencesIn, nonempty], separate,
    separate.successive fun span => isBoundary_of_mem_mentions nonempty, fun span => mem_mentions,
    fun span => occursAt_of_mem_mentions nonempty,
    fun span => exists_mention_of_occursAt nonempty⟩, ?_⟩
  intro location
  rw [mem_referencesIn nonempty, mem_referencesIn nonempty]
  constructor
  · rintro ⟨⟨span, member, -, isLocation⟩, missing⟩
    -- A mention that is left out is the name of a declaration.
    by_contra undeclared
    refine missing ⟨span, member, .inr ?_, isLocation⟩
    rintro declaration declared named rfl
    exact undeclared ⟨declaration, declared, beq_iff_eq.mp named, isLocation.symm⟩
  · rintro ⟨declaration, declared, sameName, rfl⟩
    have named : declaration.isNamed name = true := beq_iff_eq.mpr sameName
    have member := nameSpan_mem_mentions ascii nonempty inName ordinary declared named
    refine ⟨⟨_, member, .inl rfl, rfl⟩, ?_⟩
    rintro ⟨span, otherMember, kept | kept, sameLocation⟩
    · cases kept
    · exact kept declaration declared named
        (eq_of_rangeOf_eq nonempty member otherMember (Location.mk.inj sameLocation).2.symm)

/-- A qualified name, declared plain and in quotes directly behind the anchor, and two calls. -/
private def declaredTwice : Text :=
  ("create function app.calc() as 'x';\n" ++
    "create procedure\"App.CALC\"() as 'y';\n" ++
      "select \"app.calc\"(), app.calc();").toList

private def declaredTwiceUri : Uri :=
  .ofFilePath ["a.sql".toList]

theorem referencesIn_exact_declaredTwice :
    (∃ spans,
      referencesIn declaredTwiceUri declaredTwice "app.calc".toList true =
        spans.map (fun span => ⟨declaredTwiceUri, rangeOf declaredTwice span⟩) ∧
          Separate spans ∧ ⟨79, 89⟩ ∈ spans) ∧
      ⟨declaredTwiceUri, ⟨⟨1, 16⟩, ⟨1, 26⟩⟩⟩ ∈
        referencesIn declaredTwiceUri declaredTwice "app.calc".toList true ∧
      ⟨declaredTwiceUri, ⟨⟨1, 16⟩, ⟨1, 26⟩⟩⟩ ∉
        referencesIn declaredTwiceUri declaredTwice "app.calc".toList false := by
  have ascii : declaredTwice.all (fun char => decide (char.toNat < 0x80)) = true := by
    decide +kernel
  have inName : "app.calc".toList.all isNameChar = true := by
    decide
  have declared :
      ((Declaration.parse declaredTwice).any fun declaration =>
        lower declaration.name == lower "app.calc".toList &&
          rangeOf declaredTwice declaration.nameSpan == ⟨⟨1, 16⟩, ⟨1, 26⟩⟩) = true := by
    decide +kernel
  obtain ⟨⟨spans, listed, separate, -, exactly, -⟩, missing⟩ :=
    referencesIn_exact
      (fun char member => of_decide_eq_true (List.all_eq_true.mp ascii char member))
      (by decide : "app.calc".toList ≠ []) (List.all_eq_true.mp inName) (by decide +kernel)
      declaredTwiceUri
  refine ⟨⟨spans, listed, separate, (exactly _).mpr (.inl (by decide +kernel))⟩,
    (missing _).mpr ?_⟩
  obtain ⟨declaration, isDeclared, same⟩ := List.any_eq_true.mp declared
  rw [Bool.and_eq_true, beq_iff_eq, beq_iff_eq] at same
  exact ⟨declaration, isDeclared, same.1, by rw [same.2]⟩

end Navigation

end RoutineServer
