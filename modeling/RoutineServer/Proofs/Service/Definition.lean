import RoutineServer.Proofs.Routine.NamePlace
import RoutineServer.Proofs.Service.RenameReach
import RoutineServer.Proofs.Service.Resolution
import RoutineServer.Proofs.Text.Collation
import RoutineServer.Proofs.Text.WordSearch

namespace RoutineServer

/-!
# A cursor on the name of a declaration

The parser reads a name with other characters and other rules for quotes than
the search for the word under a cursor. A cursor inside a declared name selects
the name exactly if the search can find it on its line, and then the definition
is the first declaration of the name, unless the name has blanks at its ends.
-/

namespace Declaration.Surroundings

open Text

variable {text : Text} {declaration : Declaration}

theorem spelling_ne_nil
    (around : Surroundings text declaration) :
    declaration.spelling ≠ [] := by
  intro empty
  have named := around.named
  rw [around.name_eq, empty] at named
  exact named rfl

/-- A name does not end with a carriage return. -/
theorem getLast?_spelling
    (around : Surroundings text declaration) :
    declaration.spelling.getLast? ≠ some '\r' := by
  rcases around.token.plain_or_quoted with ⟨plain, -⟩ | ⟨inside, quoted⟩
  · intro last
    have inName := plain '\r' (List.mem_of_getLast? last)
    cases inName
  · rw [quoted, ← List.cons_append, List.getLast?_concat]
    decide

/-- A name that the search can find has no quotes in its normal form. -/
theorem unquoted_of_selectable
    {left right : Text}
    (around : Surroundings text declaration)
    (selectable : Selectable left declaration.spelling right) :
    '"' ∉ declaration.name := by
  rw [around.name_eq]
  generalize declaration.spelling = spelling at selectable
  cases selectable with
  | run _ inWord =>
      have visible : ∀ char ∈ spelling, isBlank char = false ∧ char ≠ '"' :=
        fun char member => isCursorWordChar_visible (inWord char member)
      rw [Name.normalize_eq_self visible]
      exact fun member => (visible '"' member).2 rfl
  | @quoted inside _ _ absent _ =>
      rw [List.cons_append, Name.normalize_quoted, Name.undouble_eq_self absent]
      exact absent

end Declaration.Surroundings

namespace Navigation

open Text

section Lookup

variable {text name : Text} {declaration first : Declaration}

/-- The definition of a name in normal form that has no quotes is looked up without its blanks. -/
theorem definitionIn?_eq_some_iff
    {uri : Uri}
    {location : Location}
    (unquoted : '"' ∉ name) :
    definitionIn? uri text name = some location ↔
      ∃ found, (Declaration.parse text).find? (·.isNamed (trim name)) = some found ∧
        location = ⟨uri, rangeOf text found.nameSpan⟩ := by
  have trimmed : Name.normalize name = trim name := by
    apply Name.normalize_of_unquoted
    intro member
    obtain ⟨before, behind, split⟩ := exists_append_trim name
    apply unquoted
    rw [split]
    simp [member]
  rw [definitionIn?, Declaration.find?, trimmed, Option.map_eq_some_iff]
  simp only [eq_comm]

theorem lower_eq_of_find?
    {declarations : List Declaration}
    (found : declarations.find? (·.isNamed name) = some first) :
    lower first.name = lower name := by
  have named := List.find?_some found
  exact beq_iff_eq.mp named

/-- Another document answers with a place of its own. -/
theorem uri_ne_of_findSome?
    {source : DocumentSource}
    {uri : Uri}
    {location : Location}
    (found : source.findSome? uri (definitionIn? · · name) = some location) :
    location.uri ≠ uri := by
  obtain ⟨document, listed, answer⟩ := List.exists_of_findSome?_eq_some found
  obtain ⟨-, different⟩ := DocumentSource.read_of_mem_documents listed
  obtain ⟨_, -, rfl⟩ := Option.map_eq_some_iff.mp answer
  exact fun same => different (congrArg some same)

/--
With a cursor on a name without quotes, the definition is the first declaration
of the name exactly if the name has no blanks at its ends.
-/
theorem definition?_eq_first_iff
    {position : Position}
    (unquoted : '"' ∉ name)
    (selected : nameAt? text position = some name)
    (isFirst : (Declaration.parse text).find? (·.isNamed name) = some first)
    (source : DocumentSource)
    (uri : Uri) :
    definition? source uri text position = some ⟨uri, rangeOf text first.nameSpan⟩ ↔
      trim name = name := by
  rw [definition?_eq selected]
  constructor
  · intro found
    cases here : definitionIn? uri text name with
    | none =>
        rw [here, Option.none_or] at found
        have elsewhere := uri_ne_of_findSome? found
        exact absurd rfl elsewhere
    | some location =>
        rw [here, Option.some_or, Option.some.injEq] at found
        obtain ⟨other, isOther, isLocation⟩ := (definitionIn?_eq_some_iff unquoted).mp here
        -- What is found is the first declaration, and it also has the trimmed name.
        rw [isLocation, Location.mk.injEq] at found
        have same : other = first :=
          Declaration.eq_of_nameRange_eq (List.mem_of_find?_eq_some isOther)
            (List.mem_of_find?_eq_some isFirst) found.2
        have firstNamed := lower_eq_of_find? isFirst
        have otherNamed := lower_eq_of_find? isOther
        obtain ⟨before, behind, split⟩ := exists_append_trim name
        have sameLower : lower (trim name) = lower (before ++ (trim name ++ behind)) := by
          rw [← split, ← otherNamed, same, firstNamed]
        obtain ⟨rfl, rfl⟩ := eq_of_lower_eq sameLower
        rw [List.nil_append, List.append_nil] at split
        exact split.symm
  · intro trimmed
    have here : definitionIn? uri text name = some ⟨uri, rangeOf text first.nameSpan⟩ := by
      refine (definitionIn?_eq_some_iff unquoted).mpr ⟨first, ?_, rfl⟩
      rwa [trimmed]
    rw [here, Option.some_or]

theorem exists_first_declaration
    (declared : declaration ∈ Declaration.parse text) :
    ∃ first, (Declaration.parse text).find? (·.isNamed declaration.name) = some first := by
  have named : declaration.isNamed declaration.name = true := beq_self_eq_true _
  cases found : (Declaration.parse text).find? (·.isNamed declaration.name) with
  | none => exact absurd named (List.find?_eq_none.mp found declaration declared)
  | some first => exact ⟨first, rfl⟩

end Lookup

/--
A cursor inside the name of a declaration selects the name exactly if the name is
selectable on its line. The definition is then the first declaration with the
same lower case exactly if the name has no blanks at its ends.
-/
theorem declared_name_selected_iff
    {text : Text}
    {declaration : Declaration}
    {offset : Nat}
    (declared : declaration ∈ Declaration.parse text)
    (oneLine : '\n' ∉ declaration.spelling)
    (boundary : isBoundary offset text = true)
    (starts : declaration.nameSpan.start < offset)
    (stops : offset < declaration.nameSpan.stop)
    (source : DocumentSource)
    (uri : Uri) :
    ∃ number above left right behind first,
      IsLine text number above (left ++ (declaration.spelling ++ right)) behind ∧
        declaration.nameStart = byteLength (above ++ left) ∧
          (wordAt? text (positionOf text offset) =
              some ⟨declaration.nameSpan, declaration.spelling⟩ ↔
            Selectable left declaration.spelling right) ∧
            (Declaration.parse text).find? (·.isNamed declaration.name) = some first ∧
              (Selectable left declaration.spelling right →
                (definition? source uri text (positionOf text offset) =
                    some ⟨uri, rangeOf text first.nameSpan⟩ ↔
                  trim declaration.name = declaration.name)) := by
  obtain ⟨around⟩ := Declaration.exists_surroundings declared
  obtain ⟨first, isFirst⟩ := exists_first_declaration declared
  obtain ⟨above, left, right, behind, isLine, isFront, isSpan, isText⟩ :=
    exists_isLine_of_word around.whole oneLine around.spelling_ne_nil around.getLast?_spelling
  have nameStart := around.nameStart_eq
  have selected :
      wordAt? text (positionOf text offset) =
          some ⟨declaration.nameSpan, declaration.spelling⟩ ↔
        Selectable left declaration.spelling right := by
    rw [Declaration.nameSpan] at starts stops ⊢
    rw [nameStart] at starts stops ⊢
    exact wordAt?_eq_some_iff around.whole boundary starts stops oneLine isFront isSpan isText
  rw [isFront] at nameStart
  refine ⟨_, above, left, right, behind, first, isLine, nameStart, selected, isFirst, ?_⟩
  intro selectable
  have word : nameAt? text (positionOf text offset) = some declaration.name := by
    rw [nameAt?, selected.mpr selectable, around.name_eq]
    rfl
  exact definition?_eq_first_iff (around.unquoted_of_selectable selectable) word isFirst source uri

/-- A name in quotes behind other quotes on its line, declared again on the next line. -/
private def netTotal : Text :=
  ("select 'é', \"x\"; create function\"Net Total\"() as 'y';\n" ++
    "create procedure \"net total\"() as 'z';").toList

private def netTotalUri : Uri :=
  .ofFilePath ["a.sql".toList]

/-- From inside the second name the cursor leads to the first one. -/
theorem declared_name_selected_iff_netTotal :
    (∃ left right, Selectable left "\"net total\"".toList right) ∧
      definition? (.ofList []) netTotalUri netTotal (positionOf netTotal 77) =
        some ⟨netTotalUri, ⟨⟨0, 32⟩, ⟨0, 43⟩⟩⟩ := by
  have found :
      ((Declaration.parse netTotal).any fun declaration =>
        declaration.nameSpan == ⟨72, 83⟩ && declaration.spelling == "\"net total\"".toList &&
          declaration.name == "net total".toList) = true := by
    decide +kernel
  have firstRange :
      ((Declaration.parse netTotal).find? (·.isNamed "net total".toList)).map
        (fun first => rangeOf netTotal first.nameSpan) = some ⟨⟨0, 32⟩, ⟨0, 43⟩⟩ := by
    decide +kernel
  obtain ⟨declaration, declared, isName⟩ := List.any_eq_true.mp found
  rw [Bool.and_eq_true, Bool.and_eq_true, beq_iff_eq, beq_iff_eq, beq_iff_eq] at isName
  obtain ⟨⟨isSpan, isSpelling⟩, isName⟩ := isName
  obtain ⟨_, _, left, right, _, first, -, -, selected, isFirst, defined⟩ :=
    declared_name_selected_iff declared (by rw [isSpelling]; decide)
      (by decide +kernel : isBoundary 77 netTotal = true) (by rw [isSpan]; decide)
      (by rw [isSpan]; decide) (.ofList []) netTotalUri
  rw [isSpelling] at selected defined
  rw [isSpan] at selected
  rw [isName] at isFirst defined
  have selectable := selected.mp (by decide +kernel)
  rw [isFirst, Option.map_some, Option.some.injEq] at firstRange
  rw [← firstRange]
  exact ⟨⟨left, right, selectable⟩, (defined selectable).mpr (by decide +kernel)⟩

private def dollarName : Text :=
  "create function a$b() as 'x';".toList

/-- A dollar sign belongs to a declared name but to no word under a cursor. -/
theorem dollar_name_not_selected :
    ∃ declaration ∈ Declaration.parse dollarName,
      declaration.nameSpan = ⟨16, 19⟩ ∧ declaration.spelling = "a$b".toList ∧
        isBoundary 17 dollarName = true ∧
          wordAt? dollarName (positionOf dollarName 17) = some ⟨⟨16, 17⟩, "a".toList⟩ := by
  have found :
      ((Declaration.parse dollarName).any fun declaration =>
        declaration.nameSpan == ⟨16, 19⟩ && declaration.spelling == "a$b".toList) = true := by
    decide +kernel
  obtain ⟨declaration, declared, isName⟩ := List.any_eq_true.mp found
  rw [Bool.and_eq_true, beq_iff_eq, beq_iff_eq] at isName
  exact ⟨declaration, declared, isName.1, isName.2, by decide +kernel, by decide +kernel⟩

end Navigation

end RoutineServer
