import RoutineServer.Proofs.Routine.WrittenName
import RoutineServer.Proofs.Service.EnclosingCall

namespace RoutineServer

/-!
# Calls of declared names

A declared name is read forwards, from its first character to its last; the name
of a call is read backwards from the parenthesis. Both readings agree on plain
names, dollar signs and dots included, and on quoted names without quotes inside.
Backwards, a doubled quote is taken for the opening one: of a name with quotes
inside, only what follows the last of them is found.
-/

/-- The name a text ends in, behind a blank and a written name. -/
theorem Name.Written.exists_endsInName
    {name spelling lead : Text}
    (written : Name.Written name spelling)
    (spaced : lead.getLast?.any isBlank = true) :
    ∃ called,
      EndsInName (lead ++ spelling) called ∧
        Name.normalize called = name.rtakeWhile (· != '"') := by
  cases written with
  | plain named inName =>
      have outside : lead.getLast?.any isNameChar = false := by
        cases ends : lead.getLast? with
        | none => rfl
        | some last =>
            rw [ends, Option.any_some] at spaced
            cases inside : isNameChar last with
            | false => simp [inside]
            | true => simp [(isNameChar_visible inside).1] at spaced
      have ends := EndsInName.plain outside named inName (List.forall_mem_nil _)
      rw [List.append_nil] at ends
      have unquoted : name.rtakeWhile (· != '"') = name := by
        refine List.rtakeWhile_eq_self_iff.mpr fun char member => ?_
        exact bne_iff_ne.mpr (isNameChar_visible (inName char member)).2
      refine ⟨name, ends, ?_⟩
      rw [unquoted]
      exact Name.normalize_eq_self fun char member => isNameChar_visible (inName char member)
  | quoted _ =>
      have parts := List.rdropWhile_append_rtakeWhile (p := (· != '"')) (l := name)
      have stops := any_getLast?_rdropWhile (· != '"') name
      have unquoted : '"' ∉ name.rtakeWhile (· != '"') := by
        intro inside
        simpa using List.mem_rtakeWhile_imp inside
      generalize name.rdropWhile (· != '"') = outer at parts stops
      generalize name.rtakeWhile (· != '"') = inside at parts unquoted
      -- Either the name has no quote, or its last one is doubled in front of the inside.
      obtain ⟨front, shape⟩ :
          ∃ front, Name.quote name = front ++ '"' :: (inside ++ ['"']) := by
        rcases List.eq_nil_or_concat' outer with empty | ⟨others, last, isOuter⟩
        · rw [empty, List.nil_append] at parts
          rw [← parts]
          exact ⟨[], Name.quote_of_unquoted unquoted⟩
        · rw [isOuter, List.getLast?_concat] at stops
          have isQuote : last = '"' := by simpa using stops
          refine ⟨'"' :: Name.double others ++ ['"'], ?_⟩
          rw [← parts, isOuter, isQuote, Name.quote, Name.double_append, Name.double_append,
            Name.double_eq_self unquoted]
          simp [Name.double]
      refine ⟨'"' :: (inside ++ ['"']), ?_, ?_⟩
      · rw [shape, ← List.append_assoc]
        exact .quoted unquoted (List.forall_mem_nil _)
      · rw [Name.normalize_quoted, Name.undouble_eq_self unquoted]

namespace Call

/-- The parenthesis behind a name is the innermost open one, if its arguments are balanced. -/
theorem head?_openParens_of_written
    {name spelling lead arguments : Text}
    (written : Name.Written name spelling)
    (closed : scanEnd .code lead = .code)
    (balanced : Balanced (codeParens (byteModes (scan arguments)) (Text.utf8 arguments))) :
    (openParens 0 [] (scan (lead ++ (spelling ++ '(' :: arguments)))).head? =
      some (lead ++ spelling).length := by
  obtain ⟨glyphs, named, isSpelling, -⟩ := written.exists_glyphs ('(' :: arguments)
  have opening : scan ('(' :: arguments) = ⟨'(', .code⟩ :: scan arguments :=
    scan_cons_plain (by decide) arguments
  have starts : ∀ next ∈ (spelling ++ '(' :: arguments).head?, next ≠ '-' ∧ next ≠ '*' := by
    obtain ⟨first, rest, shape, -, notDash, notStar⟩ := written.exists_head
    rw [shape]
    rintro next ⟨⟩
    exact ⟨notDash, notStar⟩
  rw [head?_openParens_eq_some_iff, innermost_iff]
  refine ⟨scan lead ++ glyphs, scan arguments, ?_, ?_, ?_⟩
  · rw [scan_append_of_closed closed starts, named, opening, List.append_assoc]
  · rw [List.length_append, List.length_append, ← isSpelling, Glyph.length_chars, scan,
      length_scanFrom]
  · have same := Glyph.codeParens_byteModes (scan arguments)
    rw [Glyph.chars_scan] at same
    rw [← same]
    exact balanced_iff.mp balanced

/--
Behind a declared name and a parenthesis, the call is found with the number of
commas that the arguments have outside of parentheses. Its name is what follows
the last quote inside the declared name, so it is the declared name exactly if
that has no quote inside.
-/
theorem at?_declared_name
    {source lead arguments : Text}
    {declaration : Declaration}
    (declared : declaration ∈ Declaration.parse source)
    (closed : scanEnd .code lead = .code)
    (spaced : lead.getLast?.any isBlank = true)
    (balanced : Balanced (codeParens (byteModes (scan arguments)) (Text.utf8 arguments))) :
    at? (lead ++ (declaration.spelling ++ '(' :: arguments))
          (Text.byteLength (lead ++ (declaration.spelling ++ '(' :: arguments))) =
        some ⟨declaration.name.rtakeWhile (· != '"'), topLevelCommas arguments⟩ ∧
      (at? (lead ++ (declaration.spelling ++ '(' :: arguments))
            (Text.byteLength (lead ++ (declaration.spelling ++ '(' :: arguments))) =
          some ⟨declaration.name, topLevelCommas arguments⟩ ↔
        '"' ∉ declaration.name) := by
  have written := Declaration.written_name declared
  obtain ⟨called, ends, isCalled⟩ := written.exists_endsInName spaced
  have found :
      at? (lead ++ (declaration.spelling ++ '(' :: arguments))
          (Text.byteLength (lead ++ (declaration.spelling ++ '(' :: arguments))) =
        some ⟨declaration.name.rtakeWhile (· != '"'), topLevelCommas arguments⟩ := by
    have here := at?_byteLength (lead ++ (declaration.spelling ++ '(' :: arguments)) []
    have taken :
        (lead ++ (declaration.spelling ++ '(' :: arguments)).take
          (lead ++ declaration.spelling).length = lead ++ declaration.spelling := by
      rw [← List.append_assoc, List.take_left]
    have dropped :
        (lead ++ (declaration.spelling ++ '(' :: arguments)).drop
          ((lead ++ declaration.spelling).length + 1) = arguments := by
      rw [← List.append_assoc, List.drop_append]
      simp
    rw [List.append_nil, head?_openParens_of_written written closed balanced, Option.bind_some,
      taken, dropped, calledName?_eq_some_iff.mpr ends, Option.map_some, isCalled] at here
    exact here
  refine ⟨found, ?_⟩
  rw [found, Option.some.injEq, Call.mk.injEq, and_iff_left rfl, List.rtakeWhile_eq_self_iff]
  constructor
  · intro others member
    simpa using others '"' member
  · intro unquoted char member
    rw [bne_iff_ne]
    rintro rfl
    exact unquoted member

/-- A plain name with dots and dollar signs, and a quoted one. -/
private def ledger : Text :=
  ("create function book.a$1:é() as 'x';\n" ++
    "create procedure b.a$1(x int) as 'y'; create function\"Net (\"() as 'z';").toList

/-- In front of both calls a string and a comment hide parentheses. -/
theorem at?_declared_name_ledger :
    (∃ declaration ∈ Declaration.parse ledger,
      declaration.name = "b.a$1".toList ∧
        at? "select '(' -- (\n b.a$1(1, f(2, 3), ')', ".toList 42 = some ⟨declaration.name, 3⟩) ∧
      ∃ declaration ∈ Declaration.parse ledger,
        declaration.name = "Net (".toList ∧
          at? "select '(' -- (\n \"Net (\"(".toList 26 = some ⟨declaration.name, 0⟩ := by
  have closed : scanEnd .code "select '(' -- (\n ".toList = .code := by decide +kernel
  have plain :
      ((Declaration.parse ledger).any fun declaration =>
        declaration.spelling == "b.a$1".toList && declaration.name == "b.a$1".toList) = true := by
    decide +kernel
  have quoted :
      ((Declaration.parse ledger).any fun declaration =>
        declaration.spelling == "\"Net (\"".toList && declaration.name == "Net (".toList) =
          true := by
    decide +kernel
  obtain ⟨first, firstDeclared, isFirst⟩ := List.any_eq_true.mp plain
  obtain ⟨second, secondDeclared, isSecond⟩ := List.any_eq_true.mp quoted
  rw [Bool.and_eq_true, beq_iff_eq, beq_iff_eq] at isFirst isSecond
  have firstCall :=
    (at?_declared_name firstDeclared closed (by decide +kernel)
      (by decide +kernel : Balanced (codeParens
        (byteModes (scan "1, f(2, 3), ')', ".toList)) (Text.utf8 "1, f(2, 3), ')', ".toList)))).2
  have secondCall :=
    (at?_declared_name secondDeclared closed (by decide +kernel)
      (by decide +kernel : Balanced (codeParens (byteModes (scan [])) (Text.utf8 [])))).2
  rw [isFirst.1] at firstCall
  rw [isSecond.1] at secondCall
  exact
    ⟨⟨first, firstDeclared, isFirst.2, firstCall.mpr (by rw [isFirst.2]; decide)⟩,
      second, secondDeclared, isSecond.2, secondCall.mpr (by rw [isSecond.2]; decide)⟩

private def doubledQuote : Text :=
  "create function \"a\"\"b\"() as 'x';".toList

/-- Of a declared name with a quote inside, a call shows only the end. -/
theorem quoted_name_not_called :
    scanEnd .code "select ".toList = .code ∧
      Balanced (codeParens (byteModes (scan "1, 2".toList)) (Text.utf8 "1, 2".toList)) ∧
        ∃ declaration ∈ Declaration.parse doubledQuote,
          declaration.name = "a\"b".toList ∧
            at? ("select ".toList ++ (declaration.spelling ++ '(' :: "1, 2".toList)) 18 =
              some ⟨"b".toList, 1⟩ := by
  have found :
      ((Declaration.parse doubledQuote).any fun declaration =>
        declaration.spelling == "\"a\"\"b\"".toList && declaration.name == "a\"b".toList) =
          true := by
    decide +kernel
  obtain ⟨declaration, declared, isName⟩ := List.any_eq_true.mp found
  rw [Bool.and_eq_true, beq_iff_eq, beq_iff_eq] at isName
  refine ⟨by decide +kernel, by decide +kernel, declaration, declared, isName.2, ?_⟩
  rw [isName.1]
  decide +kernel

end Call

end RoutineServer
