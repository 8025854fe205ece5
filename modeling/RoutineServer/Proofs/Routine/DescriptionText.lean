import RoutineServer.Proofs.Lexical.Enclosure
import RoutineServer.Proofs.Routine.DescriptionStatement
import RoutineServer.Proofs.Routine.WrittenName
import RoutineServer.Proofs.Text.WholeWord

namespace RoutineServer

/-!
# Descriptions are read back

A statement that describes a routine is found under the declared name, and its
description is read back, exactly if nothing in it ends too early: its argument
list ends at the first closing parenthesis, so no other one may stand inside,
and its description ends at the first quote of either kind, so there may be no
double quote inside.
-/

namespace Text

variable {match? : Text → Option (Nat × α)}

/-- What matches at the start of a text is the first match. -/
theorem exists_findMatches_eq_cons
    {text : Text}
    {length : Nat}
    {value : α}
    (nonempty : text ≠ [])
    (found : match? text = some (length, value)) :
    ∃ later,
      findMatches match? text = (⟨0, byteLength (text.take length)⟩, value) :: later ∧
        (length = text.length → later = []) := by
  obtain ⟨char, rest, rfl⟩ := List.exists_cons_of_ne_nil nonempty
  refine ⟨matchesFrom match? (0 + char.utf8Size) (length - 1) rest, ?_, fun whole => ?_⟩
  · rw [findMatches, matchesFrom, found]
    simp
  · have skipped := @matchesFrom_skip _ match? (0 + char.utf8Size) rest []
    rw [List.append_nil] at skipped
    rw [whole, List.length_cons, Nat.add_sub_cancel, skipped, matchesFrom]

end Text

namespace Description

/-- An argument list, if there is one. -/
def argumentList : Option Text → Text
  | none => []
  | some inside => '(' :: (inside ++ [')'])

/-- The end of a statement, from the word in front of its description on. -/
def ending (description : Text) : Text :=
  ' ' :: ("IS".toList ++ ' ' :: '\x27' :: (description ++ ['\x27', ';']))

/-- The statement that describes a routine. -/
def write (kind : RoutineKind) (name : Text) (arguments : Option Text) (description : Text) :
    Text :=
  "COMMENT".toList ++ ' ' :: ("ON".toList ++ ' ' :: (kind.keyword ++ ' ' ::
    (name ++ (argumentList arguments ++ ending description))))

/-- The texts left behind the subject of a statement up to its description. -/
def afterSubject (text : Text) : List Text :=
  ((afterSomeBlanks text).flatMap (afterWord "is".toList)).flatMap afterSomeBlanks

/-- The texts left behind a name up to its description. -/
def afterName (text : Text) : List Text :=
  ((afterBlanks text).flatMap afterArguments).flatMap afterSubject

theorem afterBlanks_of_visible
    {text : Text}
    (visible : text.head?.any isBlank = false) :
    afterBlanks text = [text] := by
  cases text with
  | nil =>
      rfl
  | cons char rest =>
      have notBlank : isBlank char = false := visible
      simp [afterBlanks, notBlank]

/-- A single blank in front of something visible is taken. -/
theorem afterSomeBlanks_blank
    {text : Text}
    (visible : text.head?.any isBlank = false) :
    afterSomeBlanks (' ' :: text) = [text] := by
  have blank : isBlank ' ' = true := by decide
  rw [afterSomeBlanks, if_pos blank, afterBlanks_of_visible visible]

theorem afterSomeBlanks_of_visible
    {text : Text}
    (visible : text.head?.any isBlank = false) :
    afterSomeBlanks text = [] := by
  cases text with
  | nil =>
      rfl
  | cons char rest =>
      have notBlank : isBlank char = false := visible
      simp [afterSomeBlanks, notBlank]

theorem afterWord_append
    {word spelling : Text}
    (spelled : Text.Spells word spelling)
    (rest : Text) :
    afterWord word (spelling ++ rest) = [rest] := by
  have dropped : Text.dropFolded? word (spelling ++ rest) = some rest :=
    Text.dropFolded?_eq_some_iff.mpr ⟨spelling, rfl, spelled⟩
  rw [afterWord, dropped]
  rfl

/-- A word spells another one if nothing is left of it. -/
theorem spells_of_dropFolded?
    {word spelling : Text}
    (dropped : Text.dropFolded? word spelling = some []) :
    Text.Spells word spelling := by
  obtain ⟨text, rfl, spelled⟩ := Text.dropFolded?_eq_some_iff.mp dropped
  rw [List.append_nil]
  exact spelled

theorem afterKind_keyword
    (kind : RoutineKind)
    (rest : Text) :
    afterKind (kind.keyword ++ rest) = [rest] := by
  cases kind with
  | function =>
      have isFunction : Text.Spells "function".toList RoutineKind.function.keyword :=
        spells_of_dropFolded? (by decide +kernel)
      have noProcedure :
          Text.dropFolded? "procedure".toList (RoutineKind.function.keyword ++ rest) = none :=
        Anchor.dropFolded?_eq_none isFunction (by decide) rest
      rw [afterKind, afterWord_append isFunction, afterWord, noProcedure]
      rfl
  | procedure =>
      have isProcedure : Text.Spells "procedure".toList RoutineKind.procedure.keyword :=
        spells_of_dropFolded? (by decide +kernel)
      have noFunction :
          Text.dropFolded? "function".toList (RoutineKind.procedure.keyword ++ rest) = none :=
        Anchor.dropFolded?_eq_none isProcedure (by decide) rest
      rw [afterKind, afterWord_append isProcedure, afterWord, noFunction]
      rfl

/-- Up to the name, a statement is read in one way. -/
theorem afterHead_eq
    {unquoted name : Text}
    (written : Name.Written unquoted name)
    (kind : RoutineKind)
    (rest : Text) :
    afterHead name
        ("COMMENT".toList ++ ' ' :: ("ON".toList ++ ' ' :: (kind.keyword ++ ' ' ::
          (name ++ rest)))) =
      afterName rest := by
  have isComment : Text.Spells "comment".toList "COMMENT".toList :=
    spells_of_dropFolded? (by decide +kernel)
  have isOn : Text.Spells "on".toList "ON".toList :=
    spells_of_dropFolded? (by decide +kernel)
  have kindVisible : (kind.keyword ++ ' ' :: (name ++ rest)).head?.any isBlank = false := by
    cases kind with
    | function => rfl
    | procedure => rfl
  have nameVisible : (name ++ rest).head?.any isBlank = false := by
    obtain ⟨first, more, rfl, visible, -⟩ := written.exists_head
    exact visible
  have onVisible :
      ("ON".toList ++ ' ' :: (kind.keyword ++ ' ' :: (name ++ rest))).head?.any isBlank =
        false :=
    rfl
  -- An equation lemma for the head would evaluate its words; `delta` does not.
  delta afterHead afterName afterSubject
  simp only [afterWord_append isComment, afterWord_append isOn,
    afterWord_append (Text.Spells.refl name), afterKind_keyword, afterSomeBlanks_blank onVisible,
    afterSomeBlanks_blank kindVisible, afterSomeBlanks_blank nameVisible, List.flatMap_cons,
    List.flatMap_nil, List.append_nil, List.flatMap_assoc]

theorem afterSubject_ending
    (description : Text) :
    afterSubject (ending description) = ['\x27' :: (description ++ ['\x27', ';'])] := by
  have isIs : Text.Spells "is".toList "IS".toList :=
    spells_of_dropFolded? (by decide +kernel)
  have isVisible :
      ("IS".toList ++ ' ' :: '\x27' :: (description ++ ['\x27', ';'])).head?.any isBlank =
        false :=
    rfl
  have quoteVisible : ('\x27' :: (description ++ ['\x27', ';'])).head?.any isBlank = false :=
    rfl
  simp only [afterSubject, ending, afterSomeBlanks_blank isVisible, afterWord_append isIs,
    afterSomeBlanks_blank quoteVisible, List.flatMap_cons, List.flatMap_nil, List.append_nil]

theorem afterSubject_of_visible
    {text : Text}
    (visible : text.head?.any isBlank = false) :
    afterSubject text = [] := by
  simp [afterSubject, afterSomeBlanks_of_visible visible]

/-- Without an argument list, the description follows the name. -/
theorem afterName_ending
    (description : Text) :
    afterName (ending description) = ['\x27' :: (description ++ ['\x27', ';'])] := by
  have isVisible :
      ("IS".toList ++ ' ' :: '\x27' :: (description ++ ['\x27', ';'])).head?.any isBlank =
        false :=
    rfl
  have blanks :
      afterBlanks (ending description) =
        ["IS".toList ++ ' ' :: '\x27' :: (description ++ ['\x27', ';']), ending description] := by
    rw [ending, afterBlanks, if_pos (by decide), afterBlanks_of_visible isVisible]
    rfl
  have inner :
      afterArguments ("IS".toList ++ ' ' :: '\x27' :: (description ++ ['\x27', ';'])) =
        ["IS".toList ++ ' ' :: '\x27' :: (description ++ ['\x27', ';'])] := by
    have starts :
        ("IS".toList ++ ' ' :: '\x27' :: (description ++ ['\x27', ';'])).head? = some 'I' :=
      rfl
    exact afterArguments_of_head (by rw [starts]; decide)
  have outer : afterArguments (ending description) = [ending description] :=
    afterArguments_of_head (by simp [ending])
  simp only [afterName, blanks, inner, outer, afterSubject_of_visible isVisible,
    afterSubject_ending, List.flatMap_cons, List.flatMap_nil, List.append_nil, List.nil_append,
    List.cons_append]

/-- An argument list is passed up to the first closing parenthesis. -/
theorem afterName_arguments
    {inside : Text}
    (flat : ')' ∉ inside)
    (rest : Text) :
    afterName ('(' :: (inside ++ ')' :: rest)) = afterSubject rest := by
  have visible : ('(' :: (inside ++ ')' :: rest)).head?.any isBlank = false := rfl
  simp only [afterName, afterBlanks_of_visible visible, afterArguments_list flat,
    afterSubject_of_visible visible, List.flatMap_cons, List.flatMap_nil, List.append_nil]

/-- A statement whose argument list ends where it should is read in one way. -/
theorem afterHead_write
    {unquoted name : Text}
    {arguments : Option Text}
    (written : Name.Written unquoted name)
    (flat : ∀ inside ∈ arguments, ')' ∉ inside)
    (kind : RoutineKind)
    (description : Text) :
    afterHead name (write kind name arguments description) =
      ['\x27' :: (description ++ ['\x27', ';'])] := by
  refine (afterHead_eq written kind (argumentList arguments ++ ending description)).trans ?_
  cases arguments with
  | none =>
      exact afterName_ending description
  | some inside =>
      have shape :
          argumentList (some inside) ++ ending description =
            '(' :: (inside ++ ')' :: ending description) := by
        simp [argumentList]
      rw [shape, afterName_arguments (flat inside rfl), afterSubject_ending]

/-- Between the subject and the description there is no parenthesis. -/
theorem exists_of_mem_afterSubject
    {text body : Text}
    (member : body ∈ afterSubject text) :
    ∃ lead, text = lead ++ body ∧ ')' ∉ lead := by
  obtain ⟨behindWord, isBehind, inBlanks⟩ := List.mem_flatMap.mp member
  obtain ⟨fromWord, isFrom, inWord⟩ := List.mem_flatMap.mp isBehind
  obtain ⟨first, rfl, -, firstBlank⟩ := (reads_afterSomeBlanks _ _).mp isFrom
  obtain ⟨second, rfl, -, secondBlank⟩ := (reads_afterSomeBlanks _ _).mp inBlanks
  obtain ⟨spelling, rfl, spelled⟩ := (reads_afterWord _ _ _).mp inWord
  refine ⟨first ++ (spelling ++ second), by simp, fun inLead => ?_⟩
  have notBlank : isBlank ')' = false := by decide
  rw [List.mem_append, List.mem_append] at inLead
  rcases inLead with inFirst | inSpelling | inSecond
  · rw [firstBlank _ inFirst] at notBlank
    cases notBlank
  · exact spelled.not_mem (by decide) (by decide) (by decide) inSpelling
  · rw [secondBlank _ inSecond] at notBlank
    cases notBlank

theorem quoted?_of_head
    {first : Char}
    (other : isQuote first = false)
    (rest : Text) :
    quoted? (first :: rest) = none := by
  simp [quoted?, other]

/-- No description follows an argument list that ends too early. -/
theorem quoted?_eq_none
    {inside rest body : Text}
    (unquoted : ∀ char ∈ inside, isQuote char = false)
    (member : body ∈ afterSubject (inside ++ ')' :: rest)) :
    quoted? body = none := by
  obtain ⟨lead, whole, flat⟩ := exists_of_mem_afterSubject member
  rcases List.append_eq_append_iff.mp whole with ⟨more, rfl, behind⟩ | ⟨more, rfl, rfl⟩
  · cases more with
    | nil =>
        rw [← List.nil_append body, ← behind]
        exact quoted?_of_head (by decide) rest
    | cons first others =>
        obtain ⟨rfl, -⟩ := List.cons_eq_cons.mp behind
        simp at flat
  · cases more with
    | nil =>
        exact quoted?_of_head (by decide) rest
    | cons first others =>
        exact quoted?_of_head (unquoted first (by simp)) _

/-- A statement with a closing parenthesis inside its argument list has no description. -/
theorem quoted?_of_nested
    {name named inside description body : Text}
    {kind : RoutineKind}
    (written : Name.Written named name)
    (unquoted : ∀ char ∈ inside, isQuote char = false)
    (nested : ')' ∈ inside)
    (member : body ∈ afterHead name (write kind name (some inside) description)) :
    quoted? body = none := by
  obtain ⟨front, back, rfl, flat⟩ := List.eq_append_cons_of_mem nested
  have shape :
      argumentList (some (front ++ ')' :: back)) ++ ending description =
        '(' :: (front ++ ')' :: (back ++ ')' :: ending description)) := by
    simp [argumentList]
  have head :
      afterHead name (write kind name (some (front ++ ')' :: back)) description) =
        afterSubject (back ++ ')' :: ending description) := by
    refine (afterHead_eq written kind _).trans ?_
    rw [shape, afterName_arguments flat]
  rw [head] at member
  exact quoted?_eq_none (fun char inBack => unquoted char (by simp [inBack])) member

theorem isQuote_eq_false_iff
    {char : Char} :
    isQuote char = false ↔ char ≠ '\x27' ∧ char ≠ '"' := by
  simp [isQuote]

theorem exists_write_eq_cons
    (kind : RoutineKind)
    (name : Text)
    (arguments : Option Text)
    (description : Text) :
    ∃ rest, write kind name arguments description = 'C' :: rest :=
  ⟨"OMMENT".toList ++ ' ' :: ("ON".toList ++ ' ' :: (kind.keyword ++ ' ' ::
    (name ++ (argumentList arguments ++ ending description)))), rfl⟩

theorem write_ne_nil
    (kind : RoutineKind)
    (name : Text)
    (arguments : Option Text)
    (description : Text) :
    write kind name arguments description ≠ [] := by
  obtain ⟨rest, starts⟩ := exists_write_eq_cons kind name arguments description
  rw [starts]
  exact List.cons_ne_nil _ _

/-- A statement starts in code. -/
theorem isCodeAt_write
    (kind : RoutineKind)
    (name : Text)
    (arguments : Option Text)
    (description : Text) :
    isCodeAt (write kind name arguments description) 0 = true := by
  obtain ⟨rest, starts⟩ := exists_write_eq_cons kind name arguments description
  have size : 'C'.utf8Size = 1 := rfl
  rw [starts, isCodeAt, scan_cons_plain (by decide)]
  simp [byteModes, size]

section Read

variable {unquoted name : Text} {arguments : Option Text} {description : Text}

/-- A description without quotes is read as a whole. -/
theorem find?_write
    (written : Name.Written unquoted name)
    (flat : ∀ inside ∈ arguments, ')' ∉ inside)
    (plain : ∀ char ∈ description, isQuote char = false)
    (described : description ≠ [])
    (kind : RoutineKind) :
    find? (write kind name arguments description) name = some description := by
  have body : quoted? ('\x27' :: (description ++ ['\x27', ';'])) = some (description, [';']) :=
    quoted?_append (by decide) plain (by decide) [';']
  have found :
      describedAt? name (write kind name arguments description) =
        some ((write kind name arguments description).length - 1, description) := by
    rw [describedAt?, afterHead_write written flat]
    simp [body, described]
  obtain ⟨later, shape, -⟩ := Text.exists_findMatches_eq_cons (write_ne_nil _ _ _ _) found
  have named : name.isEmpty = false := by
    obtain ⟨first, rest, rfl, -⟩ := written.exists_head
    rfl
  rw [find?, named, shape]
  simp [isCodeAt_write]

/-- The statement reaches to its semicolon, and nothing else is found. -/
theorem statements_write
    (written : Name.Written unquoted name)
    (flat : ∀ inside ∈ arguments, ')' ∉ inside)
    (plain : ∀ char ∈ description, isQuote char = false)
    (kind : RoutineKind) :
    statements (write kind name arguments description) name =
      [⟨0, Text.byteLength (write kind name arguments description)⟩] := by
  have body : quoted? ('\x27' :: (description ++ ['\x27', ';'])) = some (description, [';']) :=
    quoted?_append (by decide) plain (by decide) [';']
  have ended : dropTerminator [';'] = [] := by decide
  have found :
      statementAt? name (write kind name arguments description) =
        some ((write kind name arguments description).length, ()) := by
    rw [statementAt?, afterHead_write written flat]
    simp [body, ended]
  obtain ⟨later, shape, last⟩ := Text.exists_findMatches_eq_cons (write_ne_nil _ _ _ _) found
  rw [statements, shape, last rfl, List.take_length]
  simp [isCodeAt_write]

end Read

/-- A statement that covers a whole text has a description that only blanks and a semicolon follow. -/
theorem exists_of_statements_eq
    {text name : Text}
    (nonempty : text ≠ [])
    (whole : statements text name = [⟨0, Text.byteLength text⟩]) :
    ∃ body description rest,
      body ∈ afterHead name text ∧ quoted? body = some (description, rest) ∧
        dropTerminator rest = [] := by
  have member : ⟨0, Text.byteLength text⟩ ∈ statements text name := by
    rw [whole]
    exact List.mem_singleton_self _
  obtain ⟨found, isFound, isSpan⟩ := List.mem_map.mp (List.mem_filter.mp member).1
  obtain ⟨earlier, later, length, rfl, matched, span⟩ := Text.exists_of_mem_findMatches isFound
  rw [span, Span.mk.injEq] at isSpan
  obtain ⟨atStart, atEnd⟩ := isSpan
  have first : earlier = [] := by
    by_contra other
    exact Nat.ne_of_gt (Text.byteLength_pos other) atStart
  subst first
  have reaches : later.length ≤ length := by
    by_contra short
    have behind : later.drop length ≠ [] := by
      rw [ne_eq, List.drop_eq_nil_iff]
      exact short
    have sizes := Text.byteLength_append (later.take length) (later.drop length)
    rw [List.take_append_drop] at sizes
    have size := Text.byteLength_pos behind
    rw [List.nil_append, Text.byteLength_nil] at atEnd
    omega
  obtain ⟨⟨description, rest⟩, isBody, size⟩ := Option.map_eq_some_iff.mp matched
  obtain ⟨body, inHead, quoted⟩ := List.exists_of_findSome?_eq_some isBody
  refine ⟨body, description, rest, inHead, quoted, ?_⟩
  rw [Prod.mk.injEq] at size
  have positive := List.length_pos_of_ne_nil nonempty
  have nothing : (dropTerminator rest).length = 0 := by
    simp only [List.nil_append] at positive size ⊢
    omega
  exact List.eq_nil_of_length_eq_zero nothing

/-- What is neither a blank nor a semicolon stays behind a description. -/
theorem mem_dropTerminator
    {text : Text}
    {char : Char}
    (member : char ∈ text)
    (visible : isBlank char = false)
    (other : char ≠ ';') :
    char ∈ dropTerminator text := by
  have remains : char ∈ Text.trimStart text := by
    rw [← List.takeWhile_append_dropWhile (p := isBlank) (l := text), List.mem_append] at member
    refine member.resolve_left fun inBlanks => ?_
    rw [List.mem_takeWhile_imp inBlanks] at visible
    cases visible
  unfold dropTerminator
  split
  case h_1 rest starts =>
    rw [starts] at remains
    exact (List.mem_cons.mp remains).resolve_left other
  case h_2 =>
    exact remains

/--
A statement that describes a declared routine is found as a whole, from its first
word to its semicolon, and its description is read back, exactly if its argument
list has no closing parenthesis inside and its description no double quote.
-/
theorem read_write_iff
    {source : Text}
    {declaration : Declaration}
    {arguments : Option Text}
    {description : Text}
    (declared : declaration ∈ Declaration.parse source)
    (unquoted : ∀ inside ∈ arguments, ∀ char ∈ inside, isQuote char = false)
    (described : description ≠ [])
    (single : '\x27' ∉ description)
    (kind : RoutineKind) :
    (find? (write kind declaration.spelling arguments description) declaration.spelling =
          some description ∧
        statements (write kind declaration.spelling arguments description) declaration.spelling =
          [⟨0, Text.byteLength (write kind declaration.spelling arguments description)⟩]) ↔
      (∀ inside ∈ arguments, ')' ∉ inside) ∧ '"' ∉ description := by
  have written := Declaration.written_name declared
  constructor
  · rintro ⟨-, whole⟩
    obtain ⟨body, text, rest, inHead, quoted, ended⟩ :=
      exists_of_statements_eq (write_ne_nil _ _ _ _) whole
    have flat : ∀ inside ∈ arguments, ')' ∉ inside := by
      rintro inside ⟨⟩ closing
      rw [quoted?_of_nested written (unquoted inside rfl) closing inHead] at quoted
      cases quoted
    refine ⟨flat, fun double => ?_⟩
    rw [afterHead_write written flat, List.mem_singleton] at inHead
    obtain ⟨front, back, shape, undoubled⟩ := List.eq_append_cons_of_mem double
    rw [shape, List.mem_append, not_or] at single
    have plain : ∀ char ∈ front, isQuote char = false := fun char member =>
      isQuote_eq_false_iff.mpr
        ⟨fun same => single.1 (same ▸ member), fun same => undoubled (same ▸ member)⟩
    rw [inHead, shape, List.append_assoc, List.cons_append,
      quoted?_append (by decide) plain (by decide), Option.some.injEq, Prod.mk.injEq] at quoted
    -- The quote that should have closed the description is left behind it.
    have remains : '\x27' ∈ dropTerminator rest :=
      mem_dropTerminator (by rw [← quoted.2]; simp) (by decide) (by decide)
    rw [ended] at remains
    cases remains
  · rintro ⟨flat, undoubled⟩
    have plain : ∀ char ∈ description, isQuote char = false := by
      intro char member
      exact isQuote_eq_false_iff.mpr
        ⟨fun same => single (same ▸ member), fun same => undoubled (same ▸ member)⟩
    exact ⟨find?_write written flat plain described kind, statements_write written flat plain kind⟩

private def journal : Text :=
  "create function \"Net, $1\"() as \x27x\x27; create function f(a numeric) as \x27x\x27;".toList

/-- The name is quoted, and the description has parentheses, a semicolon and the word `is`. -/
theorem read_write_iff_journal :
    ∃ declaration ∈ Declaration.parse journal,
      declaration.name = "Net, $1".toList ∧
        find? (write .function declaration.spelling (some "a int, b text".toList)
            "it is; (net)".toList) declaration.spelling = some "it is; (net)".toList ∧
          statements (write .function declaration.spelling (some "a int, b text".toList)
              "it is; (net)".toList) declaration.spelling =
            [⟨0, Text.byteLength (write .function declaration.spelling
              (some "a int, b text".toList) "it is; (net)".toList)⟩] := by
  have found :
      ((Declaration.parse journal).any fun declaration =>
        declaration.name == "Net, $1".toList) = true := by
    decide +kernel
  have plain : ("a int, b text".toList.all fun char => isQuote char == false) = true := by
    decide +kernel
  have unquoted :
      ∀ inside ∈ some "a int, b text".toList, ∀ char ∈ inside, isQuote char = false := by
    rintro inside ⟨⟩ char member
    exact beq_iff_eq.mp (List.all_eq_true.mp plain char member)
  have flat : ∀ inside ∈ some "a int, b text".toList, ')' ∉ inside := by
    rintro inside ⟨⟩
    decide +kernel
  obtain ⟨declaration, declared, named⟩ := List.any_eq_true.mp found
  exact ⟨declaration, declared, beq_iff_eq.mp named,
    (read_write_iff declared unquoted (by decide +kernel) (by decide +kernel) .function).mpr
      ⟨flat, by decide +kernel⟩⟩

/-- Nested parentheses hide a statement, and a double quote ends it too early. -/
theorem description_not_read :
    Balanced (Text.utf8 "numeric(10,2)".toList) ∧
      ∃ declaration ∈ Declaration.parse journal,
        declaration.name = "f".toList ∧
          find? (write .function declaration.spelling (some "numeric(10,2)".toList) "x".toList)
              declaration.spelling = none ∧
            statements (write .function declaration.spelling (some "numeric(10,2)".toList)
                "x".toList) declaration.spelling = [] ∧
              find? (write .function declaration.spelling none "say \"hi\"".toList)
                  declaration.spelling = some "say ".toList ∧
                statements (write .function declaration.spelling none "say \"hi\"".toList)
                  declaration.spelling = [⟨0, 31⟩] := by
  have found :
      ((Declaration.parse journal).any fun declaration =>
        declaration.name == "f".toList && declaration.spelling == "f".toList) = true := by
    decide +kernel
  obtain ⟨declaration, declared, named⟩ := List.any_eq_true.mp found
  rw [Bool.and_eq_true, beq_iff_eq, beq_iff_eq] at named
  refine ⟨by decide +kernel, declaration, declared, named.1, ?_⟩
  rw [named.2]
  decide +kernel

end Description

end RoutineServer
