import RoutineServer.Proofs.Routine.LineAnchor
import RoutineServer.Proofs.Routine.Placement
import RoutineServer.Service.Rename

namespace RoutineServer

/-!
# The scope of a rename

A rename inside a routine finds the lines of the routine from the line of the
cursor. The lines it finds are those of the declaration that the parser sees
around the cursor exactly if the anchor can be seen on the first line of the
declaration, and none behind the declaration on the line of the cursor.
-/

namespace Text

theorem lineOf_mono
    {first second : Nat}
    (ordered : first ≤ second)
    (text : Text) :
    lineOf text first ≤ lineOf text second := by
  have part : before first text = (before second text).take (index first text) := by
    rw [before, before, List.take_take, Nat.min_eq_left (index_mono ordered text)]
  rw [lineOf_eq_count, lineOf_eq_count, part]
  exact (List.take_sublist _ _).count_le _

end Text

namespace Declaration

/-- The line that a declaration starts on. -/
def firstLine (text : Text) (declaration : Declaration) : Nat :=
  Text.lineOf text declaration.start

/-- The line of the last byte of a declaration. -/
def lastLine (text : Text) (declaration : Declaration) : Nat :=
  Text.lineOf text (declaration.stop - 1)

theorem placed_of_mem_parse
    {text : Text}
    {declaration : Declaration}
    (declared : declaration ∈ parse text) :
    Placed text declaration := by
  rw [parse_eq_segments] at declared
  obtain ⟨segment, member, declares⟩ := List.mem_filterMap.mp declared
  exact placed_of_declaration? member declares

theorem Placed.start_lt_stop
    {text : Text}
    {declaration : Declaration}
    (placed : Placed text declaration) :
    declaration.start < declaration.stop := by
  have name := placed.start_lt_nameStart
  have opening := placed.name_le_paramsOpen
  have closing := placed.paramsOpen_lt_paramsClose
  have ending := placed.paramsClose_lt_stop
  simp only [nameSpan] at opening
  omega

theorem Placed.firstLine_le_lastLine
    {text : Text}
    {declaration : Declaration}
    (placed : Placed text declaration) :
    declaration.firstLine text ≤ declaration.lastLine text :=
  Text.lineOf_mono (Nat.le_sub_one_of_lt placed.start_lt_stop) text

/-- An anchor that starts behind the start of a declaration starts behind its end. -/
theorem Placed.stop_le_start
    {text : Text}
    {declaration : Declaration}
    {anchor : Anchor.Match}
    (placed : Placed text declaration)
    (member : anchor ∈ Anchor.allMatches (maskedText text))
    (behind : declaration.start < anchor.start) :
    declaration.stop ≤ anchor.start := by
  by_contra within
  rw [Segment.allMatches_maskedText] at member
  obtain ⟨segment, isSegment, rfl⟩ := List.mem_map.mp member
  have nothing := placed.alone segment.start behind (Nat.lt_of_not_le within)
  rw [Segment.startsAt_maskedText_iff.mpr ⟨segment, isSegment, rfl⟩] at nothing
  cases nothing

/-- No other declaration of a document shares a line with a declaration. -/
def AloneOnLines (text : Text) (declaration : Declaration) : Prop :=
  ∀ other ∈ parse text, other ≠ declaration →
    other.lastLine text < declaration.firstLine text ∨
      declaration.lastLine text < other.firstLine text

instance (text : Text) (declaration : Declaration) :
    Decidable (declaration.AloneOnLines text) :=
  inferInstanceAs
    (Decidable
      (∀ other ∈ parse text, other ≠ declaration →
        other.lastLine text < declaration.firstLine text ∨
          declaration.lastLine text < other.firstLine text))

end Declaration

namespace Layout

theorem enclosing?_eq_some_iff
    {layout : Layout}
    {line first last : Nat} :
    layout.enclosing? line = some (first, last) ↔
      layout.declarationLine? line = some first ∧ layout.endLine first = last ∧ line ≤ last := by
  simp only [enclosing?, Option.bind_eq_bind, Option.bind_eq_some_iff,
    Option.ite_none_right_eq_some, Option.some.injEq, Prod.mk.injEq]
  constructor
  · rintro ⟨found, isFound, within, rfl, rfl⟩
    exact ⟨isFound, rfl, within⟩
  · rintro ⟨isFound, rfl, within⟩
    exact ⟨first, isFound, within, rfl, rfl⟩

section

variable {text : Text} {declaration : Declaration}
  (declared : declaration ∈ Declaration.parse text)
  (alone : declaration.AloneOnLines text)

include declared alone

/-- A declaration that is alone on its lines is the one found on its first line. -/
theorem declarationOn?_firstLine :
    (Layout.of text).declarationOn? (declaration.firstLine text) = some declaration := by
  have order := (Declaration.placed_of_mem_parse declared).firstLine_le_lastLine
  cases found : (Layout.of text).declarationOn? (declaration.firstLine text) with
  | none =>
      have nothing := List.find?_eq_none.mp found declaration declared
      simp [Declaration.firstLine, of] at nothing
  | some other =>
      have member : other ∈ Declaration.parse text := List.mem_of_find?_eq_some found
      have sameLine : other.firstLine text = declaration.firstLine text := by
        simpa [of, Declaration.firstLine] using List.find?_some found
      have otherOrder := (Declaration.placed_of_mem_parse member).firstLine_le_lastLine
      by_cases isSame : other = declaration
      · rw [isSame]
      · rcases alone other member isSame with above | below
        · omega
        · omega

theorem endLine_firstLine :
    (Layout.of text).endLine (declaration.firstLine text) = declaration.lastLine text := by
  have placed := Declaration.placed_of_mem_parse declared
  have nonempty := placed.start_lt_stop
  rw [endLine, declarationOn?_firstLine declared alone]
  simp only [of, Declaration.lastLine]
  rw [Nat.max_eq_left (Nat.le_sub_one_of_lt nonempty)]

/--
The lines found around a place in a declaration are those of the declaration
exactly if an anchor can be seen on its first line, and on the line of the
place only if that is the same line.
-/
theorem enclosing?_eq_lines_iff
    {offset : Nat}
    (inside : declaration.contains offset = true) :
    (Layout.of text).enclosing? (Text.lineOf text offset) =
        some (declaration.firstLine text, declaration.lastLine text) ↔
      (∃ anchor ∈ Anchor.allMatches (maskedText text),
          anchor.isOnLine text (declaration.firstLine text) = true) ∧
        ∀ anchor ∈ Anchor.allMatches (maskedText text),
          anchor.isOnLine text (Text.lineOf text offset) = true →
            Text.lineOf text offset = declaration.firstLine text := by
  have placed := Declaration.placed_of_mem_parse declared
  obtain ⟨behind, within⟩ : declaration.start ≤ offset ∧ offset < declaration.stop := by
    simp only [Declaration.contains, Span.contains, Bool.and_eq_true, decide_eq_true_eq] at inside
    exact inside
  have above : declaration.firstLine text ≤ Text.lineOf text offset :=
    Text.lineOf_mono behind text
  have below : Text.lineOf text offset ≤ declaration.lastLine text :=
    Text.lineOf_mono (Nat.le_sub_one_of_lt within) text
  rw [enclosing?_eq_some_iff, declarationLine?_eq_some_iff, isAnchored_iff,
    endLine_firstLine declared alone]
  constructor
  · rintro ⟨⟨-, anchored, nothing⟩, -, -⟩
    refine ⟨anchored, fun anchor member onLine => ?_⟩
    by_contra different
    have free := nothing (Text.lineOf text offset) (by omega) (Nat.le_refl _)
    rw [isAnchored_iff.mpr ⟨anchor, member, onLine⟩] at free
    cases free
  · rintro ⟨anchored, onlyThere⟩
    refine ⟨⟨above, anchored, ?_⟩, rfl, below⟩
    intro line behindFirst atMost
    by_contra anchoredToo
    rw [Bool.not_eq_false, isAnchored_iff] at anchoredToo
    obtain ⟨anchor, member, onLine⟩ := anchoredToo
    have startLine : Text.lineOf text anchor.start = line := by
      simp only [Anchor.Match.isOnLine, Bool.and_eq_true, beq_iff_eq] at onLine
      exact onLine.1
    -- The anchor is behind the declaration, so that the line can only be that of the offset.
    have behindStart : declaration.start < anchor.start := by
      by_contra before
      have ordered := Text.lineOf_mono (Nat.le_of_not_lt before) text
      rw [startLine] at ordered
      exact absurd behindFirst (Nat.not_lt_of_le ordered)
    have behindStop := placed.stop_le_start member behindStart
    have lineOrder := Text.lineOf_mono (Nat.le_of_lt (Nat.lt_of_lt_of_le within behindStop)) text
    have sameLine : line = Text.lineOf text offset := by
      omega
    rw [sameLine] at onLine behindFirst
    have isFirst := onlyThere anchor member onLine
    omega

end

end Layout

namespace Rename

open Text

/-- Where a rename looks for its scope. -/
theorem classify_cases
    (layout : Layout)
    (located : Located)
    (offset : Nat) :
    classify layout located offset = .declaration ∨
      classify layout located offset = .callSite ∨
        (∃ first last,
          layout.enclosing? (lineOf layout.text offset) = some (first, last) ∧
            classify layout located offset =
              .routine first last (layout.localContext first last offset)) ∨
          (layout.enclosing? (lineOf layout.text offset) = none ∧
            classify layout located offset = .unscoped) := by
  simp only [classify]
  split
  · exact .inl rfl
  · split
    · exact .inr (.inl rfl)
    · right
      right
      cases layout.enclosing? (lineOf layout.text offset) with
      | none =>
          exact .inr ⟨rfl, rfl⟩
      | some lines =>
          exact .inl ⟨lines.1, lines.2, rfl, rfl⟩

/--
For a cursor in a declaration that is alone on its lines, a rename is neither
left without a scope nor given other lines than those of the declaration,
exactly if the word is a name or a call, or else an anchor can be seen on the
first line of the declaration and, on a later line of the cursor, none.
-/
theorem classify_agrees_iff
    {text : Text}
    {declaration : Declaration}
    {offset : Nat}
    (declared : declaration ∈ Declaration.parse text)
    (alone : declaration.AloneOnLines text)
    (inside : declaration.contains offset = true)
    (located : Located) :
    (classify (.of text) located offset ≠ .unscoped ∧
        ∀ first last context,
          classify (.of text) located offset = .routine first last context →
            first = declaration.firstLine text ∧ last = declaration.lastLine text) ↔
      classify (.of text) located offset = .declaration ∨
        classify (.of text) located offset = .callSite ∨
          (∃ anchor ∈ Anchor.allMatches (maskedText text),
              anchor.isOnLine text (declaration.firstLine text) = true) ∧
            ∀ anchor ∈ Anchor.allMatches (maskedText text),
              anchor.isOnLine text (lineOf text offset) = true →
                lineOf text offset = declaration.firstLine text := by
  rw [← Layout.enclosing?_eq_lines_iff declared alone inside]
  rcases classify_cases (.of text) located offset with
    isName | isCall | ⟨first, last, enclosing, isRoutine⟩ | ⟨enclosing, isUnscoped⟩
  · simp [isName]
  · simp [isCall]
  · have enclosed : (Layout.of text).enclosing? (lineOf text offset) = some (first, last) :=
      enclosing
    rw [isRoutine, enclosed]
    simp
  · have enclosed : (Layout.of text).enclosing? (lineOf text offset) = none := enclosing
    rw [isUnscoped, enclosed]
    simp

/-- A routine behind a malformed anchor and a hidden one, with another routine above it. -/
def crowded : Text :=
  ("create procedure g() as 'x';\r\n/* create function */ create function\n" ++
    "(create or  replace\tfunction f(a int)\nas begin\n  return a;\nend;").toList

theorem classify_agrees_iff_crowded :
    wordAt? crowded ⟨4, 9⟩ = some ⟨⟨124, 125⟩, ['a']⟩ ∧
      ∃ declaration ∈ Declaration.parse crowded,
        declaration.contains 124 = true ∧
          classify (.of crowded) ⟨⟨124, 125⟩, ['a']⟩ 124 ≠ .unscoped ∧
            ∀ first last context,
              classify (.of crowded) ⟨⟨124, 125⟩, ['a']⟩ 124 = .routine first last context →
                first = declaration.firstLine crowded ∧ last = declaration.lastLine crowded := by
  obtain ⟨declaration, declared, inside, alone, seen, onlyThere⟩ :
      ∃ declaration ∈ Declaration.parse crowded,
        declaration.contains 124 = true ∧ declaration.AloneOnLines crowded ∧
          (∃ anchor ∈ Anchor.allMatches (maskedText crowded),
              anchor.isOnLine crowded (declaration.firstLine crowded) = true) ∧
            ∀ anchor ∈ Anchor.allMatches (maskedText crowded),
              anchor.isOnLine crowded (lineOf crowded 124) = true →
                lineOf crowded 124 = declaration.firstLine crowded := by
    decide +kernel
  refine ⟨by decide +kernel, declaration, declared, inside, ?_⟩
  exact (classify_agrees_iff declared alone inside _).mpr (.inr (.inr ⟨seen, onlyThere⟩))

/-- A declaration whose anchor is spread over two lines. -/
def spread : Text :=
  "create\nfunction f(a int) as a;".toList

/-- Inside a declaration whose anchor is spread over two lines a rename has no scope. -/
theorem classify_spread_eq_unscoped :
    ∃ located,
      wordAt? spread ⟨1, 21⟩ = some located ∧ offsetOf? spread ⟨1, 21⟩ = some 28 ∧
        (∃ declaration ∈ Declaration.parse spread,
          declaration.contains 28 = true ∧ declaration.AloneOnLines spread) ∧
          classify (.of spread) located 28 = .unscoped := by
  refine ⟨⟨⟨28, 29⟩, ['a']⟩, ?_, ?_, ?_, ?_⟩
  · decide +kernel
  · decide +kernel
  · decide +kernel
  · decide +kernel

end Rename

end RoutineServer
