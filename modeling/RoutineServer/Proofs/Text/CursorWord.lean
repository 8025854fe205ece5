import RoutineServer.Proofs.Text.WordSearch

namespace RoutineServer

/-!
# The word under a cursor as an occurrence

An unquoted word under a cursor is a run of word characters that reaches as far
as it can on both sides. In a text of ASCII characters no occurrence of the word
can overlap it, because every occurrence consists of word characters, so the
search for the word finds it at its place.
-/

namespace Text

/-- A word of a text that no word character continues on either side. -/
structure IsRun (front word back : Text) : Prop where
  nonempty : word ≠ []
  inside : ∀ char ∈ word, isCursorWordChar char = true
  before : front.getLast?.any isCursorWordChar = false
  after : back.head?.any isCursorWordChar = false

/-- Every unquoted word that the search finds is a run as long as it can be. -/
theorem exists_run_of_mem_findMatches
    {line word : Text}
    {span : Span}
    (member : (span, word) ∈ findMatches cursorWordAt? line)
    (unquoted : word.head? ≠ some '"') :
    ∃ earlier later,
      line = earlier ++ (word ++ later) ∧ IsRun earlier word later ∧
        span = ⟨byteLength earlier, byteLength earlier + byteLength word⟩ := by
  obtain ⟨earlier, rest, length, rfl, found, place⟩ := exists_of_mem_findMatches member
  obtain ⟨-, later, rfl, rfl, -⟩ := exists_of_cursorWordAt? found
  rw [List.take_left] at place
  simp only at place
  rw [place] at member
  cases mem_findMatches_iff.mp member with
  | run nonempty inside before after _ =>
      exact ⟨earlier, later, rfl, ⟨nonempty, inside, before, after⟩, place⟩
  | quoted => exact absurd rfl unquoted

/-- A line without its terminator, and the text above and behind it. -/
theorem exists_line_of_lineSpan?
    {text : Text}
    {number : Nat}
    {span : Span}
    (found : lineSpan? text number = some span) :
    ∃ above line behind,
      text = above ++ (line ++ behind) ∧ lineText text number = line ∧
        span.start = byteLength above ∧ above.count '\n' = number ∧ '\n' ∉ line ∧
          (above = [] ∨ above.getLast? = some '\n') ∧
            behind.head?.any isCursorWordChar = false := by
  have within : number < lineCount text := by
    rw [lineSpan?, Option.map_eq_some_iff] at found
    obtain ⟨line, isLine, -⟩ := found
    exact (List.getElem?_eq_some_iff.mp isLine).1
  obtain ⟨place, rfl, atStart⟩ := Place.exists_of_lt within
  rw [place.lineSpan?_eq, Option.some_inj] at found
  obtain ⟨returns, split, areReturns, -⟩ := exists_returns place.line
  have single : '\n' ∉ dropReturn place.line := by
    intro member
    apply place.newline_not_mem_line
    rw [split]
    exact List.mem_append_left _ member
  have whole :
      text = ended place.above ++ (dropReturn place.line ++ (returns ++ started place.below)) := by
    rw [← List.append_assoc (dropReturn place.line), ← split, Place.line, atStart, List.nil_append]
    simpa [atStart] using place.text_eq
  refine ⟨ended place.above, dropReturn place.line, returns ++ started place.below, whole,
    place.lineText_eq, by rw [← found], count_ended place.newline_not_mem_above, single,
    getLast?_ended place.above, ?_⟩
  cases returns with
  | nil =>
      rcases head?_started place.below with none | newline
      · simp [none]
      · rw [List.nil_append, newline]
        rfl
  | cons char more =>
      rw [areReturns char List.mem_cons_self]
      rfl

/-- The offset of a position lies on the line of the position. -/
theorem lineOf_of_offsetOf?
    {text : Text}
    {position : Position}
    {offset : Nat}
    (placed : offsetOf? text position = some offset) :
    lineOf text offset = position.line := by
  rw [offsetOf?, Option.map_eq_some_iff] at placed
  obtain ⟨span, isLine, rfl⟩ := placed
  obtain ⟨above, line, behind, whole, isText, start, number, single, -⟩ :=
    exists_line_of_lineSpan? isLine
  obtain ⟨left, right, rfl, size, -⟩ := exists_least_of_bytesToColumn position.character line
  have split : text = (above ++ left) ++ (right ++ behind) := by
    simpa using whole
  have absent : left.count '\n' = 0 :=
    List.count_eq_zero.mpr fun member => single (List.mem_append_left _ member)
  rw [isText, start, size, lineOf_eq_count, before_eq split (byteLength_append above left).symm,
    List.count_append, absent, number, Nat.add_zero]

/-- A run of a line is a run of the text. -/
theorem IsRun.of_line
    {above earlier word later behind : Text}
    (run : IsRun earlier word later)
    (begins : above = [] ∨ above.getLast? = some '\n')
    (ends : behind.head?.any isCursorWordChar = false) :
    IsRun (above ++ earlier) word (later ++ behind) where
  nonempty := run.nonempty
  inside := run.inside
  before := by
    cases earlier with
    | nil =>
        rcases begins with rfl | newline
        · rfl
        · rw [List.append_nil, newline]
          rfl
    | cons char more =>
        rw [List.getLast?_append_of_ne_nil _ (List.cons_ne_nil char more)]
        exact run.before
  after := by
    cases later with
    | nil => exact ends
    | cons char more => exact run.after

/--
An unquoted word under a cursor is a run of word characters on the line of the
cursor, as long as it can be.
-/
theorem exists_run_of_wordAt?
    {text : Text}
    {position : Position}
    {located : Located}
    (found : wordAt? text position = some located)
    (unquoted : located.word.head? ≠ some '"') :
    ∃ front back,
      text = front ++ (located.word ++ back) ∧ IsRun front located.word back ∧
        located.span = ⟨byteLength front, byteLength front + byteLength located.word⟩ ∧
          lineOf text (byteLength front) = position.line := by
  simp only [wordAt?, Option.bind_eq_bind, Option.bind_eq_some_iff, Option.some.injEq] at found
  obtain ⟨span, isLine, offset, -, word, isFound, rfl⟩ := found
  obtain ⟨above, line, behind, whole, isText, start, number, single, begins, ends⟩ :=
    exists_line_of_lineSpan? isLine
  rw [isText] at isFound
  obtain ⟨earlier, later, rfl, run, place⟩ :=
    exists_run_of_mem_findMatches (List.mem_of_find?_eq_some isFound) unquoted
  have split : text = (above ++ earlier) ++ (word.2 ++ (later ++ behind)) := by
    simpa using whole
  have absent : earlier.count '\n' = 0 :=
    List.count_eq_zero.mpr fun inside => single (List.mem_append_left _ inside)
  refine ⟨above ++ earlier, later ++ behind, split, run.of_line begins ends, ?_, ?_⟩
  · rw [place, Span.shift, start, byteLength_append, Nat.add_assoc]
  · rw [lineOf_eq_count, before_eq split rfl, List.count_append, absent, number, Nat.add_zero]

/-- In ASCII, letter case does not decide what a word character is. -/
theorem isCursorWordChar_of_sameFolded
    {expected char : Char}
    (expectedAscii : expected.toNat < 0x80)
    (charAscii : char.toNat < 0x80)
    (same : sameFolded expected char = true) :
    isCursorWordChar char = isCursorWordChar expected := by
  have lower : ∀ char : Char, char.toNat < 0x80 →
      isCursorWordChar char.toLower = isCursorWordChar char :=
    forall_ascii (fun char => isCursorWordChar char.toLower = isCursorWordChar char)
      (by decide +kernel)
  rw [sameFolded, beq_iff_eq, foldChar_of_ascii expectedAscii, foldChar_of_ascii charAscii] at same
  rw [← lower char charAscii, ← lower expected expectedAscii, same]

theorem not_isIdentifierChar_of_not_isCursorWordChar
    {char : Char}
    (ascii : char.toNat < 0x80)
    (outside : isCursorWordChar char = false) :
    isIdentifierChar char = false := by
  revert outside
  exact forall_ascii
    (fun char => isCursorWordChar char = false → isIdentifierChar char = false)
    (by decide +kernel) char ascii

/-- In an ASCII text, a run of word characters is one of its own occurrences. -/
theorem IsRun.mem_wholeWords
    {text front word back : Text}
    (run : IsRun front word back)
    (ascii : ∀ char ∈ text, char.toNat < 0x80)
    (whole : text = front ++ (word ++ back)) :
    ⟨byteLength front, byteLength front + byteLength word⟩ ∈ wholeWords text word := by
  have inFront : ∀ char, front.getLast? = some char →
      char.toNat < 0x80 ∧ isCursorWordChar char = false := by
    intro char last
    refine ⟨ascii char ?_, by simpa [last] using run.before⟩
    rw [whole]
    exact List.mem_append_left _ (List.mem_of_getLast? last)
  have before : front.getLast?.any isIdentifierChar = false := by
    cases last : front.getLast? with
    | none => rfl
    | some char =>
        exact not_isIdentifierChar_of_not_isCursorWordChar (inFront char last).1
          (inFront char last).2
  have after : back.head?.any isIdentifierChar = false := by
    cases back with
    | nil => rfl
    | cons char rest =>
        have member : char ∈ text := by
          rw [whole]
          simp
        exact not_isIdentifierChar_of_not_isCursorWordChar (ascii char member) run.after
  refine mem_wholeWords_of_apart run.nonempty whole (.refl word)
    (isWholeWord_iff.mpr ⟨fun _ => before, fun _ => after⟩) ?_
  -- Every occurrence consists of word characters, the one in front of the run is none.
  intro char last other spelled member
  obtain ⟨expected, isExpected, same⟩ := spelled.exists_of_mem member
  have inWord := run.inside expected isExpected
  rw [← isCursorWordChar_of_sameFolded (isCursorWordChar_ascii inWord) (inFront char last).1 same,
    (inFront char last).2] at inWord
  cases inWord

end Text

end RoutineServer
