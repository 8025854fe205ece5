import RoutineServer.Proofs.Service.RenameRanges
import RoutineServer.Proofs.Service.RenameReach
import RoutineServer.Proofs.Service.RenameScope
import RoutineServer.Proofs.Text.CursorWord

namespace RoutineServer

/-!
# A rename covers its own word

In an ASCII text, a rename that is invoked on an unquoted word changes this
word, whatever its scope. A rename inside a routine changes no other document
and stays within the lines of the routine, which contain the cursor.
-/

namespace Text

theorem lineOf_lt_lineCount_any
    (text : Text)
    (offset : Nat) :
    lineOf text offset < lineCount text := by
  have whole := (before_append_after offset text).symm
  have within := lineOf_lt_lineCount whole rfl
  rw [lineOf_eq_count, before_eq whole rfl] at within
  rwa [lineOf_eq_count]

theorem line_positionOf
    {text front back : Text}
    {offset : Nat}
    (whole : text = front ++ back)
    (placed : offset = byteLength front) :
    (positionOf text offset).line = lineOf text offset := by
  have within : min offset (byteLength text) = offset := by
    rw [whole, placed, byteLength_append]
    exact Nat.min_eq_left (Nat.le_add_right _ _)
  rw [positionOf]
  simp only [within]

end Text

namespace Changes

/-- What has edits is among the changes. -/
theorem ne_nil_of_mem_editsOf
    {changes : Changes}
    {uri : Uri}
    {edit : TextEdit}
    (member : edit ∈ changes.editsOf uri) :
    changes ≠ [] := by
  rintro rfl
  cases member

end Changes

namespace Layout

open Text

/-- A line that a search among numbered lines answers is one of them. -/
theorem exists_of_firstLine?
    {passes : Text → Bool}
    {lines : List (Text × Nat)}
    {line : Nat}
    (found : firstLine? passes lines = some line) :
    ∃ code, (code, line) ∈ lines := by
  rw [firstLine?, Option.map_eq_some_iff] at found
  obtain ⟨⟨code, number⟩, isFound, rfl⟩ := found
  exact ⟨code, List.mem_of_find?_eq_some isFound⟩

theorem exists_of_blockEndLine?
    {depth : Int}
    {begun : Bool}
    {lines : List (Text × Nat)}
    {line : Nat}
    (found : blockEndLine? depth begun lines = some line) :
    ∃ code, (code, line) ∈ lines := by
  induction lines generalizing depth begun with
  | nil =>
      cases found
  | cons first rest inductionHypothesis =>
      obtain ⟨code, number⟩ := first
      simp only [blockEndLine?] at found
      split at found
      case isTrue =>
        cases found
        exact ⟨code, List.mem_cons_self⟩
      case isFalse =>
        obtain ⟨other, member⟩ := inductionHypothesis found
        exact ⟨other, List.mem_cons_of_mem _ member⟩

theorem lt_lineCount_of_mem_numberedLines
    {layout : Layout}
    {first last line : Nat}
    {code : Text}
    (member : (code, line) ∈ layout.numberedLines first last) :
    line < lineCount layout.text := by
  have numbered := List.mem_of_mem_take (List.mem_of_mem_drop member)
  have within := (List.mem_zipIdx' numbered).1
  rw [codeLines, List.length_zipWith] at within
  exact Nat.lt_of_lt_of_le within (Nat.min_le_right _ _)

/-- The last line of a routine exists. -/
theorem endLine_lt_lineCount
    (text : Text)
    (line : Nat) :
    (Layout.of text).endLine line < lineCount text := by
  rw [endLine]
  split
  case h_1 => exact lineOf_lt_lineCount_any text _
  case h_2 =>
    rw [endLineByKeywords]
    split
    case h_1 last found =>
      obtain ⟨code, member⟩ := exists_of_blockEndLine? found
      exact lt_lineCount_of_mem_numberedLines member
    case h_2 =>
      split
      case h_1 last found =>
        obtain ⟨code, member⟩ := exists_of_firstLine? found
        exact lt_lineCount_of_mem_numberedLines member
      case h_2 =>
        split
        case h_1 last found =>
          obtain ⟨code, member⟩ := exists_of_firstLine? found
          exact lt_lineCount_of_mem_numberedLines member
        case h_2 =>
          exact Nat.sub_one_lt_of_lt (lineOf_lt_lineCount_any text 0)

/-- The lines of the routine around a line exist and contain it. -/
theorem enclosing?_contains
    {text : Text}
    {line first last : Nat}
    (found : (Layout.of text).enclosing? line = some (first, last)) :
    first ≤ line ∧ line ≤ last ∧ last < lineCount text := by
  rw [enclosing?_eq_some_iff] at found
  obtain ⟨isFirst, rfl, within⟩ := found
  exact ⟨(declarationLine?_eq_some_iff.mp isFirst).1, within, endLine_lt_lineCount text first⟩

end Layout

namespace Rename

open Text

/-- A new name that is accepted is written, unless there is nothing to change. -/
theorem rename_eq_ok
    {source : DocumentSource}
    {uri : Uri}
    {text given written : Text}
    {position : Position}
    {located : Located}
    {offset : Nat}
    (aimed : target text position = .ok located)
    (named : Rename.newName located.word given = .ok written)
    (placed : offsetOf? text position = some offset)
    (changed :
      changes source uri text located.word written (classify (.of text) located offset) ≠ []) :
    rename source uri text position given =
      .ok ⟨classify (.of text) located offset,
        changes source uri text located.word written (classify (.of text) located offset)⟩ := by
  simp only [rename, bind, Except.bind, aimed, named, placed]
  exact if_neg (by simpa using changed)

theorem target_of_prepare
    {text : Text}
    {position : Position}
    {placeholder : Placeholder}
    (prepared : prepare text position = .ok placeholder) :
    ∃ located, target text position = .ok located ∧
      placeholder = ⟨rangeOf text located.span, located.word⟩ := by
  rw [prepare] at prepared
  cases aimed : target text position with
  | error reason =>
      rw [aimed] at prepared
      cases prepared
  | ok located =>
      rw [aimed] at prepared
      cases prepared
      exact ⟨located, rfl, rfl⟩

section

variable {text word : Text} {span : Span} {first last : Nat}

/-- An occurrence on one of the lines of a routine is renamed with it. -/
theorem mem_localEdits
    (nonempty : word ≠ [])
    (oneLine : '\r' ∉ word ∧ '\n' ∉ word)
    (member : span ∈ wholeWords text word)
    (above : first ≤ lineOf text span.start)
    (below : lineOf text span.start ≤ last)
    (lastExists : last < lineCount text)
    (written : Text) :
    ⟨rangeOf text span, written⟩ ∈ localEdits text first last word written := by
  have sameLine := (onLine_of_mem_wholeWords nonempty oneLine member).1
  have within : span.within ⟨lineStart text first, lineStop text last⟩ = true := by
    rw [within_lines_iff nonempty oneLine member lastExists, sameLine]
    exact ⟨above, below⟩
  rw [localEdits_eq (by omega) lastExists, replacements, List.mem_map]
  exact ⟨span, List.mem_filter.mpr ⟨member, within⟩, rfl⟩

/-- The range of an edit inside a routine lies on the lines of the routine. -/
theorem lines_of_mem_localEdits
    {written : Text}
    {edit : TextEdit}
    (nonempty : word ≠ [])
    (oneLine : '\r' ∉ word ∧ '\n' ∉ word)
    (firstExists : first < lineCount text)
    (lastExists : last < lineCount text)
    (member : edit ∈ localEdits text first last word written) :
    first ≤ edit.range.start.line ∧ edit.range.stop.line ≤ last := by
  rw [localEdits_eq firstExists lastExists, replacements, List.mem_map] at member
  obtain ⟨span, selected, rfl⟩ := member
  obtain ⟨found, within⟩ := List.mem_filter.mp selected
  rw [within_lines_iff nonempty oneLine found lastExists] at within
  obtain ⟨front, spelling, back, whole, -, rfl⟩ := exists_of_mem_wholeWords nonempty found
  have wholeStop : text = (front ++ spelling) ++ back := by
    simpa using whole
  have startLine := line_positionOf whole rfl
  have stopLine := line_positionOf wholeStop (byteLength_append front spelling).symm
  exact ⟨within.1.trans_eq startLine.symm, stopLine.trans_le within.2⟩

/-- The changes of a rename inside a routine are those of its own document. -/
theorem changes_routine
    {written : Text}
    {edit : TextEdit}
    (member : edit ∈ localEdits text first last word written)
    (source : DocumentSource)
    (uri : Uri)
    (context : LocalContext) :
    changes source uri text word written (.routine first last context) =
      [(uri, localEdits text first last word written)] := by
  have some : ¬ (localEdits text first last word written).isEmpty = true := by
    rw [List.isEmpty_iff]
    exact List.ne_nil_of_mem member
  rw [changes, Changes.insertSome, if_neg some]
  rfl

/-- An occurrence in the document is renamed, in a routine if it is on one of its lines. -/
theorem mem_editsOf_changes
    {scope : RenameScope}
    (nonempty : word ≠ [])
    (oneLine : '\r' ∉ word ∧ '\n' ∉ word)
    (member : span ∈ wholeWords text word)
    (inside : ∀ first last context, scope = .routine first last context →
      first ≤ lineOf text span.start ∧ lineOf text span.start ≤ last ∧ last < lineCount text)
    (source : DocumentSource)
    (uri : Uri)
    (written : Text) :
    ⟨rangeOf text span, written⟩ ∈ (changes source uri text word written scope).editsOf uri := by
  by_cases reaches : scope.isGlobal = true
  · rw [editsOf_changes reaches (uri, text) List.mem_cons_self, documentEdits, replacements,
      List.mem_map]
    exact ⟨span, member, rfl⟩
  · cases scope with
    | declaration => exact absurd rfl reaches
    | callSite => exact absurd rfl reaches
    | unscoped => exact absurd rfl reaches
    | routine first last context =>
        obtain ⟨above, below, lastExists⟩ := inside first last context rfl
        have edited := mem_localEdits nonempty oneLine member above below lastExists written
        rw [changes_routine edited source uri context]
        simpa [Changes.editsOf] using edited

end

section

variable {text : Text} {position : Position} {located : Located} {offset : Nat}

/-- In an ASCII text, the unquoted word under a cursor is one of the occurrences of its name. -/
theorem mem_wholeWords_of_wordAt?
    (ascii : ∀ char ∈ text, char.toNat < 0x80)
    (found : wordAt? text position = some located)
    (unquoted : located.word.head? ≠ some '"') :
    located.word ≠ [] ∧ located.span ∈ wholeWords text located.word ∧
      lineOf text located.span.start = position.line := by
  obtain ⟨front, back, whole, run, place, line⟩ := exists_run_of_wordAt? found unquoted
  rw [place]
  exact ⟨run.nonempty, run.mem_wholeWords ascii whole, line⟩

theorem exists_offset_of_wordAt?
    (found : wordAt? text position = some located) :
    ∃ offset, offsetOf? text position = some offset := by
  simp only [wordAt?, Option.bind_eq_bind, Option.bind_eq_some_iff] at found
  obtain ⟨_, -, offset, placed, -⟩ := found
  exact ⟨offset, placed⟩

theorem word_oneLine
    (found : wordAt? text position = some located)
    (unquoted : located.word.head? ≠ some '"') :
    '\r' ∉ located.word ∧ '\n' ∉ located.word := by
  have inside := isCursorWordChar_of_wordAt? found unquoted
  constructor
  · intro member
    exact absurd (inside _ member) (by decide)
  · intro member
    exact absurd (inside _ member) (by decide)

/-- The lines of a routine that a rename is confined to contain the cursor. -/
theorem lines_of_classify
    {first last : Nat}
    {context : LocalContext}
    (placed : offsetOf? text position = some offset)
    (scope : classify (.of text) located offset = .routine first last context) :
    first ≤ position.line ∧ position.line ≤ last ∧ last < lineCount text := by
  rcases classify_cases (.of text) located offset with
    declared | called | ⟨_, _, enclosed, isLocal⟩ | ⟨-, unscoped⟩
  · rw [declared] at scope
    cases scope
  · rw [called] at scope
    cases scope
  · rw [isLocal] at scope
    cases scope
    have onLine : lineOf (Layout.of text).text offset = position.line := lineOf_of_offsetOf? placed
    rw [onLine] at enclosed
    exact Layout.enclosing?_contains enclosed
  · rw [unscoped] at scope
    cases scope

end

/--
A rename that is invoked on an unquoted word of an ASCII text changes this word,
and inside a routine it stays on the lines of the routine, with the cursor.
-/
theorem rename_covers_word
    {source : DocumentSource}
    {uri : Uri}
    {text given written : Text}
    {position : Position}
    {placeholder : Placeholder}
    (ascii : ∀ char ∈ text, char.toNat < 0x80)
    (prepared : prepare text position = .ok placeholder)
    (unquoted : placeholder.word.head? ≠ some '"')
    (accepted : Rename.newName placeholder.word given = .ok written) :
    ∃ outcome, rename source uri text position given = .ok outcome ∧
      ⟨placeholder.range, written⟩ ∈ outcome.changes.editsOf uri ∧
      ∀ first last context, outcome.scope = .routine first last context →
        (first ≤ position.line ∧ position.line ≤ last) ∧
        ∀ change ∈ outcome.changes, change.1 = uri ∧
          ∀ edit ∈ change.2, first ≤ edit.range.start.line ∧ edit.range.stop.line ≤ last := by
  obtain ⟨located, aimed, rfl⟩ := target_of_prepare prepared
  have found := wordAt?_of_target aimed
  obtain ⟨offset, placed⟩ := exists_offset_of_wordAt? found
  obtain ⟨nonempty, occurs, line⟩ := mem_wholeWords_of_wordAt? ascii found unquoted
  have oneLine := word_oneLine found unquoted
  have inside : ∀ first last context,
      classify (.of text) located offset = .routine first last context →
        first ≤ lineOf text located.span.start ∧ lineOf text located.span.start ≤ last ∧
          last < lineCount text := by
    intro first last context scope
    rw [line]
    exact lines_of_classify placed scope
  have covered := mem_editsOf_changes nonempty oneLine occurs inside source uri written
  have changed := Changes.ne_nil_of_mem_editsOf covered
  refine ⟨_, rename_eq_ok aimed accepted placed changed, covered, ?_⟩
  intro first last context scope
  obtain ⟨above, below, lastExists⟩ := inside first last context scope
  have edited := mem_localEdits nonempty oneLine occurs above below lastExists written
  have only := changes_routine edited source uri context
  rw [← scope] at only
  rw [line] at above below
  refine ⟨⟨above, below⟩, ?_⟩
  intro change member
  rw [only, List.mem_singleton] at member
  subst member
  exact ⟨rfl, fun edit isEdit =>
    lines_of_mem_localEdits nonempty oneLine (by omega) lastExists isEdit⟩

private def tally : Text :=
  "aa;\ncreate function f(a int) as $$\nbegin aA := a.a; return A;\nend $$;".toList

private def tallyUri : Uri :=
  .ofFilePath ["a.sql".toList]

/-- The cursor touches the word at its end, behind longer words that contain it. -/
theorem rename_covers_word_tally :
    ∃ outcome, rename (.ofList []) tallyUri tally ⟨2, 25⟩ " b ".toList = .ok outcome ∧
      outcome.scope = .routine 1 3 .body ∧
      ⟨⟨⟨2, 24⟩, ⟨2, 25⟩⟩, ['b']⟩ ∈ outcome.changes.editsOf tallyUri ∧
      ∀ change ∈ outcome.changes, change.1 = tallyUri ∧
        ∀ edit ∈ change.2, 1 ≤ edit.range.start.line ∧ edit.range.stop.line ≤ 3 := by
  have prepared : prepare tally ⟨2, 25⟩ = .ok ⟨⟨⟨2, 24⟩, ⟨2, 25⟩⟩, ['A']⟩ := by
    decide +kernel
  have accepted : Rename.newName ['A'] " b ".toList = .ok ['b'] := by
    decide +kernel
  have classified :
      (rename (.ofList []) tallyUri tally ⟨2, 25⟩ " b ".toList).map (·.scope) =
        .ok (.routine 1 3 .body) := by
    decide +kernel
  have ascii : tally.all (fun char => decide (char.toNat < 0x80)) = true := by
    decide +kernel
  obtain ⟨outcome, renamed, covered, confined⟩ :=
    rename_covers_word
      (fun char member => of_decide_eq_true (List.all_eq_true.mp ascii char member))
      prepared (by decide) accepted
  rw [renamed] at classified
  have scope : outcome.scope = .routine 1 3 .body := Except.ok.inj classified
  exact ⟨outcome, renamed, scope, covered, (confined 1 3 .body scope).2⟩

end Rename

end RoutineServer
