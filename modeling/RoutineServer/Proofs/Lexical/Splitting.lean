import Mathlib.Data.List.DropRight
import RoutineServer.Proofs.Lexical.Resume
import RoutineServer.Proofs.Routine.Reading

namespace RoutineServer

/-!
# Taking a parameter list apart

The pieces of a parameter list are the texts between its top-level commas: there
is one comma fewer than pieces, and joined by commas the pieces give back the
list. A comma outside parentheses is code, so the list is scanned anew behind it,
and a piece has no top-level comma of its own, whether or not its parentheses are
balanced and its strings are closed. Neither has a piece without its blanks, so a
parameter that is split again stays whole.
-/

namespace Text

/-- A text is its trimmed form between blanks. -/
theorem exists_trim
    (text : Text) :
    ∃ front back,
      text = front ++ (trim text ++ back) ∧
        (∀ char ∈ front, isBlank char = true) ∧ ∀ char ∈ back, isBlank char = true := by
  refine ⟨text.takeWhile isBlank, (trimStart text).rtakeWhile isBlank, ?_, ?_, ?_⟩
  · have ending : trim text ++ (trimStart text).rtakeWhile isBlank = trimStart text :=
      List.rdropWhile_append_rtakeWhile
    rw [ending]
    exact List.takeWhile_append_dropWhile.symm
  · intro char member
    exact List.mem_takeWhile_imp member
  · intro char member
    exact List.mem_rtakeWhile_imp member

/-- Nothing is left of a text of blanks, and only of such. -/
theorem trim_eq_nil_iff
    {text : Text} :
    trim text = [] ↔ text.all isBlank = true := by
  rw [List.all_eq_true]
  constructor
  · intro nothing char member
    obtain ⟨front, back, whole, frontBlank, backBlank⟩ := exists_trim text
    rw [whole, nothing, List.nil_append, List.mem_append] at member
    exact member.elim (frontBlank char) (backBlank char)
  · intro blank
    have start : trimStart text = [] := List.dropWhile_eq_nil_iff.mpr blank
    rw [trim, start]
    rfl

theorem trim_trim
    (text : Text) :
    trim (trim text) = trim text := by
  have start : trimStart (trim text) = trim text := by
    refine List.dropWhile_eq_self_iff.mpr fun nonempty => ?_
    have begins : trim text <+: trimStart text := List.rdropWhile_prefix isBlank (trimStart text)
    have visible :=
      List.dropWhile_eq_self_iff.mp (List.dropWhile_idempotent isBlank text)
        (Nat.lt_of_lt_of_le nonempty begins.length_le)
    rw [begins.getElem nonempty]
    exact visible
  rw [trim, start]
  exact List.rdropWhile_idempotent isBlank (trimStart text)

end Text

/-- More glyphs have no fewer commas. -/
theorem commasFrom_le_append
    (depth : Nat)
    (first second : List Glyph) :
    commasFrom depth first ≤ commasFrom depth (first ++ second) := by
  induction first generalizing depth with
  | nil =>
      exact Nat.zero_le _
  | cons glyph rest inductionHypothesis =>
      rw [List.cons_append, commasFrom, commasFrom]
      split
      · exact Nat.succ_le_succ (inductionHypothesis depth)
      · exact inductionHypothesis (depthAfter depth glyph)

/-- Blanks in front of a text are not counted. -/
theorem topLevelCommas_blanks_append
    {blanks : Text}
    (blank : ∀ char ∈ blanks, isBlank char = true)
    (text : Text) :
    topLevelCommas (blanks ++ text) = topLevelCommas text := by
  induction blanks with
  | nil =>
      rfl
  | cons char rest inductionHypothesis =>
      have isBlankChar := blank char List.mem_cons_self
      have plain : isPlainCode char = true :=
        isPlainCode_of ⟨by decide, by decide, by decide, by decide⟩ isBlankChar
      have other (delimiter : Char) (visible : isBlank delimiter = false) :
          Glyph.isCodeChar delimiter ⟨char, .code⟩ = false := by
        simp [Glyph.isCodeChar, ne_of_holds isBlankChar visible]
      rw [List.cons_append, topLevelCommas, scan_cons_plain plain, commasFrom, depthAfter,
        other ',' (by decide), other '(' (by decide), other ')' (by decide)]
      exact inductionHypothesis fun char member => blank char (List.mem_cons_of_mem _ member)

/-- Text in front of blanks has no more commas alone. -/
theorem topLevelCommas_le_append_blanks
    {blanks : Text}
    (blank : ∀ char ∈ blanks, isBlank char = true)
    (text : Text) :
    topLevelCommas text ≤ topLevelCommas (text ++ blanks) := by
  have quiet :
      ∀ last, text.getLast? = some last →
        ∀ before : ScanState, before.step last blanks.head? = before.step last none := by
    intro last _ before
    cases blanks with
    | nil =>
        rfl
    | cons char rest =>
        have isBlankChar := blank char List.mem_cons_self
        exact before.step_of_ne last
          ⟨ne_of_holds isBlankChar (by decide), ne_of_holds isBlankChar (by decide)⟩
  rw [topLevelCommas, topLevelCommas, scan, scan, scanFrom_append .code text blanks quiet]
  exact commasFrom_le_append 0 _ _

/-- A text without top-level commas has none when trimmed. -/
theorem topLevelCommas_trim
    {text : Text}
    (uncut : topLevelCommas text = 0) :
    topLevelCommas (Text.trim text) = 0 := by
  obtain ⟨front, back, whole, frontBlank, backBlank⟩ := Text.exists_trim text
  have fewer := topLevelCommas_le_append_blanks backBlank (Text.trim text)
  rw [← topLevelCommas_blanks_append frontBlank (Text.trim text ++ back), ← whole, uncut] at fewer
  exact Nat.le_zero.mp fewer

/-- Glyphs are either one piece, or a piece, a comma and the pieces behind it. -/
theorem piecesFrom_cases
    (depth : Nat)
    (glyphs : List Glyph) :
    (commasFrom depth glyphs = 0 ∧ piecesFrom depth glyphs = (Glyph.chars glyphs, [])) ∨
      ∃ front back,
        glyphs = front ++ ⟨',', .code⟩ :: back ∧
          commasFrom depth front = 0 ∧
            commasFrom depth glyphs = commasFrom 0 back + 1 ∧
              piecesFrom depth glyphs =
                (Glyph.chars front, (piecesFrom 0 back).1 :: (piecesFrom 0 back).2) := by
  induction glyphs generalizing depth with
  | nil =>
      exact .inl ⟨rfl, rfl⟩
  | cons glyph rest inductionHypothesis =>
      by_cases cuts : (glyph.isCodeChar ',' && depth == 0) = true
      · have isComma : glyph.isCodeChar ',' = true := (Bool.and_eq_true_iff.mp cuts).1
        obtain rfl : depth = 0 := beq_iff_eq.mp (Bool.and_eq_true_iff.mp cuts).2
        obtain rfl := Glyph.isCodeChar_iff.mp isComma
        exact .inr ⟨[], rest, rfl, rfl, rfl, rfl⟩
      · simp only [commasFrom, piecesFrom, if_neg cuts]
        rcases inductionHypothesis (depthAfter depth glyph) with
          ⟨none, one⟩ | ⟨front, back, rfl, uncut, count, pieces⟩
        · exact .inl ⟨none, by rw [one]; rfl⟩
        · refine .inr ⟨glyph :: front, back, rfl, ?_, count, ?_⟩
          · rw [commasFrom, if_neg cuts, uncut]
          · rw [pieces]
            rfl

/-- A text is either one piece, or a piece, a comma and the pieces of the text behind it. -/
theorem topLevelPieces_cases
    (text : Text) :
    (topLevelCommas text = 0 ∧ topLevelPieces text = [text]) ∨
      ∃ front back,
        text = front ++ ',' :: back ∧
          topLevelCommas front = 0 ∧
            topLevelCommas text = topLevelCommas back + 1 ∧
              topLevelPieces text = front :: topLevelPieces back := by
  rcases piecesFrom_cases 0 (scan text) with
    ⟨none, one⟩ | ⟨front, back, glyphs, uncut, count, pieces⟩
  · refine .inl ⟨none, ?_⟩
    rw [topLevelPieces, one, Glyph.chars_scan]
  · have whole : text = Glyph.chars front ++ ',' :: Glyph.chars back := by
      rw [← Glyph.chars_scan text, glyphs, Glyph.chars_append]
      rfl
    have behind := (glyphs ▸ Scanned.scan text).after_code rfl
    have ahead : scan (Glyph.chars front) = front := by
      rw [whole] at glyphs
      exact scan_front glyphs (Glyph.length_chars front).symm (by decide)
    refine .inr ⟨Glyph.chars front, Glyph.chars back, whole, ?_, ?_, ?_⟩
    · rw [topLevelCommas, ahead, uncut]
    · rw [topLevelCommas, count, topLevelCommas, ← behind]
    · rw [topLevelPieces, pieces, topLevelPieces, ← behind]

/-- The pieces of a text: as many more than one as it has top-level commas, and without any. -/
structure CutAtCommas (text : Text) (front : List Text) (last : Text) : Prop where
  length_eq : front.length = topLevelCommas text
  joined : [','].intercalate (front ++ [last]) = text
  uncut : ∀ piece ∈ front ++ [last], topLevelCommas piece = 0

theorem exists_cutAtCommas
    (text : Text) :
    ∃ front last, topLevelPieces text = front ++ [last] ∧ CutAtCommas text front last := by
  induction count : topLevelCommas text generalizing text with
  | zero =>
      rcases topLevelPieces_cases text with ⟨none, one⟩ | ⟨_, _, _, _, more, _⟩
      · refine ⟨[], text, one, ?_, List.intercalate_singleton, ?_⟩
        · exact none.symm
        · simpa using none
      · rw [count] at more
        exact absurd more (Nat.succ_ne_zero _).symm
  | succ less inductionHypothesis =>
      rcases topLevelPieces_cases text with ⟨none, _⟩ | ⟨piece, back, whole, uncut, more, pieces⟩
      · rw [none] at count
        exact absurd count (Nat.succ_ne_zero _).symm
      · have fewer : topLevelCommas back = less := Nat.succ.inj (more.symm.trans count)
        obtain ⟨front, last, backPieces, cut⟩ := inductionHypothesis back fewer
        refine ⟨piece :: front, last, ?_, ?_, ?_, ?_⟩
        · rw [pieces, backPieces, List.cons_append]
        · rw [List.length_cons, cut.length_eq, more]
        · have pending : front ++ [last] ≠ [] := List.concat_ne_nil last front
          rw [List.cons_append, List.intercalate_cons_of_ne_nil pending, cut.joined, whole,
            List.append_assoc, List.singleton_append]
        · rw [List.cons_append, List.forall_mem_cons]
          exact ⟨uncut, cut.uncut⟩

/-- The parameters are the trimmed pieces, less a blank last one. -/
theorem splitParameters_eq
    {text last : Text}
    {front : List Text}
    (pieces : topLevelPieces text = front ++ [last]) :
    splitParameters text =
      front.map Text.trim ++ if last.all isBlank then [] else [Text.trim last] := by
  rw [splitParameters, pieces, List.map_append, List.map_singleton, List.getLast?_concat,
    List.dropLast_concat]
  by_cases blank : last.all isBlank = true
  · rw [if_pos blank, Text.trim_eq_nil_iff.mpr blank, List.append_nil]
    rfl
  · have visible : ¬ (some (Text.trim last) == some []) = true := by
      rw [beq_iff_eq, Option.some.injEq, Text.trim_eq_nil_iff]
      exact blank
    rw [if_neg blank, if_neg visible]

theorem exists_piece_of_mem_splitParameters
    {text parameter : Text}
    (member : parameter ∈ splitParameters text) :
    ∃ piece ∈ topLevelPieces text, Text.trim piece = parameter := by
  rw [← List.mem_map]
  rw [splitParameters] at member
  split at member
  · exact List.dropLast_subset _ member
  · exact member

/-- A trimmed text without top-level commas is one parameter. -/
theorem splitParameters_eq_singleton
    {parameter : Text}
    (uncut : topLevelCommas parameter = 0)
    (trimmed : Text.trim parameter = parameter)
    (nonempty : parameter ≠ []) :
    splitParameters parameter = [parameter] := by
  rcases topLevelPieces_cases parameter with ⟨_, one⟩ | ⟨_, _, _, _, more, _⟩
  · have visible : ¬ parameter.all isBlank = true := by
      rw [← Text.trim_eq_nil_iff, trimmed]
      exact nonempty
    have alone : topLevelPieces parameter = [] ++ [parameter] := one
    rw [splitParameters_eq alone, if_neg visible, trimmed]
    rfl
  · rw [uncut] at more
    exact absurd more (Nat.succ_ne_zero _).symm

/--
The parameters of a text are its pieces between top-level commas, trimmed and
without a blank last one, and each of them is a parameter by itself.
-/
theorem splitParameters_lossless
    (text : Text) :
    (∃ front last,
        CutAtCommas text front last ∧
          splitParameters text =
            front.map Text.trim ++ if last.all isBlank then [] else [Text.trim last]) ∧
      ∀ parameter ∈ splitParameters text, parameter ≠ [] →
        splitParameters parameter = [parameter] := by
  obtain ⟨front, last, pieces, cut⟩ := exists_cutAtCommas text
  refine ⟨⟨front, last, cut, splitParameters_eq pieces⟩, ?_⟩
  intro parameter member nonempty
  obtain ⟨piece, pieceMember, rfl⟩ := exists_piece_of_mem_splitParameters member
  rw [pieces] at pieceMember
  exact splitParameters_eq_singleton (topLevelCommas_trim (cut.uncut piece pieceMember))
    (Text.trim_trim piece) nonempty

/-- Commas in a type, a string and comments, a stray parenthesis, and two pieces that are blank. -/
def cluttered : Text :=
  "a numeric(1, 2),, b text = \x27x,y\x27 /* , */, c) int, d -- ,\n , ".toList

theorem splitParameters_lossless_cluttered :
    (splitParameters cluttered).map String.ofList =
        ["a numeric(1, 2)", "", "b text = \x27x,y\x27 /* , */", "c) int", "d -- ,"] ∧
      (∃ front last, CutAtCommas cluttered front last ∧ front.length = 5) ∧
        "c) int".toList ∈ splitParameters cluttered ∧
          splitParameters "c) int".toList = ["c) int".toList] := by
  have lossless := splitParameters_lossless cluttered
  obtain ⟨⟨front, last, cut, -⟩, stable⟩ := lossless
  have commas : topLevelCommas cluttered = 5 := by decide +kernel
  have member : "c) int".toList ∈ splitParameters cluttered := by decide +kernel
  exact
    ⟨by decide +kernel, ⟨front, last, cut, cut.length_eq.trans commas⟩, member,
      stable _ member (by decide)⟩

end RoutineServer
