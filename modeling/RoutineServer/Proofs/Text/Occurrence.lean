import RoutineServer.Proofs.Text.Spelling
import RoutineServer.Text.Word

namespace RoutineServer

/-!
# Whole-word occurrences

The search for a name takes a text apart into the occurrences it finds and the
characters it keeps. `Divided` says when a list of such pieces is what the
search makes of a text. Every text is divided, and the spans that `wholeWords`
answers are those of the pieces found.
-/

namespace Text

/-- What follows a name that stands at the start of a text as a whole word. -/
def standsAt? (name : Text) (previous : Option Char) (text : Text) : Option Text :=
  (dropFolded? name text).filter (isWholeWord name previous)

theorem standsAt?_eq_some_iff
    {name text rest : Text}
    {previous : Option Char} :
    standsAt? name previous text = some rest ↔
      ∃ spelling, text = spelling ++ rest ∧ Spells name spelling ∧
        isWholeWord name previous rest = true := by
  rw [standsAt?, Option.filter_eq_some_iff, dropFolded?_eq_some_iff]
  constructor
  · rintro ⟨⟨spelling, shape, spelled⟩, whole⟩
    exact ⟨spelling, shape, spelled, whole⟩
  · rintro ⟨spelling, shape, spelled, whole⟩
    exact ⟨⟨spelling, shape, spelled⟩, whole⟩

/-- A piece of a text that a search has gone through. -/
inductive Piece where
  /-- A character that belongs to no occurrence. -/
  | kept (char : Char)
  /-- An occurrence, as it is spelled. -/
  | found (spelling : Text)
  deriving Repr, DecidableEq

namespace Piece

def text : Piece → Text
  | .kept char => [char]
  | .found spelling => spelling

/-- The spans of the occurrences among some pieces that start at an offset. -/
def spansFrom : Nat → List Piece → List Span
  | _, [] => []
  | offset, .kept char :: rest => spansFrom (offset + char.utf8Size) rest
  | offset, .found spelling :: rest =>
      let stop := offset + byteLength spelling
      ⟨offset, stop⟩ :: spansFrom stop rest

/-- A piece with its occurrence spelled in a new way. -/
def respell (spelling : Text) : Piece → Piece
  | .kept char => .kept char
  | .found _ => .found spelling

/-- The text of some pieces with every occurrence spelled in a new way. -/
def rewritten (spelling : Text) (pieces : List Piece) : Text :=
  pieces.flatMap fun piece => (piece.respell spelling).text

@[simp] theorem rewritten_nil
    (spelling : Text) :
    rewritten spelling [] = [] := rfl

@[simp] theorem rewritten_kept
    (spelling : Text)
    (char : Char)
    (rest : List Piece) :
    rewritten spelling (.kept char :: rest) = char :: rewritten spelling rest := rfl

@[simp] theorem rewritten_found
    (spelling other : Text)
    (rest : List Piece) :
    rewritten spelling (.found other :: rest) = spelling ++ rewritten spelling rest := rfl

theorem rewritten_map_respell
    (first second : Text)
    (pieces : List Piece) :
    rewritten second (pieces.map (respell first)) = rewritten second pieces := by
  induction pieces with
  | nil =>
      rfl
  | cons piece rest inductionHypothesis =>
      cases piece with
      | kept char =>
          simp [respell, inductionHypothesis]
      | found spelling =>
          simp [respell, inductionHypothesis]

theorem length_spansFrom_respell
    (spelling : Text)
    (offset other : Nat)
    (pieces : List Piece) :
    (spansFrom offset (pieces.map (respell spelling))).length =
      (spansFrom other pieces).length := by
  induction pieces generalizing offset other with
  | nil =>
      rfl
  | cons piece rest inductionHypothesis =>
      cases piece with
      | kept char =>
          exact inductionHypothesis _ _
      | found spelling =>
          exact congrArg (· + 1) (inductionHypothesis _ _)

theorem spansFrom_map_kept
    (offset : Nat)
    (text : Text) :
    spansFrom offset (text.map .kept) = [] := by
  induction text generalizing offset with
  | nil =>
      rfl
  | cons char rest inductionHypothesis =>
      exact inductionHypothesis _

end Piece

/--
What the search for a name makes of a text behind a given character: an
occurrence is taken wherever the name stands, and a character is kept only
where it does not.
-/
inductive Divided (name : Text) : Option Char → Text → List Piece → Prop where
  | nil
      {previous : Option Char} :
      Divided name previous [] []
  | kept
      {previous : Option Char}
      {char : Char}
      {rest : Text}
      {pieces : List Piece} :
      standsAt? name previous (char :: rest) = none →
      Divided name (some char) rest pieces →
      Divided name previous (char :: rest) (.kept char :: pieces)
  | found
      {previous : Option Char}
      {spelling rest : Text}
      {pieces : List Piece} :
      Spells name spelling →
      isWholeWord name previous rest = true →
      Divided name spelling.getLast? rest pieces →
      Divided name previous (spelling ++ rest) (.found spelling :: pieces)

namespace Divided

variable {name text : Text} {previous : Option Char} {pieces : List Piece}

theorem flatMap_text
    (divided : Divided name previous text pieces) :
    pieces.flatMap Piece.text = text := by
  induction divided with
  | nil =>
      rfl
  | kept _ _ inductionHypothesis =>
      rw [List.flatMap_cons, inductionHypothesis]
      rfl
  | found _ _ _ inductionHypothesis =>
      rw [List.flatMap_cons, inductionHypothesis]
      rfl

/-- Every text can be divided. -/
theorem exists_divided
    (nonempty : name ≠ [])
    (previous : Option Char)
    (text : Text) :
    ∃ pieces, Divided name previous text pieces := by
  -- An occurrence is not empty, so that what follows it is shorter.
  obtain ⟨size, bound⟩ : ∃ size, text.length < size := ⟨_, Nat.lt_succ_self _⟩
  induction size generalizing previous text with
  | zero =>
      omega
  | succ size inductionHypothesis =>
      cases text with
      | nil =>
          exact ⟨[], .nil⟩
      | cons char rest =>
          cases stands : standsAt? name previous (char :: rest) with
          | none =>
              obtain ⟨pieces, divided⟩ :=
                inductionHypothesis (some char) rest (by simpa using bound)
              exact ⟨_, .kept stands divided⟩
          | some following =>
              obtain ⟨spelling, shape, spelled, whole⟩ := standsAt?_eq_some_iff.mp stands
              have positive : 0 < spelling.length := by
                rw [← spelled.length_eq]
                exact List.length_pos_iff.mpr nonempty
              have size := congrArg List.length shape
              rw [List.length_append] at size
              obtain ⟨pieces, divided⟩ :=
                inductionHypothesis spelling.getLast? following (by omega)
              rw [shape]
              exact ⟨_, .found spelled whole divided⟩

end Divided

/-- The search goes on behind an occurrence. -/
theorem wholeWordsFrom_skip
    (name : Text)
    (offset : Nat)
    (char : Char)
    (front back : Text) :
    wholeWordsFrom name offset (some char) front.length (front ++ back) =
      wholeWordsFrom name (offset + byteLength front) (char :: front).getLast? 0 back := by
  induction front generalizing offset char with
  | nil =>
      rfl
  | cons next rest inductionHypothesis =>
      rw [List.length_cons, List.cons_append, wholeWordsFrom, inductionHypothesis,
        byteLength_cons, List.getLast?_cons_cons, Nat.add_assoc]

/-- The spans found are those of the occurrences in the division. -/
theorem Divided.wholeWordsFrom_eq
    {name text : Text}
    {previous : Option Char}
    {pieces : List Piece}
    (nonempty : name ≠ [])
    (divided : Divided name previous text pieces)
    (offset : Nat) :
    wholeWordsFrom name offset previous 0 text = Piece.spansFrom offset pieces := by
  induction divided generalizing offset with
  | nil =>
      rfl
  | @kept previous char rest pieces stands _ inductionHypothesis =>
      have next := inductionHypothesis (offset + char.utf8Size)
      rw [standsAt?] at stands
      rw [wholeWordsFrom]
      cases dropped : dropFolded? name (char :: rest) with
      | none =>
          exact next
      | some following =>
          have part : isWholeWord name previous following = false := by
            simpa [dropped, Option.filter] using stands
          simp only [part, Bool.false_eq_true, ↓reduceIte]
          exact next
  | @found previous spelling rest pieces spelled whole _ inductionHypothesis =>
      have size := spelled.length_eq
      cases spelling with
      | nil =>
          exact absurd (List.length_eq_zero_iff.mp size) nonempty
      | cons char more =>
          have dropped : dropFolded? name (char :: (more ++ rest)) = some rest :=
            dropFolded?_eq_some_iff.mpr ⟨char :: more, rfl, spelled⟩
          have taken : (char :: (more ++ rest)).take name.length = char :: more := by
            rw [size, ← List.cons_append]
            exact List.take_left
          have skipped : name.length - 1 = more.length := by
            rw [size]
            rfl
          have later := inductionHypothesis (offset + byteLength (char :: more))
          rw [List.cons_append, wholeWordsFrom, dropped]
          simp only [whole, ↓reduceIte, taken, skipped]
          rw [wholeWordsFrom_skip, Nat.add_assoc, ← byteLength_cons, later]
          rfl

theorem Divided.wholeWords_eq
    {name text : Text}
    {pieces : List Piece}
    (nonempty : name ≠ [])
    (divided : Divided name none text pieces) :
    wholeWords text name = Piece.spansFrom 0 pieces := by
  have named : name.isEmpty = false := by
    simpa using nonempty
  rw [wholeWords, named]
  exact divided.wholeWordsFrom_eq nonempty 0

/-- A name that is not found leaves every character in its place. -/
theorem Divided.eq_map_kept
    {name text : Text}
    {previous : Option Char}
    {pieces : List Piece}
    {offset : Nat}
    (divided : Divided name previous text pieces)
    (nothing : Piece.spansFrom offset pieces = []) :
    pieces = text.map .kept := by
  induction divided generalizing offset with
  | nil =>
      rfl
  | kept _ _ inductionHypothesis =>
      rw [inductionHypothesis nothing]
      rfl
  | found =>
      cases nothing

/-- A name that is not found stands nowhere in the text. -/
theorem divided_of_wholeWords_eq_nil
    {name text : Text}
    (nonempty : name ≠ [])
    (nothing : wholeWords text name = []) :
    Divided name none text (text.map .kept) := by
  obtain ⟨pieces, divided⟩ := Divided.exists_divided nonempty none text
  rw [divided.wholeWords_eq nonempty] at nothing
  rwa [← divided.eq_map_kept nothing]

end Text

end RoutineServer
