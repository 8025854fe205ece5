import RoutineServer.Files.Tree
import RoutineServer.Proofs.Text.Bytes
import RoutineServer.Proofs.Uri.FileUri

namespace RoutineServer

/-!
# The files that URIs name

The URI of a file leads back to the names on the way to the file. Other URIs
lead there too: a character may be escaped that need not be, and between two
names there may be more than one slash. Written paths are the same if they have
the same names, once empty segments and dots are left out.
-/

namespace Percent

theorem hexValue?_hexDigit :
    ∀ digit < 16, hexValue? (hexDigit digit) = some digit := by
  decide

theorem decode_cons_of_ne
    {char : Char}
    (plain : char ≠ '%')
    (rest : Text) :
    decode (char :: rest) = String.utf8EncodeChar char ++ decode rest := by
  rw [decode]
  · exact fun isMark => absurd isMark plain
  · exact fun _ isMark => absurd isMark plain
  · exact fun _ _ _ isMark => absurd isMark plain

theorem decode_encodeByte
    (byte : UInt8)
    (rest : Text) :
    decode (encodeByte byte ++ rest) = byte :: decode rest := by
  have bound : byte.toNat < 256 := byte.toNat_lt
  have high := hexValue?_hexDigit (byte.toNat / 16) (by omega)
  have low := hexValue?_hexDigit (byte.toNat % 16) (by omega)
  have whole : 16 * (byte.toNat / 16) + byte.toNat % 16 = byte.toNat := by omega
  simp only [encodeByte, List.cons_append, List.nil_append, decode, high, low, whole,
    UInt8.ofNat_toNat]

theorem decode_flatMap_encodeByte
    (bytes : List UInt8)
    (rest : Text) :
    decode (bytes.flatMap encodeByte ++ rest) = bytes ++ decode rest := by
  induction bytes with
  | nil =>
      rfl
  | cons byte more inductionHypothesis =>
      rw [List.flatMap_cons, List.append_assoc, decode_encodeByte, inductionHypothesis,
        List.cons_append]

/-- What is encoded stands for its bytes, whatever follows it. -/
theorem decode_encode
    {set : Char → Bool}
    (marked : set '%' = true)
    (text rest : Text) :
    decode (encode set text ++ rest) = Text.utf8 text ++ decode rest := by
  induction text with
  | nil =>
      rfl
  | cons char more inductionHypothesis =>
      have here : encode set (char :: more) =
          (if set char then (String.utf8EncodeChar char).flatMap encodeByte else [char]) ++
            encode set more :=
        List.flatMap_cons
      rw [here, Text.utf8_cons, List.append_assoc, List.append_assoc, ← inductionHypothesis]
      split
      case isTrue =>
        exact decode_flatMap_encodeByte _ _
      case isFalse kept =>
        apply decode_cons_of_ne
        rintro rfl
        exact kept marked

end Percent

/-- The names of a written path: its segments without empty ones and dots. -/
def WrittenPath.names (path : WrittenPath) : WrittenPath :=
  path.filter fun segment => !segment.isEmpty && segment != Text.utf8 ".".toList

/-- A name that a file or a directory can have. -/
def IsFileName (name : Text) : Prop :=
  name ≠ [] ∧ name ≠ ".".toList ∧ '/' ∉ name

instance (name : Text) : Decidable (IsFileName name) :=
  inferInstanceAs (Decidable (name ≠ [] ∧ name ≠ ".".toList ∧ '/' ∉ name))

theorem Text.eq_of_utf8_eq
    {first second : Text}
    (same : utf8 first = utf8 second) :
    first = second := by
  have read := ofUtf8?_utf8 first
  rw [same, ofUtf8?_utf8, Option.some.injEq] at read
  exact read.symm

/-- A slash is a byte of a text only if it is a character of the text. -/
theorem Text.slash_not_mem_utf8
    {text : Text}
    (absent : '/' ∉ text) :
    (0x2F : UInt8) ∉ utf8 text := by
  intro member
  obtain ⟨char, isChar, inside⟩ := List.mem_flatMap.mp member
  have isSlash : char = '/' := (@toUInt8_mem_utf8EncodeChar_iff char '/' (by decide)).mp inside
  exact absent (isSlash ▸ isChar)

namespace Uri

section Splitting

variable {α : Type} {isCut : α → Bool}

theorem splitAtSeparators_append
    {piece : List α}
    (uncut : ∀ item ∈ piece, isCut item = false)
    (rest : List α) :
    splitAtSeparators isCut (piece ++ rest) =
      (piece ++ (splitAtSeparators isCut rest).1, (splitAtSeparators isCut rest).2) := by
  induction piece with
  | nil =>
      rfl
  | cons item others inductionHypothesis =>
      have later := inductionHypothesis fun other member =>
        uncut other (List.mem_cons_of_mem _ member)
      simp [splitAtSeparators, uncut item List.mem_cons_self, later]

/-- Pieces without a separator are found again behind separators. -/
theorem splitAtSeparators_flatMap
    {separator : α}
    {first : List α}
    {more : List (List α)}
    (cuts : isCut separator = true)
    (uncut : ∀ piece ∈ first :: more, ∀ item ∈ piece, isCut item = false) :
    splitAtSeparators isCut (first ++ more.flatMap (separator :: ·)) = (first, more) := by
  induction more generalizing first with
  | nil =>
      rw [splitAtSeparators_append (uncut first List.mem_cons_self)]
      simp [splitAtSeparators]
  | cons next others inductionHypothesis =>
      have later := inductionHypothesis fun piece member =>
        uncut piece (List.mem_cons_of_mem _ member)
      rw [splitAtSeparators_append (uncut first List.mem_cons_self)]
      simp [splitAtSeparators, cuts, later]

end Splitting

/-- The names on the way to the file that a URI names. -/
def names? (uri : Uri) : Option WrittenPath :=
  uri.filePath?.map WrittenPath.names

theorem decode_joinSegments
    (names : List Text) :
    Percent.decode (joinSegments (names.map (Percent.encode Percent.fileNameSet))) =
      (names.map Text.utf8).flatMap (0x2F :: ·) := by
  induction names with
  | nil =>
      rfl
  | cons name rest inductionHypothesis =>
      rw [joinSegments] at inductionHypothesis ⊢
      rw [List.map_cons, List.flatMap_cons, List.cons_append,
        Percent.decode_cons_of_ne (by decide), Percent.decode_encode (by decide),
        inductionHypothesis]
      rfl

/-- The names of a file are the segments of its written path. -/
theorem names_map_utf8
    {file : Path}
    (proper : ∀ name ∈ file, IsFileName name) :
    WrittenPath.names (file.map Text.utf8) = file.map Text.utf8 := by
  refine List.filter_eq_self.mpr fun segment member => ?_
  obtain ⟨name, isName, rfl⟩ := List.mem_map.mp member
  obtain ⟨nonempty, noDot, -⟩ := proper name isName
  have filled : Text.utf8 name ≠ [] := fun isEmpty => nonempty (Text.eq_of_utf8_eq isEmpty)
  have other : Text.utf8 name ≠ Text.utf8 ".".toList := fun isDot =>
    noDot (Text.eq_of_utf8_eq isDot)
  simpa [filled] using other

/-- The URI of a file names the file, with an empty name behind it or without. -/
theorem exists_filePath?_ofFilePath
    {file : Path}
    (proper : ∀ name ∈ file, IsFileName name) :
    ∃ ending,
      (ofFilePath file).filePath? = some (file.map Text.utf8 ++ ending) ∧
        (ending = [] ∨ ending = [[]]) := by
  cases file with
  | nil =>
      exact ⟨[[]], rfl, .inr rfl⟩
  | cons name rest =>
      have isPath :
          (ofFilePath (name :: rest)).path =
            '/' :: (Percent.encode Percent.fileNameSet name ++
              joinSegments (rest.map (Percent.encode Percent.fileNameSet))) :=
        rfl
      have isLocal : (ofFilePath (name :: rest)).authority = some .empty := rfl
      have bytes := Percent.decode_encode (by decide : Percent.fileNameSet '%' = true) name
        (joinSegments (rest.map (Percent.encode Percent.fileNameSet)))
      have uncut : ∀ piece ∈ (name :: rest).map Text.utf8, ∀ item ∈ piece,
          (item == (0x2F : UInt8)) = false := by
        intro piece member item inside
        obtain ⟨own, isOwn, rfl⟩ := List.mem_map.mp member
        refine beq_false_of_ne fun isSlash => ?_
        exact Text.slash_not_mem_utf8 (proper own isOwn).2.2 (isSlash ▸ inside)
      have pieces := @splitAtSeparators_flatMap UInt8 (· == 0x2F) 0x2F _ _ rfl uncut
      rw [decode_joinSegments] at bytes
      simp only [filePath?, isPath, isLocal, bytes, pieces, Authority.empty, List.isEmpty_nil,
        Bool.true_or, List.map_cons, Option.some.injEq]
      split
      · exact ⟨[[]], rfl, .inr rfl⟩
      · exact ⟨[], (List.append_nil _).symm, .inl rfl⟩

/-- The URI of a file leads back to the names on the way to the file. -/
theorem names?_ofFilePath
    {file : Path}
    (proper : ∀ name ∈ file, IsFileName name) :
    (ofFilePath file).names? = some (file.map Text.utf8) := by
  obtain ⟨ending, isPath, isEnding⟩ := exists_filePath?_ofFilePath proper
  have nothing : WrittenPath.names ending = [] := by
    rcases isEnding with rfl | rfl
    · rfl
    · rfl
  rw [names?, isPath, Option.map_some, WrittenPath.names, List.filter_append]
  rw [WrittenPath.names] at nothing
  rw [nothing, List.append_nil]
  exact congrArg some (names_map_utf8 proper)

end Uri

end RoutineServer
