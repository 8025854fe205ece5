import RoutineServer.Proofs.Text.Offset
import RoutineServer.Text.Utf8

namespace RoutineServer

/-!
# Texts and their bytes

The byte offsets of a text count into its UTF-8 form. A byte below 128 is a
character of its own there, and every byte of another character lies above, so
a search for ASCII characters can go by bytes. The bytes of a text read back as
the text.
-/

/-- The bytes of a character, told by its code point. -/
theorem utf8EncodeChar_eq
    (char : Char) :
    String.utf8EncodeChar char =
      if char.toNat ≤ 127 then [UInt8.ofNat char.toNat]
      else if char.toNat ≤ 2047 then
        [UInt8.ofNat (char.toNat / 64 % 32 + 192), UInt8.ofNat (char.toNat % 64 + 128)]
      else if char.toNat ≤ 65535 then
        [UInt8.ofNat (char.toNat / 4096 % 16 + 224), UInt8.ofNat (char.toNat / 64 % 64 + 128),
          UInt8.ofNat (char.toNat % 64 + 128)]
      else
        [UInt8.ofNat (char.toNat / 262144 % 8 + 240), UInt8.ofNat (char.toNat / 4096 % 64 + 128),
          UInt8.ofNat (char.toNat / 64 % 64 + 128), UInt8.ofNat (char.toNat % 64 + 128)] :=
  rfl

/-- An ASCII character is one byte. -/
theorem utf8EncodeChar_of_ascii
    {char : Char}
    (ascii : char.toNat < 128) :
    String.utf8EncodeChar char = [char.toUInt8] := by
  have size : char.utf8Size = 1 := by
    rw [Char.utf8Size_eq_one_iff, UInt32.le_iff_toNat_le]
    exact Nat.le_of_lt_succ ascii
  exact String.utf8EncodeChar_eq_singleton size

/-- No byte of any other character is ASCII. -/
theorem le_of_mem_utf8EncodeChar
    {char : Char}
    {byte : UInt8}
    (wide : 128 ≤ char.toNat)
    (member : byte ∈ String.utf8EncodeChar char) :
    128 ≤ byte.toNat := by
  have above {value : Nat} (high : 128 ≤ value) (fits : value < 256) :
      128 ≤ (UInt8.ofNat value).toNat := by
    rw [UInt8.toNat_ofNat', Nat.mod_eq_of_lt fits]
    exact high
  rw [utf8EncodeChar_eq, if_neg (by omega)] at member
  split at member
  · simp only [List.mem_cons, List.not_mem_nil, or_false] at member
    rcases member with rfl | rfl
    · exact above (by omega) (by omega)
    · exact above (by omega) (by omega)
  · split at member
    · simp only [List.mem_cons, List.not_mem_nil, or_false] at member
      rcases member with rfl | rfl | rfl
      · exact above (by omega) (by omega)
      · exact above (by omega) (by omega)
      · exact above (by omega) (by omega)
    · simp only [List.mem_cons, List.not_mem_nil, or_false] at member
      rcases member with rfl | rfl | rfl | rfl
      · exact above (by omega) (by omega)
      · exact above (by omega) (by omega)
      · exact above (by omega) (by omega)
      · exact above (by omega) (by omega)

/-- A byte and the character with its number. -/
theorem toNat_ofUInt8
    (byte : UInt8) :
    (Char.ofUInt8 byte).toNat = byte.toNat :=
  UInt8.toNat_toUInt32 byte

theorem ofUInt8_toUInt8
    {char : Char}
    (ascii : char.toNat < 128) :
    Char.ofUInt8 char.toUInt8 = char := by
  apply Char.toNat_inj.mp
  rw [toNat_ofUInt8]
  show char.toNat % 2 ^ 8 = char.toNat
  omega

theorem toUInt8_ofUInt8
    (byte : UInt8) :
    (Char.ofUInt8 byte).toUInt8 = byte := by
  apply UInt8.toNat_inj.mp
  show (Char.ofUInt8 byte).toNat % 2 ^ 8 = byte.toNat
  rw [toNat_ofUInt8]
  exact Nat.mod_eq_of_lt byte.toNat_lt

theorem ofUInt8_eq_iff
    {byte : UInt8}
    (char : Char)
    (ascii : char.toNat < 128) :
    Char.ofUInt8 byte = char ↔ byte = char.toUInt8 := by
  constructor
  · rintro rfl
    exact (toUInt8_ofUInt8 byte).symm
  · rintro rfl
    exact ofUInt8_toUInt8 ascii

/-- An ASCII byte is among the bytes of its own character only. -/
theorem toUInt8_mem_utf8EncodeChar_iff
    {char other : Char}
    (ascii : other.toNat < 128) :
    other.toUInt8 ∈ String.utf8EncodeChar char ↔ char = other := by
  constructor
  · intro member
    by_cases narrow : char.toNat < 128
    · rw [utf8EncodeChar_of_ascii narrow, List.mem_singleton] at member
      rw [← ofUInt8_toUInt8 narrow, ← ofUInt8_toUInt8 ascii, member]
    · have high := le_of_mem_utf8EncodeChar (Nat.le_of_not_lt narrow) member
      rw [← toNat_ofUInt8, ofUInt8_toUInt8 ascii] at high
      exact absurd ascii (Nat.not_lt.mpr high)
  · rintro rfl
    rw [utf8EncodeChar_of_ascii ascii]
    exact List.mem_singleton_self _

namespace Text

theorem length_utf8
    (text : Text) :
    (utf8 text).length = byteLength text := by
  induction text with
  | nil =>
      rfl
  | cons char rest inductionHypothesis =>
      rw [utf8] at inductionHypothesis
      rw [utf8, List.flatMap_cons, List.length_append, String.length_utf8EncodeChar,
        inductionHypothesis, byteLength_cons]

theorem utf8_append
    (left right : Text) :
    utf8 (left ++ right) = utf8 left ++ utf8 right :=
  List.flatMap_append

theorem utf8_cons
    (char : Char)
    (rest : Text) :
    utf8 (char :: rest) = String.utf8EncodeChar char ++ utf8 rest :=
  List.flatMap_cons

theorem utf8_before
    {text : Text}
    {offset : Nat}
    (boundary : isBoundary offset text = true) :
    utf8 (before offset text) = (utf8 text).take offset := by
  obtain ⟨front, back, whole, rfl⟩ := isBoundary_iff.mp boundary
  rw [before_eq whole rfl, whole, utf8_append, ← length_utf8, List.take_left]

theorem utf8_after
    {text : Text}
    {offset : Nat}
    (boundary : isBoundary offset text = true) :
    utf8 (after offset text) = (utf8 text).drop offset := by
  obtain ⟨front, back, whole, rfl⟩ := isBoundary_iff.mp boundary
  rw [after_eq whole rfl, whole, utf8_append, ← length_utf8, List.drop_left]

/-- What lies in front of the later one of two places. -/
theorem before_append_slice
    {start stop : Nat}
    (ordered : start ≤ stop)
    (text : Text) :
    before start text ++ slice ⟨start, stop⟩ text = before stop text := by
  have part : before start text = (before stop text).take (index start text) := by
    rw [before, before, List.take_take, Nat.min_eq_left (index_mono ordered text)]
  rw [part, slice, List.take_append_drop]

theorem utf8_slice
    {text : Text}
    {start stop : Nat}
    (starts : isBoundary start text = true)
    (stops : isBoundary stop text = true)
    (ordered : start ≤ stop) :
    utf8 (slice ⟨start, stop⟩ text) = ((utf8 text).take stop).drop start := by
  have size : (utf8 (before start text)).length = start := by
    rw [length_utf8]
    simpa [isBoundary] using starts
  have cut := congrArg utf8 (before_append_slice ordered text)
  rw [utf8_append, utf8_before stops] at cut
  rw [← cut]
  exact (List.drop_left' size).symm

/-- An ASCII byte is a character of the text. -/
theorem exists_of_ascii_byte
    {text : Text}
    {offset : Nat}
    {byte : UInt8}
    (ascii : byte.toNat < 128)
    (here : (utf8 text)[offset]? = some byte) :
    ∃ front back, text = front ++ Char.ofUInt8 byte :: back ∧ byteLength front = offset := by
  induction text generalizing offset with
  | nil =>
      simp [utf8] at here
  | cons char rest inductionHypothesis =>
      rw [utf8_cons] at here
      by_cases inside : offset < char.utf8Size
      · have bound : offset < (String.utf8EncodeChar char).length := by
          rwa [String.length_utf8EncodeChar]
        rw [List.getElem?_append_left bound] at here
        have narrow : char.toNat < 128 := by
          apply Nat.lt_of_not_le
          intro wide
          have high := le_of_mem_utf8EncodeChar wide (List.mem_of_getElem? here)
          omega
        rw [utf8EncodeChar_of_ascii narrow, List.getElem?_singleton] at here
        split at here
        case isTrue first =>
          rw [← Option.some.inj here, ofUInt8_toUInt8 narrow, first]
          exact ⟨[], rest, rfl, rfl⟩
        case isFalse =>
          cases here
      · have bound : (String.utf8EncodeChar char).length ≤ offset := by
          rw [String.length_utf8EncodeChar]
          omega
        rw [List.getElem?_append_right bound, String.length_utf8EncodeChar] at here
        obtain ⟨front, back, shape, place⟩ := inductionHypothesis here
        refine ⟨char :: front, back, by rw [shape]; rfl, ?_⟩
        rw [byteLength_cons, place]
        omega

theorem isBoundary_of_charAt?
    {text : Text}
    {offset : Nat}
    {char : Char}
    (found : charAt? offset text = some char) :
    isBoundary offset text = true := by
  rw [charAt?, Option.ite_none_right_eq_some] at found
  exact found.1

/-- Looking for an ASCII character, one can look at bytes. -/
theorem charAt?_eq_some_iff
    {text : Text}
    {offset : Nat}
    {char : Char}
    (ascii : char.toNat < 128) :
    charAt? offset text = some char ↔ (utf8 text)[offset]? = some char.toUInt8 := by
  constructor
  · intro found
    obtain ⟨front, back, rfl, rfl⟩ := exists_of_charAt? found
    rw [utf8_append, utf8_cons, utf8EncodeChar_of_ascii ascii,
      List.getElem?_append_right (Nat.le_of_eq (length_utf8 front)), length_utf8, Nat.sub_self]
    rfl
  · intro here
    have narrow : char.toUInt8.toNat < 128 :=
      Nat.lt_of_le_of_lt (Nat.mod_le char.toNat _) ascii
    obtain ⟨front, back, whole, place⟩ := exists_of_ascii_byte narrow here
    rw [ofUInt8_toUInt8 ascii] at whole
    exact charAt?_eq whole place.symm

section Decoding

variable {rest : List UInt8}

/-- A first byte opens a character. -/
theorem decodeFrom_opened
    {byte : Nat}
    {reading : PartialChar}
    (wide : 128 ≤ byte)
    (fits : byte < 256)
    (opens : opened? byte = some reading) :
    decodeFrom none (UInt8.ofNat byte :: rest) = decodeFrom (some reading) rest := by
  have value : byte % 256 = byte := Nat.mod_eq_of_lt fits
  simp [decodeFrom, value, Nat.not_lt.mpr wide, opens]

variable {bits missing low high payload : Nat}

/-- A byte in the middle of a character adds its six bits. -/
theorem decodeFrom_more
    (fits : payload < 64)
    (least : low ≤ payload + 128)
    (most : payload + 128 ≤ high) :
    decodeFrom (some ⟨bits, missing + 2, low, high⟩) (UInt8.ofNat (payload + 128) :: rest) =
      decodeFrom (some ⟨64 * bits + payload, missing + 1, 0x80, 0xBF⟩) rest := by
  have value : (payload + 128) % 256 = payload + 128 := by omega
  simp [decodeFrom, value, least, most]

/-- The last byte completes the character. -/
theorem decodeFrom_last
    (fits : payload < 64)
    (least : low ≤ payload + 128)
    (most : payload + 128 ≤ high) :
    decodeFrom (some ⟨bits, 1, low, high⟩) (UInt8.ofNat (payload + 128) :: rest) =
      some (Char.ofNat (64 * bits + payload)) :: decodeFrom none rest := by
  have value : (payload + 128) % 256 = payload + 128 := by omega
  simp [decodeFrom, value, least, most]

end Decoding

theorem opened?_two
    {value : Nat}
    (wide : 127 < value)
    (narrow : value ≤ 2047) :
    opened? (value / 64 + 192) = some ⟨value / 64, 1, 0x80, 0xBF⟩ := by
  simp only [opened?, Bool.and_eq_true, decide_eq_true_eq]
  rw [if_pos (by omega), Nat.add_sub_cancel]

/-- The first byte of a character of three opens it, with the range that its second byte has. -/
theorem opened?_three
    (value : Nat)
    (wide : 2047 < value)
    (narrow : value ≤ 65535)
    (scalar : value < 0xD800 ∨ 0xDFFF < value) :
    ∃ low high,
      opened? (value / 4096 + 224) = some ⟨value / 4096, 2, low, high⟩ ∧
        low ≤ value / 64 % 64 + 128 ∧ value / 64 % 64 + 128 ≤ high := by
  simp only [opened?, beq_iff_eq, Bool.and_eq_true, decide_eq_true_eq]
  rw [if_neg (by omega)]
  by_cases least : value / 4096 = 0
  · rw [if_pos (by omega), least]
    exact ⟨0xA0, 0xBF, rfl, by omega, by omega⟩
  · rw [if_neg (by omega)]
    by_cases surrogate : value / 4096 = 13
    · rw [if_pos (by omega), surrogate]
      exact ⟨0x80, 0x9F, rfl, by omega, by omega⟩
    · rw [if_neg (by omega), if_pos (by omega), Nat.add_sub_cancel]
      exact ⟨0x80, 0xBF, rfl, by omega, by omega⟩

/-- The first byte of a character of four opens it. -/
theorem opened?_four
    (value : Nat)
    (wide : 65535 < value)
    (scalar : value < 0x110000) :
    ∃ low high,
      opened? (value / 262144 + 240) = some ⟨value / 262144, 3, low, high⟩ ∧
        low ≤ value / 4096 % 64 + 128 ∧ value / 4096 % 64 + 128 ≤ high := by
  simp only [opened?, beq_iff_eq, Bool.and_eq_true, decide_eq_true_eq]
  rw [if_neg (by omega), if_neg (by omega), if_neg (by omega), if_neg (by omega)]
  by_cases least : value / 262144 = 0
  · rw [if_pos (by omega), least]
    exact ⟨0x90, 0xBF, rfl, by omega, by omega⟩
  · rw [if_neg (by omega)]
    by_cases greatest : value / 262144 = 4
    · rw [if_neg (by omega), if_pos (by omega), greatest]
      exact ⟨0x80, 0x8F, rfl, by omega, by omega⟩
    · rw [if_pos (by omega), Nat.add_sub_cancel]
      exact ⟨0x80, 0xBF, rfl, by omega, by omega⟩

/-- The bytes of a character read back as the character. -/
theorem decodeFrom_utf8EncodeChar
    (char : Char)
    (rest : List UInt8) :
    decodeFrom none (String.utf8EncodeChar char ++ rest) = some char :: decodeFrom none rest := by
  have scalar : char.toNat < 0xD800 ∨ 0xDFFF < char.toNat ∧ char.toNat < 0x110000 := char.valid
  have again := Char.ofNat_toNat char
  rw [utf8EncodeChar_eq]
  generalize char.toNat = value at scalar again
  split
  case isTrue ascii =>
    have byte : value % 256 = value := by omega
    simp [decodeFrom, byte, Nat.lt_succ_of_le ascii, again]
  case isFalse wide =>
    have last : value % 64 < 64 := by omega
    split
    case isTrue two =>
      have code : 64 * (value / 64) + value % 64 = value := by omega
      have leading : value / 64 % 32 = value / 64 := by omega
      rw [leading, List.cons_append, List.singleton_append,
        decodeFrom_opened (by omega) (by omega) (opened?_two (by omega) two),
        decodeFrom_last last (by omega) (by omega), code, again]
    case isFalse =>
      have middle : value / 64 % 64 < 64 := by omega
      split
      case isTrue three =>
        have code : 64 * (64 * (value / 4096) + value / 64 % 64) + value % 64 = value := by omega
        have leading : value / 4096 % 16 = value / 4096 := by omega
        obtain ⟨low, high, opens, least, most⟩ :=
          opened?_three value (by omega) three (by omega)
        rw [leading, List.cons_append, List.cons_append, List.singleton_append,
          decodeFrom_opened (by omega) (by omega) opens, decodeFrom_more middle least most,
          decodeFrom_last last (by omega) (by omega), code, again]
      case isFalse =>
        have second : value / 4096 % 64 < 64 := by omega
        have code :
            64 * (64 * (64 * (value / 262144) + value / 4096 % 64) + value / 64 % 64) +
              value % 64 = value := by
          omega
        have leading : value / 262144 % 8 = value / 262144 := by omega
        obtain ⟨low, high, opens, least, most⟩ :=
          opened?_four value (by omega) (by omega)
        rw [leading, List.cons_append, List.cons_append, List.cons_append, List.singleton_append,
          decodeFrom_opened (by omega) (by omega) opens, decodeFrom_more second least most,
          decodeFrom_more middle (by omega) (by omega),
          decodeFrom_last last (by omega) (by omega), code, again]

/-- The bytes of a text read back as the text. -/
theorem ofUtf8?_utf8
    (text : Text) :
    ofUtf8? (utf8 text) = some text := by
  have decoded : decodeFrom none (utf8 text) = text.map some := by
    induction text with
    | nil =>
        rfl
    | cons char rest inductionHypothesis =>
        rw [utf8_cons, decodeFrom_utf8EncodeChar, inductionHypothesis, List.map_cons]
  have all : List.mapM (fun char => pure (id char)) text = some (text.map id) := List.mapM_pure
  rw [ofUtf8?, decoded, List.mapM_map]
  simpa using all

end Text

end RoutineServer
