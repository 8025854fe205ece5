import RoutineServer.Lexical.Mode
import RoutineServer.Proofs.Text.Bytes

namespace RoutineServer

/-!
# Scanning bytes

All delimiters are ASCII, so the modes of the bytes of a text can be found by
reading the bytes themselves, as if each were a character. This holds from any
byte on, also from one in the middle of a character: what is left over of that
character is code.
-/

namespace ScanState

/-- The mode of a character that opens nothing. -/
def mode : ScanState → Mode
  | .code => .code
  | .inString => .string
  | .inIdentifier => .identifier
  | .inLineComment => .lineComment
  | .openingBlockComment => .blockComment
  | .inBlockComment _ => .blockComment

/-- What is open behind a character that is part of no delimiter. -/
def pass : ScanState → ScanState
  | .openingBlockComment => .inBlockComment false
  | .inBlockComment _ => .inBlockComment false
  | state => state

theorem mode_pass
    (state : ScanState) :
    state.pass.mode = state.mode := by
  cases state <;> rfl

theorem pass_pass
    (state : ScanState) :
    state.pass.pass = state.pass := by
  cases state <;> rfl

/-- A character outside ASCII is part of no delimiter. -/
theorem step_of_wide
    {char : Char}
    (state : ScanState)
    (next : Option Char)
    (wide : 128 ≤ char.toNat) :
    state.step char next = (state.mode, state.pass) := by
  have other (delimiter : Char) (ascii : delimiter.toNat < 128) : (char == delimiter) = false := by
    rw [beq_eq_false_iff_ne]
    rintro rfl
    exact absurd wide (Nat.not_le.mpr ascii)
  have dash := other '-' (by decide)
  have slash := other '/' (by decide)
  have star := other '*' (by decide)
  have quote := other '\x27' (by decide)
  have doubleQuote := other '"' (by decide)
  have newline := other '\n' (by decide)
  cases state with
  | code => simp [step, mode, pass, dash, slash, quote, doubleQuote]
  | inString => simp [step, mode, pass, quote]
  | inIdentifier => simp [step, mode, pass, doubleQuote]
  | inLineComment => simp [step, mode, pass, newline]
  | openingBlockComment => rfl
  | inBlockComment afterStar => simp [step, mode, pass, slash, star]

/-- Of the next character it only matters whether it completes the opening of a comment. -/
theorem step_congr
    {next other : Option Char}
    (state : ScanState)
    (char : Char)
    (dash : next = some '-' ↔ other = some '-')
    (star : next = some '*' ↔ other = some '*') :
    state.step char next = state.step char other := by
  cases state with
  | code => simp [step, dash, star]
  | inString => rfl
  | inIdentifier => rfl
  | inLineComment => rfl
  | openingBlockComment => rfl
  | inBlockComment afterStar => rfl

end ScanState

/-- The modes of some bytes, each of them read as a character. -/
def byteScan (state : ScanState) (bytes : List UInt8) : List Mode :=
  (scanFrom state (bytes.map Char.ofUInt8)).map Glyph.mode

@[simp] theorem byteScan_nil
    (state : ScanState) :
    byteScan state [] = [] := rfl

theorem byteScan_cons
    (state : ScanState)
    (byte : UInt8)
    (rest : List UInt8) :
    byteScan state (byte :: rest) =
      (state.step (Char.ofUInt8 byte) (rest.head?.map Char.ofUInt8)).1 ::
        byteScan (state.step (Char.ofUInt8 byte) (rest.head?.map Char.ofUInt8)).2 rest := by
  simp [byteScan, scanFrom]

/-- Bytes outside ASCII are read alike, however many there are. -/
theorem byteScan_append_of_wide
    {bytes : List UInt8}
    (state : ScanState)
    (rest : List UInt8)
    (nonempty : bytes ≠ [])
    (wide : ∀ byte ∈ bytes, 128 ≤ byte.toNat) :
    byteScan state (bytes ++ rest) =
      List.replicate bytes.length state.mode ++ byteScan state.pass rest := by
  induction bytes generalizing state with
  | nil =>
      exact absurd rfl nonempty
  | cons byte more inductionHypothesis =>
      have high : 128 ≤ (Char.ofUInt8 byte).toNat := by
        rw [toNat_ofUInt8]
        exact wide byte List.mem_cons_self
      rw [List.cons_append, byteScan_cons, state.step_of_wide _ high, List.length_cons,
        List.replicate_succ, List.cons_append]
      cases more with
      | nil =>
          rfl
      | cons next others =>
          have later :=
            inductionHypothesis state.pass (List.cons_ne_nil _ _)
              fun byte member => wide byte (List.mem_cons_of_mem _ member)
          rw [later, state.mode_pass, state.pass_pass]

/-- An ASCII character comes next if its byte does. -/
theorem head?_utf8_eq_some_iff
    (char : Char)
    (text : Text)
    (ascii : char.toNat < 128) :
    (Text.utf8 text).head?.map Char.ofUInt8 = some char ↔ text.head? = some char := by
  cases text with
  | nil =>
      simp [Text.utf8]
  | cons first rest =>
      rw [Text.utf8_cons, List.head?_cons, Option.some.injEq]
      by_cases narrow : first.toNat < 128
      · rw [utf8EncodeChar_of_ascii narrow, List.singleton_append, List.head?_cons,
          Option.map_some, ofUInt8_toUInt8 narrow, Option.some.injEq]
      · have wide : 128 ≤ first.toNat := Nat.le_of_not_lt narrow
        cases bytes : String.utf8EncodeChar first with
        | nil =>
            have size := String.length_utf8EncodeChar first
            rw [bytes] at size
            exact absurd size.symm (Nat.ne_of_gt first.utf8Size_pos)
        | cons byte more =>
            have high := le_of_mem_utf8EncodeChar wide (bytes ▸ List.mem_cons_self)
            rw [List.cons_append, List.head?_cons, Option.map_some, Option.some.injEq]
            constructor
            · rintro rfl
              rw [toNat_ofUInt8] at ascii
              exact absurd high (Nat.not_le.mpr ascii)
            · rintro rfl
              exact absurd ascii narrow

/-- The bytes of a text have the modes of its characters. -/
theorem byteModes_scanFrom
    (state : ScanState)
    (text : Text) :
    byteModes (scanFrom state text) = byteScan state (Text.utf8 text) := by
  induction text generalizing state with
  | nil =>
      rfl
  | cons char rest inductionHypothesis =>
      have first :
          byteModes (scanFrom state (char :: rest)) =
            List.replicate char.utf8Size (state.step char rest.head?).1 ++
              byteModes (scanFrom (state.step char rest.head?).2 rest) :=
        List.flatMap_cons
      rw [first, Text.utf8_cons, inductionHypothesis]
      by_cases ascii : char.toNat < 128
      · have next :=
          state.step_congr char (head?_utf8_eq_some_iff '-' rest (by decide))
            (head?_utf8_eq_some_iff '*' rest (by decide))
        have size : char.utf8Size = 1 := by
          rw [← String.length_utf8EncodeChar, utf8EncodeChar_of_ascii ascii, List.length_singleton]
        rw [utf8EncodeChar_of_ascii ascii, List.singleton_append, byteScan_cons,
          ofUInt8_toUInt8 ascii, next, size]
        rfl
      · have wide : 128 ≤ char.toNat := Nat.le_of_not_lt ascii
        have nonempty : String.utf8EncodeChar char ≠ [] := by
          rw [← List.length_pos_iff, String.length_utf8EncodeChar]
          exact char.utf8Size_pos
        rw [byteScan_append_of_wide state _ nonempty fun _ => le_of_mem_utf8EncodeChar wide,
          state.step_of_wide _ wide, String.length_utf8EncodeChar]

/-- A text scanned as a whole. -/
theorem byteModesFrom_zero
    (text : Text) :
    byteModesFrom 0 text = byteModes (scan text) := by
  simp [byteModesFrom, Text.before, Text.after, Text.index]

/-- Scanned from any byte on, a text has the modes that its bytes have by themselves. -/
theorem byteModesFrom_eq
    (offset : Nat)
    (text : Text) :
    byteModesFrom offset text = byteScan .code ((Text.utf8 text).drop offset) := by
  induction text generalizing offset with
  | nil =>
      cases offset with
      | zero => rfl
      | succ less =>
          simp [byteModesFrom, Text.before, Text.after, Text.utf8, scan, scanFrom, byteModes]
  | cons char rest inductionHypothesis =>
      cases offset with
      | zero =>
          rw [byteModesFrom_zero, List.drop_zero]
          exact byteModes_scanFrom .code (char :: rest)
      | succ less =>
          have front :
              Text.before (less + 1) (char :: rest) =
                char :: Text.before (less + 1 - char.utf8Size) rest := rfl
          have back :
              Text.after (less + 1) (char :: rest) =
                Text.after (less + 1 - char.utf8Size) rest := rfl
          rw [byteModesFrom, front, back, Text.byteLength_cons, Text.utf8_cons, List.drop_append,
            String.length_utf8EncodeChar]
          by_cases inside : less + 1 < char.utf8Size
          · -- The offset cuts the character, whose other bytes are not ASCII.
            have wide : 128 ≤ char.toNat := by
              apply Nat.le_of_not_lt
              intro ascii
              have size := String.length_utf8EncodeChar char
              rw [utf8EncodeChar_of_ascii ascii, List.length_singleton] at size
              omega
            have bytes : ∀ byte ∈ (String.utf8EncodeChar char).drop (less + 1), 128 ≤ byte.toNat :=
              fun _ member => le_of_mem_utf8EncodeChar wide (List.mem_of_mem_drop member)
            have length := List.length_drop (i := less + 1) (l := String.utf8EncodeChar char)
            rw [String.length_utf8EncodeChar] at length
            have nonempty : (String.utf8EncodeChar char).drop (less + 1) ≠ [] := by
              rw [← List.length_pos_iff, length]
              omega
            have unread : less + 1 - char.utf8Size = 0 := by omega
            rw [unread, List.drop_zero, byteScan_append_of_wide .code _ nonempty bytes, length]
            simp only [Text.before, Text.after, Text.index, List.take_zero, List.drop_zero,
              Text.byteLength_nil, Nat.add_zero, scan, byteModes_scanFrom]
            rfl
          · have whole : (String.utf8EncodeChar char).drop (less + 1) = [] := by
              rw [List.drop_eq_nil_iff, String.length_utf8EncodeChar]
              omega
            rw [whole, List.nil_append, ← inductionHypothesis, byteModesFrom]
            congr 2
            omega

/-- What is made of bytes and their modes can be made glyph by glyph. -/
theorem zipWith_byteModes
    (combine : Mode → UInt8 → α)
    (glyphs : List Glyph) :
    List.zipWith combine (byteModes glyphs) (Text.utf8 (Glyph.chars glyphs)) =
      glyphs.flatMap fun glyph => (String.utf8EncodeChar glyph.char).map (combine glyph.mode) := by
  have first
      (mode : Mode)
      (bytes : List UInt8) :
      List.zipWith combine (List.replicate bytes.length mode) bytes =
        bytes.map (combine mode) := by
    induction bytes with
    | nil => rfl
    | cons byte more bytesHypothesis => simp [List.replicate_succ, bytesHypothesis]
  induction glyphs with
  | nil =>
      rfl
  | cons glyph rest inductionHypothesis =>
      have size :
          (List.replicate glyph.char.utf8Size glyph.mode).length =
            (String.utf8EncodeChar glyph.char).length := by
        rw [List.length_replicate, String.length_utf8EncodeChar]
      have cut :
          List.zipWith combine (byteModes (glyph :: rest))
              (Text.utf8 (Glyph.chars (glyph :: rest))) =
            List.zipWith combine (List.replicate glyph.char.utf8Size glyph.mode)
                (String.utf8EncodeChar glyph.char) ++
              List.zipWith combine (byteModes rest) (Text.utf8 (Glyph.chars rest)) :=
        List.zipWith_append size
      rw [cut, inductionHypothesis, List.flatMap_cons, ← first, String.length_utf8EncodeChar]

theorem length_byteModes
    (glyphs : List Glyph) :
    (byteModes glyphs).length = Glyph.byteLength glyphs := by
  induction glyphs with
  | nil =>
      rfl
  | cons glyph rest inductionHypothesis =>
      have cut :
          byteModes (glyph :: rest) =
            List.replicate glyph.char.utf8Size glyph.mode ++ byteModes rest :=
        List.flatMap_cons
      rw [cut, List.length_append, List.length_replicate, inductionHypothesis]
      rfl

theorem byteModes_append
    (first second : List Glyph) :
    byteModes (first ++ second) = byteModes first ++ byteModes second :=
  List.flatMap_append

/-- The first byte of a character has the mode of the character. -/
theorem getElem?_byteModes
    (front back : List Glyph)
    (glyph : Glyph) :
    (byteModes (front ++ glyph :: back))[Glyph.byteLength front]? = some glyph.mode := by
  have cut :
      byteModes (glyph :: back) =
        List.replicate glyph.char.utf8Size glyph.mode ++ byteModes back :=
    List.flatMap_cons
  rw [byteModes_append, ← length_byteModes, List.getElem?_append_right (Nat.le_refl _),
    Nat.sub_self, cut]
  cases size : glyph.char.utf8Size with
  | zero => exact absurd size (Nat.ne_of_gt glyph.char.utf8Size_pos)
  | succ less => rfl

/-- Scanned from behind a piece on, a text has the modes of the rest. -/
theorem byteModesFrom_of_append
    {text front back : Text}
    {offset : Nat}
    (whole : text = front ++ back)
    (place : offset = Text.byteLength front) :
    byteModesFrom offset text = byteModes (scan back) := by
  rw [byteModesFrom, Text.before_eq whole place, Text.after_eq whole place, place, Nat.sub_self]
  rfl

end RoutineServer
