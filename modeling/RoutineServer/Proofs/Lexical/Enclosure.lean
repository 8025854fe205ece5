import Mathlib.Data.List.Infix
import RoutineServer.Proofs.Lexical.MaskImage

namespace RoutineServer

/-!
# Enclosed text

The partner of a parenthesis, told by counting. A text is scanned anew behind the
opening parenthesis; the partner is the closing one with balanced parentheses in
between, of which there is at most one. If the opening parenthesis is code in the
document, both scans agree from there on, and the mask of the document is balanced
between the two.
-/

/-- As many parentheses close as open, and at no place have more closed than opened. -/
structure Balanced (bytes : List UInt8) : Prop where
  count_eq : bytes.count '('.toUInt8 = bytes.count ')'.toUInt8
  nested : ∀ front, front <+: bytes → front.count ')'.toUInt8 ≤ front.count '('.toUInt8

instance (bytes : List UInt8) : Decidable (Balanced bytes) :=
  decidable_of_iff
    (bytes.count '('.toUInt8 = bytes.count ')'.toUInt8 ∧
      ∀ front ∈ bytes.inits, front.count ')'.toUInt8 ≤ front.count '('.toUInt8)
    ⟨fun ⟨same, nested⟩ => ⟨same, fun front begins => nested front ((List.mem_inits _ _).mpr begins)⟩,
      fun balanced => ⟨balanced.count_eq,
        fun front member => balanced.nested front ((List.mem_inits _ _).mp member)⟩⟩

/-- The parentheses among some bytes that are code, in order. -/
def codeParens (modes : List Mode) (bytes : List UInt8) : List UInt8 :=
  (modes.zip bytes).flatMap fun (mode, byte) =>
    if mode = .code ∧ (byte = '('.toUInt8 ∨ byte = ')'.toUInt8) then [byte] else []

/--
A code parenthesis closes the one at another place: scanned from behind that
place on, the code parentheses in between are balanced.
-/
structure Closes (text : Text) (opening closing : Nat) : Prop where
  behind : opening < closing
  isParen : (Text.utf8 text)[closing]? = some ')'.toUInt8
  isCode : (byteModesFrom (opening + 1) text)[closing - (opening + 1)]? = some .code
  balanced :
    Balanced
      (codeParens ((byteModesFrom (opening + 1) text).take (closing - (opening + 1)))
        (((Text.utf8 text).take closing).drop (opening + 1)))

/-- Whether some bytes close all parentheses, with a number of them open at the start. -/
def BalancedFrom : Nat → List UInt8 → Prop
  | depth, [] => depth = 0
  | depth, byte :: rest =>
      if byte = '('.toUInt8 then BalancedFrom (depth + 1) rest
      else if byte = ')'.toUInt8 then 0 < depth ∧ BalancedFrom (depth - 1) rest
      else BalancedFrom depth rest

theorem balancedFrom_opening
    {depth : Nat}
    {rest : List UInt8} :
    BalancedFrom depth ('('.toUInt8 :: rest) ↔ BalancedFrom (depth + 1) rest := by
  rw [BalancedFrom, if_pos rfl]

theorem balancedFrom_closing
    {depth : Nat}
    {rest : List UInt8} :
    BalancedFrom depth (')'.toUInt8 :: rest) ↔ 0 < depth ∧ BalancedFrom (depth - 1) rest := by
  rw [BalancedFrom, if_neg (by decide), if_pos rfl]

theorem balancedFrom_other
    {depth : Nat}
    {byte : UInt8}
    {rest : List UInt8}
    (notOpening : byte ≠ '('.toUInt8)
    (notClosing : byte ≠ ')'.toUInt8) :
    BalancedFrom depth (byte :: rest) ↔ BalancedFrom depth rest := by
  rw [BalancedFrom, if_neg notOpening, if_neg notClosing]

/-- A property of all that some bytes begin with, by the first byte. -/
theorem forall_isPrefix_cons_iff
    {property : List UInt8 → Prop}
    {byte : UInt8}
    {rest : List UInt8} :
    (∀ front, front <+: byte :: rest → property front) ↔
      property [] ∧ ∀ front, front <+: rest → property (byte :: front) := by
  constructor
  · intro holds
    exact ⟨holds [] List.nil_prefix,
      fun front begins => holds _ (List.cons_prefix_cons.mpr ⟨rfl, begins⟩)⟩
  · rintro ⟨empty, later⟩ front begins
    rcases List.prefix_cons_iff.mp begins with rfl | ⟨more, rfl, moreBegins⟩
    · exact empty
    · exact later more moreBegins

/-- Balance by depth is balance by counting. -/
theorem balancedFrom_iff
    {depth : Nat}
    {bytes : List UInt8} :
    BalancedFrom depth bytes ↔
      depth + bytes.count '('.toUInt8 = bytes.count ')'.toUInt8 ∧
        ∀ front, front <+: bytes →
          front.count ')'.toUInt8 ≤ depth + front.count '('.toUInt8 := by
  have differ : '('.toUInt8 ≠ ')'.toUInt8 := by decide
  induction bytes generalizing depth with
  | nil =>
      simp [BalancedFrom]
  | cons byte rest inductionHypothesis =>
      rw [forall_isPrefix_cons_iff]
      by_cases opens : byte = '('.toUInt8
      · subst opens
        simp only [balancedFrom_opening, inductionHypothesis, List.count_cons_self,
          List.count_cons_of_ne differ, List.count_nil, Nat.zero_le, true_and]
        simp only [Nat.add_assoc, Nat.add_comm 1]
      · by_cases closes : byte = ')'.toUInt8
        · subst closes
          simp only [balancedFrom_closing, inductionHypothesis, List.count_cons_self,
            List.count_cons_of_ne differ.symm, List.count_nil, Nat.zero_le, true_and]
          constructor
          · rintro ⟨positive, same, nested⟩
            refine ⟨by omega, fun front begins => ?_⟩
            have less := nested front begins
            omega
          · rintro ⟨same, nested⟩
            have positive := nested [] List.nil_prefix
            rw [List.count_nil, List.count_nil] at positive
            refine ⟨by omega, by omega, fun front begins => ?_⟩
            have less := nested front begins
            omega
        · simp only [balancedFrom_other opens closes, inductionHypothesis,
            List.count_cons_of_ne opens, List.count_cons_of_ne closes, List.count_nil,
            Nat.zero_le, true_and]

theorem balanced_iff
    {bytes : List UInt8} :
    Balanced bytes ↔ BalancedFrom 0 bytes := by
  rw [balancedFrom_iff]
  simp only [Nat.zero_add]
  constructor
  · intro balanced
    exact ⟨balanced.count_eq, balanced.nested⟩
  · rintro ⟨same, nested⟩
    exact ⟨same, nested⟩

/-- A byte that is neither a blank nor a newline is shown only where it is code. -/
theorem shownByte_eq_iff
    {mode : Mode}
    {byte shown : UInt8}
    (visible : shown ≠ ' '.toUInt8 ∧ shown ≠ '\n'.toUInt8) :
    shownByte mode byte = shown ↔ mode = .code ∧ byte = shown := by
  constructor
  · intro shows
    rw [shownByte] at shows
    split at shows
    case isTrue kept =>
        obtain rfl := shows
        exact ⟨kept.resolve_right visible.2, rfl⟩
    case isFalse =>
        exact absurd shows.symm visible.1
  · rintro ⟨rfl, rfl⟩
    exact if_pos (.inl rfl)

/-- A mask shows the code parentheses and no others. -/
theorem balancedFrom_zipWith_shownByte
    (depth : Nat)
    (modes : List Mode)
    (bytes : List UInt8) :
    BalancedFrom depth (List.zipWith shownByte modes bytes) ↔
      BalancedFrom depth (codeParens modes bytes) := by
  induction modes generalizing depth bytes with
  | nil =>
      rfl
  | cons mode laterModes inductionHypothesis =>
      cases bytes with
      | nil =>
          rfl
      | cons byte rest =>
          have cut :
              codeParens (mode :: laterModes) (byte :: rest) =
                (if mode = .code ∧ (byte = '('.toUInt8 ∨ byte = ')'.toUInt8) then [byte] else []) ++
                  codeParens laterModes rest :=
            List.flatMap_cons
          rw [List.zipWith_cons_cons, cut]
          by_cases paren : mode = .code ∧ (byte = '('.toUInt8 ∨ byte = ')'.toUInt8)
          · rw [if_pos paren, shownByte, if_pos (.inl paren.1), List.singleton_append]
            rcases paren.2 with rfl | rfl
            · rw [balancedFrom_opening, balancedFrom_opening, inductionHypothesis]
            · rw [balancedFrom_closing, balancedFrom_closing, inductionHypothesis]
          · rw [if_neg paren, List.nil_append, ← inductionHypothesis]
            apply balancedFrom_other
            · intro opens
              obtain ⟨code, isOpening⟩ := (shownByte_eq_iff (by decide)).mp opens
              exact paren ⟨code, .inl isOpening⟩
            · intro closes
              obtain ⟨code, isClosing⟩ := (shownByte_eq_iff (by decide)).mp closes
              exact paren ⟨code, .inr isClosing⟩

namespace Glyph

/-- The parenthesis that a glyph adds to the code parentheses. -/
def paren (glyph : Glyph) : List UInt8 :=
  if glyph.isCodeChar '(' || glyph.isCodeChar ')' then [glyph.char.toUInt8] else []

/-- A parenthesis changes the depth, and none may close what is not open. -/
theorem balancedFrom_paren_append
    {depth : Nat}
    {glyph : Glyph}
    {rest : List UInt8} :
    BalancedFrom depth (glyph.paren ++ rest) ↔
      ¬ (glyph.isCodeChar ')' = true ∧ depth = 0) ∧
        BalancedFrom (depthAfter depth glyph) rest := by
  by_cases opens : glyph.isCodeChar '(' = true
  · obtain rfl := isCodeChar_iff.mp opens
    have notClosing : isCodeChar ')' ⟨'(', .code⟩ = false := by decide
    simp only [notClosing, Bool.false_eq_true, false_and, not_false_iff, true_and]
    exact balancedFrom_opening
  · by_cases closes : glyph.isCodeChar ')' = true
    · obtain rfl := isCodeChar_iff.mp closes
      simp only [closes, true_and, ← Nat.pos_iff_ne_zero]
      exact balancedFrom_closing
    · simp [paren, depthAfter, opens, closes]

/-- The code parentheses of glyphs are those of their bytes. -/
theorem codeParens_byteModes
    (glyphs : List Glyph) :
    codeParens (byteModes glyphs) (Text.utf8 (chars glyphs)) = glyphs.flatMap paren := by
  rw [codeParens, List.zip, zipWith_byteModes, List.flatMap_assoc]
  refine List.flatMap_congr fun glyph _ => ?_
  by_cases isParen : glyph.isCodeChar '(' = true ∨ glyph.isCodeChar ')' = true
  · rcases isParen with opens | closes
    · obtain rfl := isCodeChar_iff.mp opens
      rfl
    · obtain rfl := isCodeChar_iff.mp closes
      rfl
  · have none : glyph.paren = [] := if_neg (by simpa using isParen)
    rw [none, List.flatMap_eq_nil_iff]
    intro part member
    obtain ⟨byte, byteMember, rfl⟩ := List.mem_map.mp member
    apply if_neg
    rintro ⟨code, rfl | rfl⟩
    · have isChar := (toUInt8_mem_utf8EncodeChar_iff (by decide)).mp byteMember
      exact isParen (.inl (by simp [isCodeChar, isCode, code, isChar]))
    · have isChar := (toUInt8_mem_utf8EncodeChar_iff (by decide)).mp byteMember
      exact isParen (.inr (by simp [isCodeChar, isCode, code, isChar]))

end Glyph

/-- The partner of a parenthesis is the closing one behind balanced parentheses. -/
theorem closingParen?_eq_length_iff
    {depth : Nat}
    {inside rest : List Glyph} :
    closingParen? depth (inside ++ ⟨')', .code⟩ :: rest) = some inside.length ↔
      BalancedFrom depth (inside.flatMap Glyph.paren) := by
  induction inside generalizing depth with
  | nil =>
      have closes : Glyph.isCodeChar ')' ⟨')', .code⟩ = true := by decide
      rw [List.nil_append, closingParen?, closes, Bool.true_and]
      cases depth with
      | zero =>
          exact iff_of_true rfl rfl
      | succ less =>
          simp [BalancedFrom]
  | cons glyph more inductionHypothesis =>
      rw [List.cons_append, closingParen?, List.flatMap_cons, Glyph.balancedFrom_paren_append,
        ← inductionHypothesis]
      by_cases early : glyph.isCodeChar ')' = true ∧ depth = 0
      · simp [early]
      · have passes : (glyph.isCodeChar ')' && depth == 0) = false := by
          simpa using early
        simp [passes, early]

/-- The glyphs behind an opening parenthesis, parted at its partner. -/
structure Parted (inside : Text) (content rest : List Glyph) : Prop where
  whole : scan inside = content ++ ⟨')', .code⟩ :: rest
  balanced : BalancedFrom 0 (content.flatMap Glyph.paren)

theorem closingParen?_scan_eq_some_iff
    {inside : Text}
    {length : Nat} :
    closingParen? 0 (scan inside) = some length ↔
      ∃ content rest, Parted inside content rest ∧ content.length = length := by
  constructor
  · intro found
    obtain ⟨content, rest, whole, rfl⟩ := closingParen?_eq_some found
    rw [whole] at found
    exact ⟨content, rest, ⟨whole, closingParen?_eq_length_iff.mp found⟩, rfl⟩
  · rintro ⟨content, rest, parted, rfl⟩
    rw [parted.whole]
    exact closingParen?_eq_length_iff.mpr parted.balanced

theorem Parted.inside_eq
    {inside : Text}
    {content rest : List Glyph}
    (parted : Parted inside content rest) :
    inside = Glyph.chars content ++ ')' :: Glyph.chars rest := by
  have characters := congrArg Glyph.chars parted.whole
  rwa [Glyph.chars_scan, Glyph.chars_append] at characters

/-- What closes a parenthesis, with places counted from behind it. -/
theorem closes_add_iff
    {text : Text}
    {opening length : Nat} :
    Closes text opening (opening + 1 + length) ↔
      ((Text.utf8 text).drop (opening + 1))[length]? = some ')'.toUInt8 ∧
        (byteModesFrom (opening + 1) text)[length]? = some .code ∧
          Balanced
            (codeParens ((byteModesFrom (opening + 1) text).take length)
              (((Text.utf8 text).drop (opening + 1)).take length)) := by
  have left : opening + 1 + length - (opening + 1) = length :=
    Nat.add_sub_cancel_left _ _
  rw [List.getElem?_drop]
  constructor
  · rintro ⟨-, isParen, isCode, balanced⟩
    rw [List.drop_take, left] at balanced
    rw [left] at isCode
    exact ⟨isParen, isCode, balanced⟩
  · rintro ⟨isParen, isCode, balanced⟩
    refine ⟨by omega, isParen, ?_, ?_⟩
    · rwa [left]
    · rwa [List.drop_take, left]

/-- The glyphs around a character whose mode is known. -/
theorem exists_glyphs
    {text front back : Text}
    {char : Char}
    {mode : Mode}
    (whole : text = front ++ char :: back)
    (isMode : (byteModes (scan text))[Text.byteLength front]? = some mode) :
    ∃ frontGlyphs backGlyphs,
      scan text = frontGlyphs ++ ⟨char, mode⟩ :: backGlyphs ∧
        Glyph.chars frontGlyphs = front ∧ Glyph.chars backGlyphs = back := by
  have characters := (Glyph.chars_scan text).trans whole
  obtain ⟨frontGlyphs, later, glyphs, rfl, laterText⟩ := List.map_eq_append_iff.mp characters
  obtain ⟨glyph, backGlyphs, rfl, rfl, rfl⟩ := List.map_eq_cons_iff.mp laterText
  have here := getElem?_byteModes frontGlyphs backGlyphs glyph
  rw [← glyphs] at here
  obtain rfl : glyph.mode = mode := Option.some.inj (here.symm.trans isMode)
  exact ⟨frontGlyphs, backGlyphs, glyphs, rfl, rfl⟩

section Cut

variable {inside : Text} {content rest : List Glyph}

theorem take_utf8_of_scan
    (glyphs : scan inside = content ++ rest) :
    (Text.utf8 inside).take (Glyph.byteLength content) = Text.utf8 (Glyph.chars content) := by
  rw [← Glyph.chars_scan inside, glyphs, Glyph.chars_append, Text.utf8_append,
    Glyph.byteLength, ← Text.length_utf8]
  exact List.take_left

/-- The code parentheses of a text up to a place are those of the glyphs in front of it. -/
theorem codeParens_take_of_scan
    (glyphs : scan inside = content ++ rest) :
    codeParens ((byteModes (scan inside)).take (Glyph.byteLength content))
        ((Text.utf8 inside).take (Glyph.byteLength content)) =
      content.flatMap Glyph.paren := by
  have modes : (byteModes (scan inside)).take (Glyph.byteLength content) = byteModes content := by
    rw [glyphs, byteModes_append, ← length_byteModes]
    exact List.take_left
  rw [modes, take_utf8_of_scan glyphs, Glyph.codeParens_byteModes]

end Cut

section Behind

variable {text front inside : Text} {opening : Nat}

theorem exists_through_opening
    (whole : text = front ++ '(' :: inside)
    (place : opening = Text.byteLength front) :
    ∃ through, text = through ++ inside ∧ opening + 1 = Text.byteLength through := by
  have size : Text.byteLength ['('] = 1 := by decide
  refine ⟨front ++ ['('], ?_, ?_⟩
  · rw [whole, List.append_assoc, List.singleton_append]
  · rw [Text.byteLength_append, place, size]

theorem drop_utf8_opening
    (whole : text = front ++ '(' :: inside)
    (place : opening = Text.byteLength front) :
    (Text.utf8 text).drop (opening + 1) = Text.utf8 inside := by
  obtain ⟨through, parts, size⟩ := exists_through_opening whole place
  rw [parts, Text.utf8_append, size, ← Text.length_utf8]
  exact List.drop_left

/-- What is enclosed ends in front of the partner. -/
theorem enclosedAt?_eq_some_iff
    {enclosed : Enclosed}
    (whole : text = front ++ '(' :: inside)
    (place : opening = Text.byteLength front) :
    enclosedAt? text opening = some enclosed ↔
      ∃ content rest,
        Parted inside content rest ∧
          enclosed = ⟨Glyph.chars content, opening + 1 + Glyph.byteLength content⟩ := by
  obtain ⟨through, parts, size⟩ := exists_through_opening whole place
  have content_eq
      {content rest : List Glyph}
      (parted : Parted inside content rest) :
      inside.take content.length = Glyph.chars content := by
    have length : (Glyph.chars content).length = content.length := List.length_map _
    rw [parted.inside_eq, ← length]
    exact List.take_left
  rw [enclosedAt?, Text.charAt?_eq whole place, Text.after_eq parts size, beq_self_eq_true,
    if_pos rfl, Option.map_eq_some_iff]
  constructor
  · rintro ⟨length, found, rfl⟩
    obtain ⟨content, rest, parted, rfl⟩ := closingParen?_scan_eq_some_iff.mp found
    refine ⟨content, rest, parted, ?_⟩
    rw [content_eq parted]
    rfl
  · rintro ⟨content, rest, parted, rfl⟩
    refine ⟨content.length, closingParen?_scan_eq_some_iff.mpr ⟨content, rest, parted, rfl⟩, ?_⟩
    rw [content_eq parted]
    rfl

/-- What closes a parenthesis is its partner. -/
theorem closes_add_byteLength_iff
    {length : Nat}
    (whole : text = front ++ '(' :: inside)
    (place : opening = Text.byteLength front) :
    Closes text opening (opening + 1 + length) ↔
      ∃ content rest, Parted inside content rest ∧ length = Glyph.byteLength content := by
  obtain ⟨through, parts, size⟩ := exists_through_opening whole place
  rw [closes_add_iff, byteModesFrom_of_append parts size, drop_utf8_opening whole place]
  constructor
  · rintro ⟨isParen, isCode, balanced⟩
    obtain ⟨contentText, restText, inside_eq, rfl⟩ :=
      Text.exists_of_ascii_byte (by decide) isParen
    obtain ⟨content, rest, glyphs, rfl, -⟩ := exists_glyphs inside_eq isCode
    refine ⟨content, rest, ⟨glyphs, ?_⟩, rfl⟩
    rw [← codeParens_take_of_scan glyphs]
    exact balanced_iff.mp balanced
  · rintro ⟨content, rest, parted, rfl⟩
    refine ⟨?_, ?_, ?_⟩
    · have closed := Text.charAt?_eq parted.inside_eq rfl
      exact (Text.charAt?_eq_some_iff (by decide)).mp closed
    · rw [parted.whole]
      exact getElem?_byteModes content rest ⟨')', .code⟩
    · rw [codeParens_take_of_scan parted.whole]
      exact balanced_iff.mpr parted.balanced

/-- The text behind a code parenthesis is scanned like a document of its own. -/
theorem drop_byteModes_scan
    (whole : text = front ++ '(' :: inside)
    (place : opening = Text.byteLength front)
    (code : isCodeAt text opening = true) :
    (byteModes (scan text)).drop (opening + 1) = byteModesFrom (opening + 1) text := by
  obtain ⟨through, parts, size⟩ := exists_through_opening whole place
  rw [isCodeAt_iff, place] at code
  obtain ⟨frontGlyphs, insideGlyphs, glyphs, rfl, rfl⟩ := exists_glyphs whole code
  have behind := (glyphs ▸ Scanned.scan text).after_code rfl
  have modes :
      byteModes (scan text) =
        (byteModes frontGlyphs ++ [.code]) ++ byteModes insideGlyphs := by
    rw [glyphs, byteModes_append, List.append_assoc]
    rfl
  have length : (byteModes frontGlyphs ++ [Mode.code]).length = opening + 1 := by
    rw [List.length_append, length_byteModes, place]
    rfl
  rw [byteModesFrom_of_append parts size, modes, ← length, List.drop_left]
  exact congrArg byteModes behind

end Behind

/-- Where the scan of the document agrees, its mask is balanced in front of the partner. -/
theorem Closes.balanced_maskedText
    {text : Text}
    {opening closing : Nat}
    (closes : Closes text opening closing)
    (agrees : (byteModes (scan text)).drop (opening + 1) = byteModesFrom (opening + 1) text) :
    Balanced (((Text.utf8 (maskedText text)).take closing).drop (opening + 1)) := by
  rw [← maskedBytes_eq, maskedBytes, byteModesFrom_zero, List.take_zipWith, List.drop_zipWith,
    List.drop_take, agrees, balanced_iff, balancedFrom_zipWith_shownByte, ← balanced_iff]
  exact closes.balanced

theorem Closes.isCodeAt
    {text : Text}
    {opening closing : Nat}
    (closes : Closes text opening closing)
    (agrees : (byteModes (scan text)).drop (opening + 1) = byteModesFrom (opening + 1) text) :
    isCodeAt text closing = true := by
  have code := closes.isCode
  have behind := closes.behind
  rw [← agrees, List.getElem?_drop, Nat.add_sub_cancel' behind] at code
  exact isCodeAt_iff.mpr code

/-- An enclosed text reaches up to the one parenthesis that closes the opening one. -/
structure Enclosed.Fits (text : Text) (opening : Nat) (enclosed : Enclosed) : Prop where
  closes_iff : ∀ closing, Closes text opening closing ↔ closing = enclosed.close
  content_eq :
    Text.utf8 enclosed.content = ((Text.utf8 text).take enclosed.close).drop (opening + 1)
  isCodeAt_close : isCodeAt text opening = true → isCodeAt text enclosed.close = true
  balanced :
    isCodeAt text opening = true →
      Balanced (((Text.utf8 (maskedText text)).take enclosed.close).drop (opening + 1))

theorem Enclosed.fits_of_parted
    {text front inside : Text}
    {opening : Nat}
    {content rest : List Glyph}
    (whole : text = front ++ '(' :: inside)
    (place : opening = Text.byteLength front)
    (parted : Parted inside content rest) :
    Fits text opening ⟨Glyph.chars content, opening + 1 + Glyph.byteLength content⟩ := by
  have found := (enclosedAt?_eq_some_iff whole place).mpr ⟨content, rest, parted, rfl⟩
  have closes := (closes_add_byteLength_iff whole place).mpr ⟨content, rest, parted, rfl⟩
  refine ⟨fun closing => ⟨fun other => ?_, ?_⟩, ?_, ?_, ?_⟩
  · -- Another partner would enclose another text.
    obtain ⟨length, rfl⟩ := Nat.exists_eq_add_of_le other.behind
    obtain ⟨otherContent, otherRest, otherParted, rfl⟩ :=
      (closes_add_byteLength_iff whole place).mp other
    have otherFound :=
      (enclosedAt?_eq_some_iff whole place).mpr ⟨otherContent, otherRest, otherParted, rfl⟩
    exact congrArg Enclosed.close (Option.some.inj (otherFound.symm.trans found))
  · rintro rfl
    exact closes
  · rw [List.drop_take, drop_utf8_opening whole place, Nat.add_sub_cancel_left,
      take_utf8_of_scan parted.whole]
  · intro code
    exact closes.isCodeAt (drop_byteModes_scan whole place code)
  · intro code
    exact closes.balanced_maskedText (drop_byteModes_scan whole place code)

theorem exists_of_opening_byte
    {text : Text}
    {opening : Nat}
    (opened : (Text.utf8 text)[opening]? = some '('.toUInt8) :
    ∃ front inside, text = front ++ '(' :: inside ∧ opening = Text.byteLength front := by
  obtain ⟨front, inside, whole, place⟩ := Text.exists_of_ascii_byte (by decide) opened
  exact ⟨front, inside, whole, place.symm⟩

/-- Text is enclosed by an opening parenthesis only. -/
theorem opening_byte_of_enclosedAt?
    {text : Text}
    {opening : Nat}
    {enclosed : Enclosed}
    (found : enclosedAt? text opening = some enclosed) :
    (Text.utf8 text)[opening]? = some '('.toUInt8 := by
  rw [enclosedAt?, Option.ite_none_right_eq_some, beq_iff_eq] at found
  exact (Text.charAt?_eq_some_iff (by decide)).mp found.1

theorem Enclosed.fits_of_enclosedAt?
    {text : Text}
    {opening : Nat}
    {enclosed : Enclosed}
    (found : enclosedAt? text opening = some enclosed) :
    enclosed.Fits text opening := by
  obtain ⟨front, inside, whole, place⟩ := exists_of_opening_byte (opening_byte_of_enclosedAt? found)
  obtain ⟨content, rest, parted, rfl⟩ := (enclosedAt?_eq_some_iff whole place).mp found
  exact fits_of_parted whole place parted

/-- A parenthesis that is closed encloses a text. -/
theorem exists_enclosedAt?
    {text : Text}
    {opening closing : Nat}
    (opened : (Text.utf8 text)[opening]? = some '('.toUInt8)
    (closes : Closes text opening closing) :
    ∃ enclosed, enclosedAt? text opening = some enclosed := by
  obtain ⟨front, inside, whole, place⟩ := exists_of_opening_byte opened
  obtain ⟨length, rfl⟩ := Nat.exists_eq_add_of_le closes.behind
  obtain ⟨content, rest, parted, -⟩ := (closes_add_byteLength_iff whole place).mp closes
  exact ⟨_, (enclosedAt?_eq_some_iff whole place).mpr ⟨content, rest, parted, rfl⟩⟩

/--
A parenthesis encloses a text if some code parenthesis behind it closes it, and
then the text reaches up to that one.
-/
theorem enclosedAt?_partner
    (text : Text)
    (opening : Nat) :
    ((enclosedAt? text opening).isSome = true ↔
        (Text.utf8 text)[opening]? = some '('.toUInt8 ∧
          ∃ closing, Closes text opening closing) ∧
      ∀ enclosed, enclosedAt? text opening = some enclosed → enclosed.Fits text opening := by
  refine ⟨?_, fun _ => Enclosed.fits_of_enclosedAt?⟩
  rw [Option.isSome_iff_exists]
  constructor
  · rintro ⟨enclosed, found⟩
    have fits := Enclosed.fits_of_enclosedAt? found
    exact ⟨opening_byte_of_enclosedAt? found, enclosed.close, (fits.closes_iff _).mpr rfl⟩
  · rintro ⟨opened, closing, closes⟩
    exact exists_enclosedAt? opened closes

/-- A list behind a comment, with parentheses in a type, a string, a comment and a name. -/
def hedged : Text :=
  "-- (\nf(é numeric(10, 2) = \x27)\x27 /* ( */, \"b(\" text) as \x27)\x27)".toList

/-- From the parenthesis in the comment on, the text is scanned otherwise. -/
theorem enclosedAt?_partner_hedged :
    (∃ enclosed,
        enclosedAt? hedged 6 = some enclosed ∧
          String.ofList enclosed.content =
              "é numeric(10, 2) = \x27)\x27 /* ( */, \"b(\" text" ∧
            Closes hedged 6 49 ∧
              isCodeAt hedged 6 = true ∧
                isCodeAt hedged 49 = true ∧
                  Balanced (((Text.utf8 (maskedText hedged)).take 49).drop 7)) ∧
      isCodeAt hedged 3 = false ∧ Closes hedged 3 57 := by
  obtain ⟨listed, listedFound, content, close⟩ :
      ∃ enclosed,
        enclosedAt? hedged 6 = some enclosed ∧
          String.ofList enclosed.content =
              "é numeric(10, 2) = \x27)\x27 /* ( */, \"b(\" text" ∧
            enclosed.close = 49 :=
    ⟨_, rfl, by decide +kernel, by decide +kernel⟩
  obtain ⟨remarked, remarkedFound, remarkedClose⟩ :
      ∃ enclosed, enclosedAt? hedged 3 = some enclosed ∧ enclosed.close = 57 :=
    ⟨_, rfl, by decide +kernel⟩
  have listedFits := (enclosedAt?_partner hedged 6).2 listed listedFound
  have remarkedFits := (enclosedAt?_partner hedged 3).2 remarked remarkedFound
  have isCode : isCodeAt hedged 6 = true := by decide +kernel
  have closeIsCode := listedFits.isCodeAt_close isCode
  have balanced := listedFits.balanced isCode
  rw [close] at closeIsCode balanced
  exact
    ⟨⟨listed, listedFound, content, (listedFits.closes_iff 49).mpr close.symm, isCode, closeIsCode,
        balanced⟩,
      by decide +kernel, (remarkedFits.closes_iff 57).mpr remarkedClose.symm⟩

end RoutineServer
