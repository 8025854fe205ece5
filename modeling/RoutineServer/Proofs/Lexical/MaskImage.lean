import RoutineServer.Proofs.Lexical.ByteScan
import RoutineServer.Proofs.Routine.Placement

namespace RoutineServer

/-!
# The mask as an image of the text

The mask can be made byte by byte: a byte of code and a newline stay what they
are, any other byte becomes a blank. Modes change only between characters, so the
bytes that come out are those of a text, with a character boundary wherever the
document has one. Nothing in the mask opens a string or a comment, so the mask of
the mask is the mask again.

The places that a declaration refers to lie between characters of the document.
-/

/-- What the mask shows in place of a byte. -/
def shownByte (mode : Mode) (byte : UInt8) : UInt8 :=
  if mode = .code ∨ byte = '\n'.toUInt8 then byte else ' '.toUInt8

/-- The mask of a document, made byte by byte. -/
def maskedBytes (text : Text) : List UInt8 :=
  List.zipWith shownByte (byteModesFrom 0 text) (Text.utf8 text)

theorem shownByte_eq_newline_iff
    {mode : Mode}
    {byte : UInt8} :
    shownByte mode byte = '\n'.toUInt8 ↔ byte = '\n'.toUInt8 := by
  by_cases visible : mode = .code ∨ byte = '\n'.toUInt8
  · rw [shownByte, if_pos visible]
  · have other : ' '.toUInt8 ≠ '\n'.toUInt8 := by decide
    rw [shownByte, if_neg visible]
    exact ⟨fun same => absurd same other, fun newline => absurd (.inr newline) visible⟩

theorem Text.utf8_replicate_blank
    (count : Nat) :
    Text.utf8 (List.replicate count ' ') = List.replicate count ' '.toUInt8 := by
  induction count with
  | zero =>
      rfl
  | succ less inductionHypothesis =>
      rw [List.replicate_succ, Text.utf8_cons, inductionHypothesis]
      rfl

/-- The bytes of the mask of a glyph. -/
theorem Glyph.utf8_masked
    (glyph : Glyph) :
    Text.utf8 glyph.masked =
      (String.utf8EncodeChar glyph.char).map (shownByte glyph.mode) := by
  have newlineBytes : String.utf8EncodeChar '\n' = ['\n'.toUInt8] := rfl
  rcases glyph with ⟨char, mode⟩
  by_cases visible : mode = .code ∨ char = '\n'
  · have same : ∀ byte ∈ String.utf8EncodeChar char, shownByte mode byte = id byte := by
      intro byte member
      refine if_pos ?_
      rcases visible with code | rfl
      · exact .inl code
      · rw [newlineBytes, List.mem_singleton] at member
        exact .inr member
    have shown : masked ⟨char, mode⟩ = [char] :=
      if_pos (by simpa [isCode] using visible)
    rw [shown, List.map_congr_left same, List.map_id, Text.utf8_cons]
    exact List.append_nil _
  · have blank : ∀ byte ∈ String.utf8EncodeChar char, shownByte mode byte = ' '.toUInt8 := by
      intro byte member
      refine if_neg ?_
      rintro (code | rfl)
      · exact visible (.inl code)
      · exact visible (.inr ((toUInt8_mem_utf8EncodeChar_iff (by decide)).mp member))
    have hidden : masked ⟨char, mode⟩ = List.replicate char.utf8Size ' ' :=
      if_neg (by simpa [isCode] using visible)
    rw [hidden, Text.utf8_replicate_blank, List.map_eq_replicate_iff.mpr blank,
      String.length_utf8EncodeChar]

/-- The bytes of the mask of some glyphs. -/
theorem Glyph.utf8_flatMap_masked
    (glyphs : List Glyph) :
    Text.utf8 (glyphs.flatMap masked) =
      List.zipWith shownByte (byteModes glyphs) (Text.utf8 (chars glyphs)) := by
  rw [zipWith_byteModes, Text.utf8, List.flatMap_assoc]
  exact List.flatMap_congr fun glyph _ => glyph.utf8_masked

/-- Made byte by byte, the mask is the text that it is character by character. -/
theorem maskedBytes_eq
    (text : Text) :
    maskedBytes text = Text.utf8 (maskedText text) := by
  rw [maskedBytes, byteModesFrom_zero, maskedText, Glyph.utf8_flatMap_masked, Glyph.chars_scan]

/-- A text has as many modes as bytes. -/
theorem length_byteModes_scan
    (text : Text) :
    (byteModes (scan text)).length = (Text.utf8 text).length := by
  rw [length_byteModes, Glyph.byteLength_scan, Text.length_utf8]

/-- Each byte of the text has a mode, and what the mask shows in its place. -/
theorem utf8_maskedText_getElem?
    {text : Text}
    {offset : Nat}
    (within : offset < (Text.utf8 text).length) :
    ∃ byte mode,
      (Text.utf8 text)[offset]? = some byte ∧
        (byteModes (scan text))[offset]? = some mode ∧
          (Text.utf8 (maskedText text))[offset]? = some (shownByte mode byte) := by
  have modeWithin := within
  rw [← length_byteModes_scan] at modeWithin
  refine ⟨_, _, List.getElem?_eq_getElem within, List.getElem?_eq_getElem modeWithin, ?_⟩
  rw [← maskedBytes_eq, maskedBytes, byteModesFrom_zero, List.getElem?_zipWith,
    List.getElem?_eq_getElem modeWithin, List.getElem?_eq_getElem within]

/-- Every boundary of the text is one of the mask. -/
theorem isBoundary_maskedText
    {text : Text}
    {offset : Nat}
    (boundary : Text.isBoundary offset text = true) :
    Text.isBoundary offset (maskedText text) = true := by
  obtain ⟨front, back, rfl, rfl⟩ := Text.isBoundary_iff.mp boundary
  have characters := Glyph.chars_scan (front ++ back)
  obtain ⟨frontGlyphs, backGlyphs, glyphs, rfl, rfl⟩ := List.map_eq_append_iff.mp characters
  refine Text.isBoundary_iff.mpr
    ⟨frontGlyphs.flatMap Glyph.masked, backGlyphs.flatMap Glyph.masked, ?_, ?_⟩
  · rw [maskedText, glyphs, List.flatMap_append]
  · exact Glyph.byteLength_flatMap_masked frontGlyphs

/-- A character that is code stays so if what follows it opens no comment with it. -/
theorem ScanState.step_code_of_next
    {char : Char}
    {next other : Option Char}
    (code : (ScanState.code.step char next).1 = .code)
    (dash : other = some '-' → next = some '-')
    (star : other = some '*' → next = some '*') :
    ScanState.code.step char other = (.code, .code) := by
  have noDashes : ¬ (char = '-' ∧ other = some '-') := by
    rintro ⟨rfl, follows⟩
    rw [dash follows] at code
    cases code
  have noSlashStar : ¬ (char = '/' ∧ other = some '*') := by
    rintro ⟨rfl, follows⟩
    rw [star follows] at code
    cases code
  have noQuote : char ≠ '\x27' := by
    rintro rfl
    cases code
  have noDoubleQuote : char ≠ '"' := by
    rintro rfl
    cases code
  simp [ScanState.step, noDashes, noSlashStar, noQuote, noDoubleQuote]

/-- The mask of a glyph that is not code is scanned as code. -/
theorem scan_blanks
    {blanks : Text}
    (blank : ∀ char ∈ blanks, char = ' ' ∨ char = '\n')
    (rest : Text) :
    scan (blanks ++ rest) = Glyph.plain blanks ++ scan rest := by
  induction blanks with
  | nil =>
      rfl
  | cons char more inductionHypothesis =>
      have later :=
        inductionHypothesis fun other member => blank other (List.mem_cons_of_mem _ member)
      rw [scan] at later
      rcases blank char List.mem_cons_self with rfl | rfl
      · exact congrArg (List.cons _) later
      · exact congrArg (List.cons _) later

namespace Glyph

theorem masked_ne_nil
    (glyph : Glyph) :
    glyph.masked ≠ [] := by
  intro empty
  have size := glyph.byteLength_masked
  rw [empty, Text.byteLength_nil] at size
  exact absurd size (Nat.ne_of_lt (Char.utf8Size_pos glyph.char))

/-- A visible character at the start of the mask is the first character of the text. -/
theorem head?_chars_of_masked
    {glyphs : List Glyph}
    {char : Char}
    (visible : char ≠ ' ' ∧ char ≠ '\n')
    (found : (glyphs.flatMap masked).head? = some char) :
    (chars glyphs).head? = some char := by
  cases glyphs with
  | nil =>
      cases found
  | cons glyph rest =>
      rw [List.flatMap_cons, List.head?_append_of_ne_nil _ glyph.masked_ne_nil] at found
      have shown := eq_shown_of_mem_masked (List.mem_of_mem_head? found)
      rw [eq_of_shown shown.symm visible]
      rfl

@[simp] theorem flatMap_masked_plain
    (text : Text) :
    (plain text).flatMap masked = text := by
  simp [plain, masked, isCode, List.flatMap_map]

end Glyph

/-- The mask of glyphs that were scanned is scanned as code. -/
theorem scan_masked
    (state : ScanState)
    (text : Text) :
    scan ((scanFrom state text).flatMap Glyph.masked) =
      Glyph.plain ((scanFrom state text).flatMap Glyph.masked) := by
  induction text generalizing state with
  | nil =>
      rfl
  | cons char rest inductionHypothesis =>
      have later := inductionHypothesis (state.step char rest.head?).2
      rw [scanFrom, List.flatMap_cons, Glyph.plain_append, ← later]
      by_cases code : (state.step char rest.head?).1 = .code
      · obtain ⟨rfl, -⟩ := ScanState.step_eq_code code
        have shown : Glyph.masked ⟨char, (ScanState.code.step char rest.head?).1⟩ = [char] := by
          simp [Glyph.masked, Glyph.isCode, code]
        have follows
            {next : Char}
            (visible : next ≠ ' ' ∧ next ≠ '\n')
            (found :
              ((scanFrom (ScanState.code.step char rest.head?).2 rest).flatMap
                Glyph.masked).head? = some next) :
            rest.head? = some next := by
          have first := Glyph.head?_chars_of_masked visible found
          rwa [chars_scanFrom] at first
        have opensNothing :=
          ScanState.step_code_of_next code (follows (by decide)) (follows (by decide))
        rw [shown, List.singleton_append, scan, scanFrom, opensNothing]
        rfl
      · apply scan_blanks
        intro other member
        rw [Glyph.eq_shown_of_mem_masked member]
        exact Glyph.shown_of_isCode_eq_false (by simpa [Glyph.isCode] using code)

/-- The mask shows code only. -/
theorem scan_maskedText
    (text : Text) :
    scan (maskedText text) = Glyph.plain (maskedText text) :=
  scan_masked .code text

namespace Segment.Stands

variable {text : Text} {segment : Segment} {front back : List Glyph}

theorem isBoundary_start
    (stands : Stands text segment front back) :
    Text.isBoundary segment.start text = true := by
  refine Text.isBoundary_iff.mpr
    ⟨Glyph.chars front, Glyph.chars (segment.words ++ (segment.region ++ back)), ?_, ?_⟩
  · rw [← Glyph.chars_append, ← stands.whole, Glyph.chars_scan]
  · exact stands.start_eq.symm

/-- The declaration of a segment ends between two characters. -/
theorem isBoundary_stop
    {declaration : Declaration}
    (stands : Stands text segment front back)
    (declares : segment.declaration? = some declaration) :
    Text.isBoundary declaration.stop text = true := by
  obtain ⟨⟨_, count⟩, read, rfl⟩ := Option.map_eq_some_iff.mp declares
  obtain ⟨parts, region, rfl, -, -⟩ := exists_parts read
  have openingSize : Char.utf8Size '(' = 1 := by decide
  have closingSize : Char.utf8Size ')' = 1 := by decide
  let declared :=
    parts.blanks ++ (parts.name ++ (parts.gap ++ ⟨'(', .code⟩ ::
      (parts.inside ++ ⟨')', .code⟩ :: parts.body)))
  refine Text.isBoundary_iff.mpr
    ⟨Glyph.chars (front ++ (segment.words ++ declared)), Glyph.chars (parts.rest ++ back), ?_, ?_⟩
  · rw [← Glyph.chars_append, ← Glyph.chars_scan text, stands.whole, region]
    simp [declared, Parts.glyphs]
  · have start := stands.start_eq
    simp [declared, Parts.declaration, regionStart, start, Glyph.byteLength, openingSize,
      closingSize, Nat.add_assoc]

end Segment.Stands

namespace Declaration

/-- The places in the document that a declaration refers to. -/
def offsets (declaration : Declaration) : List Nat :=
  [declaration.start, declaration.stop, declaration.nameSpan.start, declaration.nameSpan.stop,
    declaration.paramsOpen, declaration.paramsClose]

/-- They lie between characters. -/
theorem isBoundary_of_mem_offsets
    {text : Text}
    {declaration : Declaration}
    {offset : Nat}
    (member : declaration ∈ parse text)
    (isOffset : offset ∈ declaration.offsets) :
    Text.isBoundary offset text = true := by
  rw [parse_eq_segments] at member
  obtain ⟨segment, segmentMember, declares⟩ := List.mem_filterMap.mp member
  obtain ⟨front, back, stands⟩ := Segment.exists_stands segmentMember
  have placed := placed_of_declaration? segmentMember declares
  simp only [offsets, List.mem_cons, List.not_mem_nil, or_false] at isOffset
  rcases isOffset with rfl | rfl | rfl | rfl | rfl | rfl
  · rw [(Segment.frames_of_declaration? declares).start_eq]
    exact stands.isBoundary_start
  · exact stands.isBoundary_stop declares
  · exact placed.nameStart_boundary
  · exact placed.nameStop_boundary
  · exact Text.isBoundary_of_charAt? placed.opened
  · exact Text.isBoundary_of_charAt? placed.closed

end Declaration

/-- A mask shows the code of a text in its place, and nothing else of it but the newlines. -/
structure CodeImage (text mask : Text) : Prop where
  bytes : Text.utf8 mask = maskedBytes text
  decoded : Text.ofUtf8? (maskedBytes text) = some mask
  byteLength_eq : Text.byteLength mask = Text.byteLength text
  code :
    ∀ offset : Nat, isCodeAt text offset = true →
      (Text.utf8 mask)[offset]? = (Text.utf8 text)[offset]?
  newline :
    ∀ offset : Nat,
      (Text.utf8 mask)[offset]? = some '\n'.toUInt8 ↔
        (Text.utf8 text)[offset]? = some '\n'.toUInt8
  blank :
    ∀ offset < Text.byteLength text, isCodeAt text offset = false →
      (Text.utf8 text)[offset]? ≠ some '\n'.toUInt8 →
        (Text.utf8 mask)[offset]? = some ' '.toUInt8
  boundary :
    ∀ offset, Text.isBoundary offset text = true → Text.isBoundary offset mask = true
  /-- Scanned again, the mask is all code. -/
  plain : ∀ mode ∈ byteModesFrom 0 mask, mode = .code
  masked : maskedText mask = mask

theorem isCodeAt_iff
    {text : Text}
    {offset : Nat} :
    isCodeAt text offset = true ↔ (byteModes (scan text))[offset]? = some .code := by
  simp [isCodeAt]

/-- The mask of a text shows its code. -/
theorem codeImage_maskedText
    (text : Text) :
    CodeImage text (maskedText text) where
  bytes := (maskedBytes_eq text).symm
  decoded := by
    rw [maskedBytes_eq]
    exact Text.ofUtf8?_utf8 (maskedText text)
  byteLength_eq := byteLength_maskedText text
  code := by
    intro offset code
    rw [isCodeAt_iff] at code
    have within := (List.getElem?_eq_some_iff.mp code).1
    rw [length_byteModes_scan] at within
    obtain ⟨byte, mode, here, isMode, shown⟩ := utf8_maskedText_getElem? within
    obtain rfl : mode = .code := Option.some.inj (isMode.symm.trans code)
    rw [shown, here, shownByte, if_pos (.inl rfl)]
  newline := by
    intro offset
    by_cases within : offset < (Text.utf8 text).length
    · obtain ⟨byte, mode, here, -, shown⟩ := utf8_maskedText_getElem? within
      rw [shown, here, Option.some.injEq, Option.some.injEq, shownByte_eq_newline_iff]
    · have behind := Nat.le_of_not_lt within
      have maskBehind : (Text.utf8 (maskedText text)).length ≤ offset := by
        rwa [Text.length_utf8, byteLength_maskedText, ← Text.length_utf8]
      rw [List.getElem?_eq_none behind, List.getElem?_eq_none maskBehind]
  blank := by
    intro offset within hidden other
    rw [← Text.length_utf8] at within
    obtain ⟨byte, mode, here, isMode, shown⟩ := utf8_maskedText_getElem? within
    rw [shown, shownByte, if_neg]
    rintro (rfl | rfl)
    · rw [isCodeAt_iff.mpr isMode] at hidden
      cases hidden
    · exact other here
  boundary := fun _ => isBoundary_maskedText
  plain := by
    rw [byteModesFrom_zero, scan_maskedText]
    simp [byteModes, Glyph.plain]
  masked := by
    rw [maskedText, scan_maskedText, Glyph.flatMap_masked_plain]

/--
The mask of a text is a text that shows its code in place, and the offsets of
declarations lie between characters.
-/
theorem maskedText_faithful
    (text : Text) :
    CodeImage text (maskedText text) ∧
      ∀ declaration ∈ Declaration.parse text, ∀ offset ∈ declaration.offsets,
        Text.isBoundary offset text = true :=
  ⟨codeImage_maskedText text, fun _ member _ => Declaration.isBoundary_of_mem_offsets member⟩

/-- Characters of several bytes in a comment, in a name, in strings and in code. -/
def veiled : Text :=
  "-- ü\ncreate function \"é\"(a text = \x27日)\x27) ş as \x27zażółć\x27; /*€".toList

theorem maskedText_faithful_veiled :
    CodeImage veiled (maskedText veiled) ∧
      String.ofList (maskedText veiled) =
          "     \ncreate function     (a text =       ) ş as             ;      " ∧
        ∃ declaration ∈ Declaration.parse veiled,
          declaration.offsets = [6, 63, 22, 26, 26, 42] ∧
            ∀ offset ∈ declaration.offsets, Text.isBoundary offset veiled = true := by
  have faithful := maskedText_faithful veiled
  obtain ⟨declaration, member, places⟩ :
      ∃ declaration ∈ Declaration.parse veiled,
        declaration.offsets = [6, 63, 22, 26, 26, 42] := by
    decide +kernel
  exact ⟨faithful.1, by decide +kernel, declaration, member, places, faithful.2 declaration member⟩

end RoutineServer
