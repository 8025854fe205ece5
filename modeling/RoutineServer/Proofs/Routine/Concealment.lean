import RoutineServer.Proofs.Lexical.ByteScan
import RoutineServer.Proofs.Routine.Reading
import RoutineServer.Proofs.Routine.Stretch

namespace RoutineServer

/-!
# Strings and comments cannot influence declarations

Two texts whose bytes have the same modes, and which agree in the bytes of code
and of quoted identifiers, are aligned: a byte where the mode changes starts a
character in both, and equal bytes are equal characters because no character's
bytes start another's. Aligned documents have the same declarations but for what
the parameters hold.
-/

/-- The bytes of no character start those of another. -/
theorem char_eq_of_utf8EncodeChar_append
    {first second : Char}
    {more : List UInt8}
    (shape : String.utf8EncodeChar second = String.utf8EncodeChar first ++ more) :
    first = second := by
  have readsFirst :
      ByteArray.utf8DecodeChar?
          ((String.utf8EncodeChar first).toByteArray ++ more.toByteArray) 0 = some first :=
    ByteArray.utf8DecodeChar?_utf8EncodeChar_append
  have readsSecond :
      ByteArray.utf8DecodeChar?
          ((String.utf8EncodeChar second).toByteArray ++ ByteArray.empty) 0 = some second :=
    ByteArray.utf8DecodeChar?_utf8EncodeChar_append
  rw [ByteArray.append_empty, shape, List.toByteArray_append, readsFirst] at readsSecond
  exact Option.some.inj readsSecond

namespace Glyph

/-- What two texts have to agree on at a byte: its mode and, if not hidden, the byte. -/
def byteView (mode : Mode) (byte : UInt8) : Mode × Option UInt8 :=
  (mode, if mode.isHidden then none else some byte)

/-- What two texts have to agree on at the bytes of a glyph. -/
def views (glyph : Glyph) : List (Mode × Option UInt8) :=
  (String.utf8EncodeChar glyph.char).map (byteView glyph.mode)

theorem length_views
    (glyph : Glyph) :
    glyph.views.length = glyph.char.utf8Size := by
  rw [views, List.length_map, String.length_utf8EncodeChar]

theorem exists_views
    (glyph : Glyph) :
    ∃ byte more, glyph.views = byteView glyph.mode byte :: more := by
  have size := glyph.length_views
  have positive := Char.utf8Size_pos glyph.char
  cases bytes : String.utf8EncodeChar glyph.char with
  | nil =>
      rw [views, bytes, List.map_nil, List.length_nil] at size
      omega
  | cons byte more =>
      exact ⟨byte, more.map (byteView glyph.mode), by rw [views, bytes, List.map_cons]⟩

/-- The views of the bytes are made of their modes and the bytes. -/
theorem flatMap_views
    (glyphs : List Glyph) :
    glyphs.flatMap views =
      List.zipWith byteView (byteModes glyphs) (Text.utf8 (chars glyphs)) :=
  (zipWith_byteModes byteView glyphs).symm

/-- The hidden glyphs at the start have the hidden bytes at the start. -/
theorem takeWhile_views
    (glyphs : List Glyph) :
    (glyphs.flatMap views).takeWhile (fun view => view.1.isHidden) =
        (glyphs.takeWhile fun glyph => glyph.mode.isHidden).flatMap views ∧
      (glyphs.flatMap views).dropWhile (fun view => view.1.isHidden) =
        (glyphs.dropWhile fun glyph => glyph.mode.isHidden).flatMap views := by
  induction glyphs with
  | nil =>
      exact ⟨rfl, rfl⟩
  | cons glyph rest inductionHypothesis =>
      have sameMode : ∀ view ∈ glyph.views, view.1 = glyph.mode := by
        intro view member
        obtain ⟨byte, -, rfl⟩ := List.mem_map.mp member
        rfl
      cases hidden : glyph.mode.isHidden with
      | true =>
          have all : ∀ view ∈ glyph.views, view.1.isHidden = true := by
            intro view member
            rw [sameMode view member, hidden]
          rw [List.flatMap_cons, List.takeWhile_append_of_pos all,
            List.dropWhile_append_of_pos all, inductionHypothesis.1, inductionHypothesis.2]
          simp [hidden]
      | false =>
          obtain ⟨byte, more, shape⟩ := exists_views glyph
          simp [hidden, shape, byteView]

/-- Equal views of characters that are not hidden come from the same glyph. -/
theorem eq_of_views_append
    {first second : Glyph}
    {firstRest secondRest : List (Mode × Option UInt8)}
    (visible : first.mode.isHidden = false)
    (same : first.views ++ firstRest = second.views ++ secondRest) :
    first = second := by
  have sameMode : first.mode = second.mode := by
    obtain ⟨firstByte, firstMore, firstShape⟩ := exists_views first
    obtain ⟨secondByte, secondMore, secondShape⟩ := exists_views second
    rw [firstShape, secondShape, List.cons_append, List.cons_append, List.cons.injEq] at same
    exact congrArg Prod.fst same.1
  -- The bytes of one of the two characters start with those of the other.
  have bytes
      {glyph other : Glyph}
      {extra : List (Mode × Option UInt8)}
      (shown : glyph.mode.isHidden = false)
      (modes : glyph.mode = other.mode)
      (longer : other.views = glyph.views ++ extra) :
      glyph.char = other.char := by
    have injective : Function.Injective (byteView glyph.mode) := by
      intro byte otherByte equal
      simpa [byteView, shown] using equal
    rw [views, ← modes] at longer
    obtain ⟨start, more, shape, startViews, -⟩ := List.map_eq_append_iff.mp longer
    rw [List.map_injective_iff.mpr injective startViews] at shape
    exact char_eq_of_utf8EncodeChar_append shape
  have sameChar : first.char = second.char := by
    rcases List.append_eq_append_iff.mp same with ⟨extra, longer, -⟩ | ⟨extra, longer, -⟩
    · exact bytes visible sameMode longer
    · exact (bytes (sameMode ▸ visible) sameMode.symm longer).symm
  cases first
  cases second
  simp only at sameMode sameChar
  rw [sameMode, sameChar]

theorem eq_nil_of_views
    {glyphs : List Glyph}
    (nothing : glyphs.flatMap views = []) :
    glyphs = [] := by
  cases glyphs with
  | nil =>
      rfl
  | cons glyph rest =>
      obtain ⟨byte, more, shape⟩ := glyph.exists_views
      rw [List.flatMap_cons, shape] at nothing
      cases nothing

theorem length_flatMap_views
    (glyphs : List Glyph) :
    (glyphs.flatMap views).length = byteLength glyphs := by
  induction glyphs with
  | nil =>
      rfl
  | cons glyph rest inductionHypothesis =>
      rw [List.flatMap_cons, List.length_append, length_views, inductionHypothesis,
        byteLength_cons]

end Glyph

/-- Glyphs with the same views of their bytes are aligned. -/
theorem aligned_of_views
    {left right : List Glyph}
    (same : left.flatMap Glyph.views = right.flatMap Glyph.views) :
    Aligned hiddenVeil left right := by
  induction size : left.length using Nat.strongRecOn generalizing left right with
  | ind total inductionHypothesis =>
      cases left with
      | nil =>
          rw [Glyph.eq_nil_of_views same.symm]
          exact .nil
      | cons glyph rest =>
          cases hidden : glyph.mode.isHidden with
          | true =>
              -- The hidden runs at the start have the same bytes, as do the rests.
              obtain ⟨leftRun, leftRest⟩ := Glyph.takeWhile_views (glyph :: rest)
              obtain ⟨rightRun, rightRest⟩ := Glyph.takeWhile_views right
              rw [same, rightRun] at leftRun
              rw [same, rightRest] at leftRest
              have firstRun :
                  (glyph :: rest).takeWhile (fun glyph => glyph.mode.isHidden) =
                    glyph :: rest.takeWhile fun glyph => glyph.mode.isHidden := by
                rw [List.takeWhile_cons, if_pos hidden]
              have firstNonempty :
                  (glyph :: rest).takeWhile (fun glyph => glyph.mode.isHidden) ≠ [] := by
                rw [firstRun]
                exact List.cons_ne_nil _ _
              have secondNonempty : right.takeWhile (fun glyph => glyph.mode.isHidden) ≠ [] := by
                intro nothing
                rw [nothing, List.flatMap_nil] at leftRun
                exact firstNonempty (Glyph.eq_nil_of_views leftRun.symm)
              have sameSize := congrArg List.length leftRun
              rw [Glyph.length_flatMap_views, Glyph.length_flatMap_views] at sameSize
              have shorter :
                  ((glyph :: rest).dropWhile fun glyph => glyph.mode.isHidden).length < total := by
                have within :=
                  (List.dropWhile_sublist (l := rest) fun glyph => glyph.mode.isHidden).length_le
                rw [List.dropWhile_cons, if_pos hidden, ← size, List.length_cons]
                exact Nat.lt_succ_of_le within
              have later := inductionHypothesis _ shorter leftRest.symm rfl
              have whole :=
                Aligned.hidden firstNonempty secondNonempty
                  (fun _ member => List.mem_takeWhile_imp member)
                  (fun _ member => List.mem_takeWhile_imp member) sameSize.symm later
              rwa [List.takeWhile_append_dropWhile, List.takeWhile_append_dropWhile] at whole
          | false =>
              cases right with
              | nil =>
                  rw [Glyph.eq_nil_of_views same]
                  exact .nil
              | cons other otherRest =>
                  rw [List.flatMap_cons, List.flatMap_cons] at same
                  obtain rfl := Glyph.eq_of_views_append hidden same
                  have shorter : rest.length < total := by
                    rw [← size, List.length_cons]
                    exact Nat.lt_succ_self _
                  exact .same glyph
                    (inductionHypothesis _ shorter (List.append_cancel_left same) rfl)

theorem length_utf8_chars
    (glyphs : List Glyph) :
    (Text.utf8 (Glyph.chars glyphs)).length = (byteModes glyphs).length := by
  rw [Text.length_utf8, length_byteModes]
  rfl

/-- Two texts agree at every byte in its mode, and in the byte itself unless it is hidden. -/
structure Agree (left right : Text) : Prop where
  modes : byteModes (scan left) = byteModes (scan right)
  bytes :
    ∀ (index : Nat) (mode : Mode),
      (byteModes (scan left))[index]? = some mode →
        mode = .code ∨ mode = .identifier →
          (Text.utf8 left)[index]? = (Text.utf8 right)[index]?

namespace Agree

variable {left right : Text}

/-- Agreement can be checked byte by byte. -/
theorem iff_bounded :
    Agree left right ↔
      byteModes (scan left) = byteModes (scan right) ∧
        ∀ index < (byteModes (scan left)).length,
          (byteModes (scan left))[index]? = some .code ∨
              (byteModes (scan left))[index]? = some .identifier →
            (Text.utf8 left)[index]? = (Text.utf8 right)[index]? := by
  constructor
  · rintro ⟨modes, bytes⟩
    refine ⟨modes, ?_⟩
    rintro index - (code | identifier)
    · exact bytes index .code code (.inl rfl)
    · exact bytes index .identifier identifier (.inr rfl)
  · rintro ⟨modes, bytes⟩
    refine ⟨modes, ?_⟩
    rintro index mode here visible
    have within : index < (byteModes (scan left)).length :=
      (List.getElem?_eq_some_iff.mp here).1
    rcases visible with rfl | rfl
    · exact bytes index within (.inl here)
    · exact bytes index within (.inr here)

instance : Decidable (Agree left right) :=
  decidable_of_iff _ iff_bounded.symm

theorem views_eq
    (agree : Agree left right) :
    (scan left).flatMap Glyph.views = (scan right).flatMap Glyph.views := by
  have leftSize := length_utf8_chars (scan left)
  have rightSize := length_utf8_chars (scan right)
  rw [Glyph.chars_scan] at leftSize rightSize
  rw [Glyph.flatMap_views, Glyph.flatMap_views, Glyph.chars_scan, Glyph.chars_scan, ← agree.modes]
  rw [← agree.modes] at rightSize
  apply List.ext_getElem?
  intro index
  rw [List.getElem?_zipWith, List.getElem?_zipWith]
  cases here : (byteModes (scan left))[index]? with
  | none =>
      rfl
  | some mode =>
      have within : index < (byteModes (scan left)).length :=
        (List.getElem?_eq_some_iff.mp here).1
      rw [← leftSize] at within
      have leftByte : (Text.utf8 left)[index]? = some _ := List.getElem?_eq_getElem within
      rw [leftSize, ← rightSize] at within
      have rightByte : (Text.utf8 right)[index]? = some _ := List.getElem?_eq_getElem within
      cases hidden : mode.isHidden with
      | true =>
          rw [leftByte, rightByte]
          simp [Glyph.byteView, hidden]
      | false =>
          have visible : mode = .code ∨ mode = .identifier := by
            cases mode with
            | code => exact .inl rfl
            | identifier => exact .inr rfl
            | string => cases hidden
            | lineComment => cases hidden
            | blockComment => cases hidden
          rw [agree.bytes index mode here visible]

theorem aligned
    (agree : Agree left right) :
    Aligned hiddenVeil (scan left) (scan right) :=
  aligned_of_views agree.views_eq

end Agree

namespace Segment

/-- Alike segments of two documents declare the same, but for what is hidden in parameters. -/
theorem filterMap_alike
    {firsts seconds : List Segment}
    (alike : List.Forall₂ (Alike hiddenVeil) firsts seconds)
    (firstScans : ∀ segment ∈ firsts, scan (Glyph.chars segment.region) = segment.region)
    (secondScans : ∀ segment ∈ seconds, scan (Glyph.chars segment.region) = segment.region) :
    (firsts.filterMap declaration?).map Declaration.withoutParameters =
      (seconds.filterMap declaration?).map Declaration.withoutParameters := by
  induction alike with
  | nil =>
      rfl
  | @cons first second firsts seconds heads _ inductionHypothesis =>
      have later :=
        inductionHypothesis
          (fun segment member => firstScans segment (List.mem_cons_of_mem _ member))
          fun segment member => secondScans segment (List.mem_cons_of_mem _ member)
      have here :=
        declaration?_alike heads (firstScans first List.mem_cons_self)
          (secondScans second List.mem_cons_self)
      simp only [List.map_filterMap] at later ⊢
      rw [List.filterMap_cons, List.filterMap_cons, here, later]

end Segment

namespace Declaration

/-- What strings and comments hold does not influence where and what declarations are. -/
theorem parse_eq_of_agree
    {left right : Text}
    (agree : Agree left right) :
    (parse left).map withoutParameters = (parse right).map withoutParameters := by
  rw [parse_eq_segments, parse_eq_segments]
  exact Segment.filterMap_alike (Segment.segmentsFrom_aligned 0 agree.aligned rfl)
    (fun _ member => Segment.scan_region member) fun _ member => Segment.scan_region member

/-- Harmless strings and comments in a declaration. -/
def harmless : Text :=
  "create function \"f\"(a text = 'abcd') /*12345678*/ begin --xyz\nx := 'end;'; end;".toList

/-- The same text with parentheses, keywords and other characters in their place. -/
def hostile : Text :=
  "create function \"f\"(a text = ')(é') /*\nend; é*/ begin --;()\nx := '日;'; end;".toList

theorem parse_eq_of_agree_hostile :
    Agree harmless hostile ∧
      harmless ≠ hostile ∧
        (parse harmless).length = 1 ∧
          (parse harmless).map withoutParameters = (parse hostile).map withoutParameters := by
  have agree : Agree harmless hostile := by decide +kernel
  exact ⟨agree, by decide +kernel, by decide +kernel, parse_eq_of_agree agree⟩

end Declaration

end RoutineServer
