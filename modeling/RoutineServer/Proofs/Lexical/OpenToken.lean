import RoutineServer.Proofs.Lexical.Resume
import RoutineServer.Proofs.Lexical.Token

namespace RoutineServer

/-!
# What is open at a place

A token is open from the first byte of its opening delimiter to the last byte of
its closing one. A scan that has read a text up to a place is in code there
exactly if no comment, string or quoted identifier is open at the place.
-/

/--
What a scan has open behind a piece of a text. The rest of the text counts,
because the last character of the piece may be the first half of a delimiter.
-/
def scanBehind : ScanState → Text → Text → ScanState
  | state, [], _ => state
  | state, char :: more, rest => scanBehind (state.step char (more ++ rest).head?).2 more rest

theorem scanBehind_append
    (state : ScanState)
    (first second rest : Text) :
    scanBehind state (first ++ second) rest =
      scanBehind (scanBehind state first (second ++ rest)) second rest := by
  induction first generalizing state with
  | nil =>
      rfl
  | cons char more inductionHypothesis =>
      rw [List.cons_append, scanBehind, inductionHypothesis, scanBehind, List.append_assoc]

/-- Behind a piece, a scan goes on with what it has open there. -/
theorem scanFrom_append_eq
    (state : ScanState)
    (front back : Text) :
    ∃ glyphs,
      glyphs.length = front.length ∧
        scanFrom state (front ++ back) =
          glyphs ++ scanFrom (scanBehind state front back) back := by
  induction front generalizing state with
  | nil =>
      exact ⟨[], rfl, rfl⟩
  | cons char more inductionHypothesis =>
      obtain ⟨glyphs, size, scans⟩ :=
        inductionHypothesis (state.step char (more ++ back).head?).2
      refine ⟨⟨char, (state.step char (more ++ back).head?).1⟩ :: glyphs, by simp [size], ?_⟩
      rw [List.cons_append, scanFrom, scans]
      rfl

/-- What a scan of bytes, each of them read as a character, has open behind some of them. -/
def byteBehind (state : ScanState) (bytes rest : List UInt8) : ScanState :=
  scanBehind state (bytes.map Char.ofUInt8) (rest.map Char.ofUInt8)

@[simp] theorem byteBehind_nil
    (state : ScanState)
    (rest : List UInt8) :
    byteBehind state [] rest = state := rfl

theorem byteBehind_cons
    (state : ScanState)
    (byte : UInt8)
    (more rest : List UInt8) :
    byteBehind state (byte :: more) rest =
      byteBehind (state.step (Char.ofUInt8 byte) ((more ++ rest).head?.map Char.ofUInt8)).2
        more rest := by
  simp [byteBehind, scanBehind, ← List.map_append]

theorem byteBehind_append
    (state : ScanState)
    (first second rest : List UInt8) :
    byteBehind state (first ++ second) rest =
      byteBehind (byteBehind state first (second ++ rest)) second rest := by
  simp only [byteBehind, List.map_append, scanBehind_append]

/-- Bytes outside ASCII open and close nothing. -/
theorem byteBehind_of_wide
    {bytes : List UInt8}
    (state : ScanState)
    (rest : List UInt8)
    (nonempty : bytes ≠ [])
    (wide : ∀ byte ∈ bytes, 128 ≤ byte.toNat) :
    byteBehind state bytes rest = state.pass := by
  induction bytes generalizing state with
  | nil =>
      exact absurd rfl nonempty
  | cons byte more inductionHypothesis =>
      have high : 128 ≤ (Char.ofUInt8 byte).toNat := by
        rw [toNat_ofUInt8]
        exact wide byte List.mem_cons_self
      rw [byteBehind_cons, state.step_of_wide _ high]
      cases more with
      | nil =>
          rfl
      | cons next others =>
          rw [inductionHypothesis state.pass (List.cons_ne_nil _ _)
            fun byte member => wide byte (List.mem_cons_of_mem _ member), state.pass_pass]

/-- A scan of the bytes of a text has the same open as a scan of its characters. -/
theorem byteBehind_utf8
    (state : ScanState)
    (front back : Text) :
    byteBehind state (Text.utf8 front) (Text.utf8 back) = scanBehind state front back := by
  induction front generalizing state with
  | nil =>
      rfl
  | cons char more inductionHypothesis =>
      have first :
          byteBehind state (String.utf8EncodeChar char) (Text.utf8 (more ++ back)) =
            (state.step char (more ++ back).head?).2 := by
        by_cases ascii : char.toNat < 128
        · rw [utf8EncodeChar_of_ascii ascii, byteBehind_cons, byteBehind_nil, List.nil_append,
            ofUInt8_toUInt8 ascii,
            state.step_congr char (head?_utf8_eq_some_iff '-' (more ++ back) (by decide))
              (head?_utf8_eq_some_iff '*' (more ++ back) (by decide))]
        · have wide : 128 ≤ char.toNat := Nat.le_of_not_lt ascii
          have nonempty : String.utf8EncodeChar char ≠ [] := by
            rw [← List.length_pos_iff, String.length_utf8EncodeChar]
            exact char.utf8Size_pos
          rw [byteBehind_of_wide state _ nonempty fun _ => le_of_mem_utf8EncodeChar wide,
            state.step_of_wide _ wide]
      have together : Text.utf8 more ++ Text.utf8 back = Text.utf8 (more ++ back) :=
        List.flatMap_append.symm
      rw [Text.utf8_cons, byteBehind_append, together, first, inductionHypothesis]
      rfl

section Inside

variable {mode : Mode} {state : ScanState} {part : List UInt8}

theorem Inside.ne_code
    (inside : Inside mode state) :
    state ≠ .code := by
  cases inside <;> exact ScanState.noConfusion

theorem byteBehind_closing
    (inside : Inside mode state)
    (rest : List UInt8) :
    byteBehind state mode.closing rest = .code := by
  cases inside with
  | string => rfl
  | identifier => rfl
  | lineComment => rfl
  | blockComment afterStar =>
      cases afterStar with
      | false => rfl
      | true => rfl

/-- What a closing delimiter of one byte closes is open in front of that byte. -/
theorem byteBehind_until
    (state : ScanState)
    (closing : UInt8)
    (steps :
      ∀ byte next,
        (state.step (Char.ofUInt8 byte) next).2 = if byte = closing then .code else state)
    (never : ¬ [closing] <:+: part)
    (rest : List UInt8) :
    byteBehind state part rest = state := by
  induction part with
  | nil =>
      rfl
  | cons byte more inductionHypothesis =>
      rw [List.infix_cons_iff, not_or] at never
      have other : byte ≠ closing := by
        rintro rfl
        exact never.1 ⟨more, rfl⟩
      rw [byteBehind_cons, steps, if_neg other, inductionHypothesis never.2]

/-- A block comment is open in front of its closing delimiter, and between its two bytes. -/
theorem byteBehind_blockComment
    (afterStar : Bool)
    (never : ¬ Mode.closing .blockComment <:+: part)
    (quiet : afterStar = true → part.head? ≠ some '/'.toUInt8)
    (rest : List UInt8) :
    ∃ later, byteBehind (.inBlockComment afterStar) part rest = .inBlockComment later := by
  induction part generalizing afterStar with
  | nil =>
      exact ⟨afterStar, rfl⟩
  | cons byte more inductionHypothesis =>
      rw [List.infix_cons_iff, not_or] at never
      have stays : (afterStar && Char.ofUInt8 byte == '/') = false := by
        cases afterStar with
        | false =>
            rfl
        | true =>
            rw [Bool.true_and, beq_eq_false_iff_ne, ne_eq, ofUInt8_eq_iff '/' (by decide)]
            rintro rfl
            exact quiet rfl rfl
      -- A slash behind a star would have closed the comment.
      have nextQuiet :
          (Char.ofUInt8 byte == '*') = true → more.head? ≠ some '/'.toUInt8 := by
        intro star slash
        rw [beq_iff_eq, ofUInt8_eq_iff '*' (by decide)] at star
        obtain ⟨others, rfl⟩ := List.head?_eq_some_iff.mp slash
        exact never.1 ⟨others, by rw [star]; rfl⟩
      obtain ⟨later, ends⟩ := inductionHypothesis _ never.2 nextQuiet
      refine ⟨later, ?_⟩
      rw [byteBehind_cons, ← ends]
      simp [ScanState.step, stays]

/-- A token is open as long as its closing delimiter has not been read. -/
theorem inside_of_not_within
    (delimited : mode ≠ .code)
    (never : ¬ mode.closing <:+: part)
    (rest : List UInt8) :
    Inside mode (byteBehind mode.entered part rest) := by
  cases mode with
  | code =>
      exact absurd rfl delimited
  | string =>
      have same : byteBehind .inString part rest = .inString := by
        refine byteBehind_until .inString '\x27'.toUInt8 ?_ never rest
        intro byte next
        simp [ScanState.step, ofUInt8_eq_iff '\x27' (by decide)]
      exact same ▸ .string
  | identifier =>
      have same : byteBehind .inIdentifier part rest = .inIdentifier := by
        refine byteBehind_until .inIdentifier '"'.toUInt8 ?_ never rest
        intro byte next
        simp [ScanState.step, ofUInt8_eq_iff '"' (by decide)]
      exact same ▸ .identifier
  | lineComment =>
      have same : byteBehind .inLineComment part rest = .inLineComment := by
        refine byteBehind_until .inLineComment '\n'.toUInt8 ?_ never rest
        intro byte next
        simp [ScanState.step, ofUInt8_eq_iff '\n' (by decide)]
      exact same ▸ .lineComment
  | blockComment =>
      obtain ⟨later, same⟩ := byteBehind_blockComment false never (by simp) rest
      exact same ▸ .blockComment later

end Inside

section Token

variable {token : Token} {part tail rest : List UInt8}

/-- Whether a token is still open when a part of it has been read. -/
def Token.OpenAfter (token : Token) (part : List UInt8) : Prop :=
  token.mode ≠ .code ∧ ¬ token.mode.closing <:+: part.drop token.mode.opening.length

/-- A byte of code leaves nothing open. -/
theorem byteBehind_code
    {byte : UInt8}
    (plain : ∀ mode : Mode, mode ≠ .code → ¬ mode.opening <+: byte :: rest) :
    byteBehind .code [byte] rest = .code := by
  have scans := byteScan_code plain
  rw [byteScan_cons, List.cons.injEq] at scans
  rw [byteBehind_cons, byteBehind_nil]
  exact (ScanState.step_eq_code scans.1).2

theorem byteBehind_opening
    {mode : Mode}
    (delimited : mode ≠ .code)
    (rest : List UInt8) :
    byteBehind .code mode.opening rest = mode.entered := by
  cases mode with
  | code => exact absurd rfl delimited
  | string => rfl
  | identifier => rfl
  | lineComment => rfl
  | blockComment => rfl

/-- The first byte of an opening delimiter of two bytes opens the token. -/
theorem byteBehind_opening_part
    {mode : Mode}
    (split : mode.opening = part ++ tail)
    (begun : part ≠ [])
    (unfinished : tail ≠ [])
    (rest : List UInt8) :
    byteBehind .code part (tail ++ rest) ≠ .code := by
  obtain ⟨first, more, rfl⟩ := List.exists_cons_of_ne_nil begun
  obtain ⟨second, others, rfl⟩ := List.exists_cons_of_ne_nil unfinished
  cases mode with
  | code => cases split
  | string => cases more <;> cases split
  | identifier => cases more <;> cases split
  | lineComment =>
      cases more with
      | nil =>
          cases split
          exact ScanState.noConfusion
      | cons next further => cases further <;> cases split
  | blockComment =>
      cases more with
      | nil =>
          cases split
          exact ScanState.noConfusion
      | cons next further => cases further <;> cases split

/-- A part with a closing delimiter is all of what is cut behind the delimiter. -/
theorem Cut.eq_of_within
    {closing content : List UInt8}
    (cut : Cut closing content rest)
    (split : content = part ++ tail)
    (closed : closing <:+: part) :
    tail = [] ∧ ∃ body, content = body ++ closing ∧ ClosedFirst closing body rest := by
  obtain ⟨front, back, rfl⟩ := closed
  cases cut with
  | @closed body _ first =>
      have again :
          body ++ (closing ++ rest) = front ++ (closing ++ (back ++ (tail ++ rest))) := by
        rw [← List.append_assoc, split]
        simp only [List.append_assoc]
      have bound := first.length_le again
      have size := congrArg List.length split
      simp only [List.length_append] at size
      exact ⟨List.length_eq_zero_iff.mp (by omega), body, rfl, first⟩
  | unclosed never =>
      refine absurd ⟨front, back ++ tail, ?_⟩ never
      rw [split]
      simp only [List.append_assoc]

/-- A part of what is delimited ends in its opening delimiter or behind it. -/
theorem opening_append_eq_append
    {opening content : List UInt8}
    (split : opening ++ content = part ++ tail) :
    (∃ missing,
      missing ≠ [] ∧ opening = part ++ missing ∧ tail = missing ++ content ∧
        part.drop opening.length = []) ∨
      ∃ inside, part = opening ++ inside ∧ content = inside ++ tail := by
  rcases List.append_eq_append_iff.mp split with ⟨inside, isPart, isContent⟩ |
    ⟨missing, isOpening, isTail⟩
  · exact .inr ⟨inside, isPart, isContent⟩
  · cases missing with
    | nil =>
        rw [List.append_nil] at isOpening
        exact .inr ⟨[], by rw [isOpening, List.append_nil], by rw [isTail]; rfl⟩
    | cons byte more =>
        refine .inl ⟨byte :: more, List.cons_ne_nil _ _, isOpening, isTail, ?_⟩
        rw [isOpening, List.drop_eq_nil_iff, List.length_append]
        exact Nat.le_add_right _ _

/-- A scan has something open behind a part of a token exactly if the token is open there. -/
theorem IsToken.byteBehind_ne_code_iff
    (isToken : IsToken token rest)
    (split : token.bytes = part ++ tail)
    (begun : part ≠ []) :
    byteBehind .code part (tail ++ rest) ≠ .code ↔ token.OpenAfter part := by
  cases isToken with
  | @code byte _ plain =>
      have isPart : part = [byte] ∧ tail = [] := by
        rcases List.append_eq_singleton_iff.mp split.symm with ⟨isEmpty, -⟩ | both
        · exact absurd isEmpty begun
        · exact both
      obtain ⟨rfl, rfl⟩ := isPart
      rw [List.nil_append, byteBehind_code plain]
      simp [Token.OpenAfter]
  | @delimited mode content _ delimited cut =>
      simp only [Token.OpenAfter, ne_eq, delimited, not_false_eq_true, true_and]
      rcases opening_append_eq_append split with ⟨missing, unfinished, isOpening, rfl, nothing⟩ |
        ⟨inside, rfl, isContent⟩
      · -- Inside the opening delimiter nothing has been read that could close the token.
        rw [nothing, List.infix_nil, List.append_assoc]
        exact iff_of_true (byteBehind_opening_part isOpening begun unfinished _)
          (Mode.closing_ne_nil delimited)
      · rw [List.drop_left, byteBehind_append, byteBehind_opening delimited]
        by_cases closed : mode.closing <:+: inside
        · obtain ⟨rfl, body, isBody, first⟩ := cut.eq_of_within isContent closed
          have never := first.not_infix (Mode.closing_ne_nil delimited)
          rw [List.append_nil] at isContent
          have ends : byteBehind mode.entered inside ([] ++ rest) = .code := by
            rw [← isContent, isBody, byteBehind_append,
              byteBehind_closing (inside_of_not_within delimited never _)]
          exact iff_of_false (fun remains => remains ends) (fun remains => remains closed)
        · exact iff_of_true (inside_of_not_within delimited closed _).ne_code closed

/-- A token that is not open any more ends here, with its closing delimiter. -/
theorem IsToken.suffix_of_closed
    (isToken : IsToken token rest)
    (split : token.bytes = part ++ tail)
    (delimited : token.mode ≠ .code)
    (closed : ¬ token.OpenAfter part) :
    tail = [] ∧ token.mode.closing <:+ part := by
  have found : token.mode.closing <:+: part.drop token.mode.opening.length := by
    by_contra never
    exact closed ⟨delimited, never⟩
  cases isToken with
  | code =>
      exact absurd rfl delimited
  | @delimited mode content _ _ cut =>
      rcases opening_append_eq_append split with ⟨missing, -, -, -, nothing⟩ |
        ⟨inside, rfl, isContent⟩
      · rw [nothing, List.infix_nil] at found
        exact absurd found (Mode.closing_ne_nil delimited)
      · rw [List.drop_left] at found
        obtain ⟨rfl, body, isBody, -⟩ := cut.eq_of_within isContent found
        rw [List.append_nil] at isContent
        exact ⟨rfl, mode.opening ++ body, by rw [← isContent, isBody, List.append_assoc]⟩

/-- A token that has bytes behind it is closed at its end. -/
theorem IsToken.not_openAfter
    (isToken : IsToken token rest)
    (more : rest ≠ []) :
    ¬ token.OpenAfter token.bytes := by
  rintro ⟨delimited, never⟩
  cases isToken with
  | code =>
      exact delimited rfl
  | delimited _ cut =>
      cases cut with
      | @closed body _ _ =>
          rw [List.drop_left] at never
          exact never ⟨body, [], List.append_nil _⟩
      | unclosed =>
          exact more rfl

end Token

section Tokens

variable {bytes : List UInt8} {tokens front back : List Token}

theorem Tokenized.eq_flatMap
    (tokenized : Tokenized bytes tokens) :
    bytes = tokens.flatMap Token.bytes := by
  induction tokenized with
  | nil =>
      rfl
  | cons _ _ inductionHypothesis =>
      rw [List.flatMap_cons, ← inductionHypothesis]

theorem Tokenized.ne_nil
    (tokenized : Tokenized bytes tokens)
    (some : tokens ≠ []) :
    bytes ≠ [] := by
  cases tokenized with
  | nil => exact absurd rfl some
  | cons isToken _ => exact List.append_ne_nil_of_left_ne_nil isToken.bytes_ne_nil _

theorem Tokenized.isToken
    {token : Token}
    (tokenized : Tokenized bytes (front ++ token :: back)) :
    IsToken token (back.flatMap Token.bytes) := by
  have later := tokenized.of_append
  generalize bytes.drop (front.flatMap Token.bytes).length = others at later
  cases later with
  | cons isToken rest => exact rest.eq_flatMap ▸ isToken

/-- Between two tokens nothing is open. -/
theorem Tokenized.byteBehind_eq_code
    (tokenized : Tokenized bytes (front ++ back))
    (more : back ≠ []) :
    byteBehind .code (front.flatMap Token.bytes) (back.flatMap Token.bytes) = .code := by
  induction front generalizing bytes with
  | nil =>
      rfl
  | cons token others inductionHypothesis =>
      rw [List.cons_append] at tokenized
      cases tokenized with
      | @cons _ rest _ isToken later =>
          have nonempty : rest ≠ [] := later.ne_nil (List.append_ne_nil_of_right_ne_nil _ more)
          have ends : byteBehind .code token.bytes rest = .code := by
            have reached :=
              isToken.byteBehind_ne_code_iff (List.append_nil token.bytes).symm isToken.bytes_ne_nil
            by_contra remains
            exact isToken.not_openAfter nonempty (reached.mp remains)
          rw [later.eq_flatMap, List.flatMap_append] at ends
          rw [List.flatMap_cons, byteBehind_append, ends, inductionHypothesis later]

/--
An offset lies in a token or at its end, with the given part of the token in
front of it.
-/
def ReadUpTo (bytes : List UInt8) (offset : Nat) (token : Token) (part : List UInt8) : Prop :=
  ∃ front back tail,
    Tokenized bytes (front ++ token :: back) ∧ token.bytes = part ++ tail ∧ part ≠ [] ∧
      (front.flatMap Token.bytes ++ part).length = offset

/-- Every offset but the first lies in a token or at its end. -/
theorem Tokenized.exists_readUpTo
    {offset : Nat}
    (tokenized : Tokenized bytes tokens)
    (positive : 0 < offset)
    (within : offset ≤ bytes.length) :
    ∃ token part, ReadUpTo bytes offset token part := by
  induction tokenized generalizing offset with
  | nil =>
      exact absurd (Nat.lt_of_lt_of_le positive within) (Nat.lt_irrefl _)
  | @cons token rest tokens isToken later inductionHypothesis =>
      by_cases here : offset ≤ token.bytes.length
      · have size : (token.bytes.take offset).length = offset := List.length_take_of_le here
        refine ⟨token, token.bytes.take offset, [], tokens, token.bytes.drop offset,
          .cons isToken later, (List.take_append_drop _ _).symm, ?_, size⟩
        rw [← List.length_pos_iff, size]
        exact positive
      · rw [List.length_append] at within
        obtain ⟨found, part, front, back, tail, split, isFound, begun, size⟩ :=
          @inductionHypothesis (offset - token.bytes.length) (by omega) (by omega)
        refine ⟨found, part, token :: front, back, tail, .cons isToken split, isFound, begun, ?_⟩
        rw [List.flatMap_cons, List.append_assoc, List.length_append, size]
        omega

section ReadUpTo

variable {offset : Nat} {token : Token} {part : List UInt8}

/-- The bytes in front of an offset and behind it, cut at the tokens around it. -/
theorem ReadUpTo.exists_cut
    (reads : ReadUpTo bytes offset token part) :
    ∃ front back tail,
      Tokenized bytes (front ++ token :: back) ∧ token.bytes = part ++ tail ∧ part ≠ [] ∧
        bytes.take offset = front.flatMap Token.bytes ++ part ∧
          bytes.drop offset = tail ++ back.flatMap Token.bytes := by
  obtain ⟨front, back, tail, tokenized, split, begun, rfl⟩ := reads
  have whole :
      bytes =
        (front.flatMap Token.bytes ++ part) ++ (tail ++ back.flatMap Token.bytes) := by
    rw [tokenized.eq_flatMap, List.flatMap_append, List.flatMap_cons, split]
    simp only [List.append_assoc]
  refine ⟨front, back, tail, tokenized, split, begun, ?_, ?_⟩
  · rw [whole, List.take_left]
  · rw [whole, List.drop_left]

/-- A scan that has read up to an offset has something open exactly if the token there is open. -/
theorem ReadUpTo.byteBehind_ne_code_iff
    (reads : ReadUpTo bytes offset token part) :
    byteBehind .code (bytes.take offset) (bytes.drop offset) ≠ .code ↔ token.OpenAfter part := by
  obtain ⟨front, back, tail, tokenized, split, begun, isFront, isBack⟩ := reads.exists_cut
  have closed := tokenized.byteBehind_eq_code (List.cons_ne_nil _ _)
  rw [List.flatMap_cons, split, List.append_assoc] at closed
  rw [isFront, isBack, byteBehind_append, closed]
  exact tokenized.isToken.byteBehind_ne_code_iff split begun

/-- A token that is not open at an offset ends there, with its closing delimiter. -/
theorem ReadUpTo.suffix_of_closed
    (reads : ReadUpTo bytes offset token part)
    (delimited : token.mode ≠ .code)
    (closed : ¬ token.OpenAfter part) :
    part = token.bytes ∧ token.mode.closing <:+ part := by
  obtain ⟨front, back, tail, tokenized, split, -, -⟩ := reads
  obtain ⟨rfl, ends⟩ := tokenized.isToken.suffix_of_closed split delimited closed
  rw [List.append_nil] at split
  exact ⟨split.symm, ends⟩

/-- The byte in front of an offset is the last one that was read of the token. -/
theorem ReadUpTo.getLast?_take
    (reads : ReadUpTo bytes offset token part) :
    (bytes.take offset).getLast? = part.getLast? := by
  obtain ⟨front, back, tail, -, -, begun, isFront, -⟩ := reads.exists_cut
  rw [isFront, List.getLast?_append, List.getLast?_eq_some_getLast begun, Option.some_or]

/-- It has the mode of the token. -/
theorem ReadUpTo.mode_eq
    (reads : ReadUpTo bytes offset token part) :
    (byteScan .code bytes)[offset - 1]? = some token.mode := by
  obtain ⟨front, back, tail, tokenized, split, begun, rfl⟩ := reads
  have sizes : (front.flatMap Token.modes).length = (front.flatMap Token.bytes).length := by
    simp [List.length_flatMap, Token.modes]
  have positive := List.length_pos_iff.mpr begun
  have size := congrArg List.length split
  rw [List.length_append] at size
  have within :
      (front.flatMap Token.bytes ++ part).length - 1 - (front.flatMap Token.modes).length <
        token.bytes.length := by
    rw [sizes, List.length_append]
    omega
  rw [tokenized.byteScan_eq, List.flatMap_append, List.flatMap_cons,
    List.getElem?_append_right (by rw [sizes, List.length_append]; omega),
    List.getElem?_append_left (by rwa [Token.modes, List.length_replicate]), Token.modes,
    List.getElem?_replicate, if_pos within]

end ReadUpTo

end Tokens

/-- A comment, a string or a quoted identifier of a text is open at an offset. -/
def OpenAt (text : Text) (offset : Nat) : Prop :=
  ∃ token part, ReadUpTo (Text.utf8 text) offset token part ∧ token.OpenAfter part

/-- A comment of a text ends at an offset. -/
def CommentEndsAt (text : Text) (offset : Nat) : Prop :=
  ∃ token,
    ReadUpTo (Text.utf8 text) offset token token.bytes ∧
      (token.mode = .lineComment ∨ token.mode = .blockComment) ∧ ¬ token.OpenAfter token.bytes

/-- What a scan has open when it has read a text up to an offset. -/
def stateAt (text : Text) (offset : Nat) : ScanState :=
  scanBehind .code (Text.before offset text) (Text.after offset text)

/-- With this, the scan goes on behind the offset. -/
theorem drop_scan
    (text : Text)
    (offset : Nat) :
    (scan text).drop (Text.before offset text).length =
      scanFrom (stateAt text offset) (Text.after offset text) := by
  obtain ⟨glyphs, size, scans⟩ :=
    scanFrom_append_eq .code (Text.before offset text) (Text.after offset text)
  rw [Text.before_append_after] at scans
  rw [scan, scans, ← size, List.drop_left]
  rfl

theorem stateAt_eq_byteBehind
    {text : Text}
    {offset : Nat}
    (boundary : Text.isBoundary offset text = true) :
    stateAt text offset =
      byteBehind .code ((Text.utf8 text).take offset) ((Text.utf8 text).drop offset) := by
  rw [stateAt, ← byteBehind_utf8, Text.utf8_before boundary, Text.utf8_after boundary]

/-- Every place of a text but its start lies in a token or at its end. -/
theorem exists_readUpTo
    {text : Text}
    {offset : Nat}
    (boundary : Text.isBoundary offset text = true)
    (positive : 0 < offset) :
    ∃ token part, ReadUpTo (Text.utf8 text) offset token part := by
  have within : offset ≤ (Text.utf8 text).length := by
    obtain ⟨front, back, rfl, rfl⟩ := Text.isBoundary_iff.mp boundary
    rw [Text.length_utf8, Text.byteLength_append]
    exact Nat.le_add_right _ _
  obtain ⟨tokens, tokenized⟩ := Tokenized.exists (Text.utf8 text)
  exact tokenized.exists_readUpTo positive within

section Places

variable {text : Text} {offset : Nat} {token : Token} {part : List UInt8}

/-- One token of a place decides whether something is open there. -/
theorem ReadUpTo.openAt_iff
    (reads : ReadUpTo (Text.utf8 text) offset token part) :
    OpenAt text offset ↔ token.OpenAfter part := by
  constructor
  · rintro ⟨other, otherPart, otherReads, opened⟩
    exact reads.byteBehind_ne_code_iff.mp (otherReads.byteBehind_ne_code_iff.mpr opened)
  · intro opened
    exact ⟨token, part, reads, opened⟩

/-- It decides as well whether a comment ends there. -/
theorem ReadUpTo.commentEndsAt_iff
    (reads : ReadUpTo (Text.utf8 text) offset token part) :
    CommentEndsAt text offset ↔
      (token.mode = .lineComment ∨ token.mode = .blockComment) ∧ ¬ token.OpenAfter part := by
  constructor
  · rintro ⟨other, otherReads, isComment, closed⟩
    have sameMode : some token.mode = some other.mode := reads.mode_eq.symm.trans otherReads.mode_eq
    rw [Option.some.injEq] at sameMode
    rw [sameMode]
    exact ⟨isComment, fun opened => closed (otherReads.openAt_iff.mp ⟨token, part, reads, opened⟩)⟩
  · rintro ⟨isComment, closed⟩
    have delimited : token.mode ≠ .code := by
      rcases isComment with isLine | isBlock
      · rw [isLine]
        exact Mode.noConfusion
      · rw [isBlock]
        exact Mode.noConfusion
    obtain ⟨rfl, -⟩ := reads.suffix_of_closed delimited closed
    exact ⟨token, reads, isComment, closed⟩

/-- A scan has something open at a place exactly if a token is open there. -/
theorem stateAt_ne_code_iff
    (boundary : Text.isBoundary offset text = true) :
    stateAt text offset ≠ .code ↔ OpenAt text offset := by
  rw [stateAt_eq_byteBehind boundary]
  constructor
  · intro remains
    have positive : 0 < offset := by
      refine Nat.pos_of_ne_zero ?_
      rintro rfl
      exact remains rfl
    obtain ⟨token, part, reads⟩ := exists_readUpTo boundary positive
    exact ⟨token, part, reads, reads.byteBehind_ne_code_iff.mp remains⟩
  · rintro ⟨token, part, reads, opened⟩
    exact reads.byteBehind_ne_code_iff.mpr opened

end Places

end RoutineServer
