import RoutineServer.Proofs.Routine.Walk

namespace RoutineServer

/-!
# The outer end of a body

A body is a block: `BEGIN`, items and `END`. Items are blocks and `CASE`
expressions, which close with `END` or `END CASE`, the ends of `IF` and `LOOP`
statements, which are not counted, and code that bounds no block. The walk
through such a body comes back to the depth at which it enters each item, so the
only `END` it stops at is the outer one.
-/

/-- No word of a text bounds a block or a `CASE` expression. -/
def BlockFree (code : Text) : Prop :=
  ∀ word ∈ codeWords code,
    ¬ IsKeyword "begin" word ∧ ¬ IsKeyword "case" word ∧ ¬ IsKeyword "end" word

instance (code : Text) : Decidable (BlockFree code) :=
  List.decidableBAll _ (codeWords code)

/-- Code between the items of a block. -/
structure Neutral (code : Text) : Prop where
  blockFree : BlockFree code
  dollars : dollarsBeforeDigits code = true

instance (code : Text) : Decidable (Neutral code) :=
  decidable_of_iff (BlockFree code ∧ dollarsBeforeDigits code = true)
    ⟨fun ⟨blockFree, dollars⟩ => ⟨blockFree, dollars⟩,
      fun ⟨blockFree, dollars⟩ => ⟨blockFree, dollars⟩⟩

/-- The items of a block, from neutral code to blocks nested to any depth. -/
inductive BlockItems : Text → Prop where
  | code {code : Text} :
      Neutral code →
      BlockItems code
  /-- `BEGIN items END` or `CASE items END`, and more items. -/
  | enclosed {lead opening inside closing rest : Text} :
      Neutral lead →
      IsKeyword "begin" opening ∨ IsKeyword "case" opening →
      BlockItems inside →
      IsKeyword "end" closing →
      BlockWalk.PlainEnd rest →
      BlockItems rest →
      Delimited lead opening (inside ++ closing) →
      Delimited inside closing rest →
      BlockItems (lead ++ (opening ++ (inside ++ (closing ++ rest))))
  /-- `CASE items END CASE`, and more items. -/
  | endCase {lead opening inside closing gap again rest : Text} :
      Neutral lead →
      IsKeyword "case" opening →
      BlockItems inside →
      IsKeyword "end" closing →
      IsGap gap →
      IsKeyword "case" again →
      BlockItems rest →
      Delimited lead opening (inside ++ closing) →
      Delimited inside closing (gap ++ again) →
      Delimited gap again rest →
      BlockItems (lead ++ (opening ++ (inside ++ (closing ++ (gap ++ (again ++ rest))))))
  /-- `END IF` or `END LOOP`, and more items. -/
  | endOther {lead closing gap statement rest : Text} :
      Neutral lead →
      IsKeyword "end" closing →
      IsGap gap →
      IsKeyword "if" statement ∨ IsKeyword "loop" statement →
      BlockItems rest →
      Delimited lead closing (gap ++ statement) →
      Delimited gap statement rest →
      BlockItems (lead ++ (closing ++ (gap ++ (statement ++ rest))))

theorem isWord_begin
    {word : Text}
    (begins : IsKeyword "begin" word) :
    IsWord word :=
  begins.isWord (by decide)

theorem isWord_case
    {word : Text}
    (opens : IsKeyword "case" word) :
    IsWord word :=
  opens.isWord (by decide)

theorem isWord_end
    {word : Text}
    (ends : IsKeyword "end" word) :
    IsWord word :=
  ends.isWord (by decide)

/-- Code that ends outside of words has something behind each of them. -/
theorem outside_of_suffix
    {code word rest : Text}
    (outside : code.getLast?.any isKeywordChar = false)
    (isWord : IsWord word)
    (suffix : word ++ rest <:+ code) :
    rest ≠ [] ∧ rest.getLast?.any isKeywordChar = false := by
  obtain ⟨front, rfl⟩ := suffix
  rw [List.getLast?_append_of_ne_nil _ (by simp [isWord.nonempty])] at outside
  have nonempty : rest ≠ [] := by
    rintro rfl
    rw [List.append_nil, isWord.getLast] at outside
    cases outside
  rw [List.getLast?_append_of_ne_nil _ nonempty] at outside
  exact ⟨nonempty, outside⟩

namespace BlockWalk

/-- An `END` stays plain if another one follows the items behind it. -/
theorem PlainEnd.append
    {rest closing more : Text}
    (plain : PlainEnd rest)
    (closes : IsKeyword "end" closing)
    (delimited : Delimited rest closing more) :
    PlainEnd (rest ++ (closing ++ more)) := by
  by_cases gap : IsGap rest
  · have next : nextWord (rest ++ (closing ++ more)) = closing := by
      have isWord := isWord_end closes
      rw [nextWord, (gap.trimStart_append (isWord.head_visible more)).1,
        isWord.takeWhile_append delimited.after]
    constructor
    · rw [next]
      exact closes.other (by decide)
    · rw [next]
      exact closes.other (by decide)
    · rw [next]
      exact closes.other (by decide)
  · have next : nextWord (rest ++ (closing ++ more)) = nextWord rest :=
      nextWord_append (delimited.before.append_right (isWord_end closes).nonempty more) gap
    constructor
    · rw [next]
      exact plain.notIf
    · rw [next]
      exact plain.notLoop
    · rw [next]
      exact plain.notCase

/-- A walk inside a block, with a number of levels open. -/
structure InBlock (depth : Int) (walk : BlockWalk) : Prop where
  begun : walk.begun = true
  depth_eq : walk.depth = depth

variable {walk : BlockWalk} {depth : Int}

theorem InBlock.endsAtSemicolon
    (inside : walk.InBlock depth) :
    walk.endsAtSemicolon = false := by
  simp [BlockWalk.endsAtSemicolon, inside.begun]

/-- Neutral code leaves the levels as they are. -/
theorem InBlock.passes_neutral
    (inside : walk.InBlock depth)
    {code following : Text}
    (neutral : Neutral code)
    (apart : WordBreak code following) :
    ∃ resumed : BlockWalk, resumed.InBlock depth ∧ walk.Passes code following resumed := by
  have carries : Carries code following fun _ walk => walk.InBlock depth := {
    dollars := neutral.dollars
    apart := apart
    semicolon := fun _ _ _ _ kept => kept.endsAtSemicolon
    other := fun _ _ _ _ kept => kept
    word := by
      intro passed word rest walk whole isWord delimited member kept
      obtain ⟨notBegin, notCase, notEnd⟩ := neutral.blockFree word member
      exact ⟨[], rest, _, rfl, by simpa using delimited.after,
        meetWord_unbounding notBegin notCase notEnd, ⟨kept.begun, kept.depth_eq⟩⟩ }
  exact carries.passes inside

/-- `BEGIN` is passed, and the walk is inside a block. -/
theorem passes_begin
    (walk : BlockWalk)
    {opening following : Text}
    (begins : IsKeyword "begin" opening)
    (apart : WordBreak opening following) :
    ∃ resumed : BlockWalk, resumed.InBlock (walk.depth + 1) ∧
      walk.Passes opening following resumed :=
  ⟨{ walk with depth := walk.depth + 1, begun := true, declaring := false }, ⟨rfl, rfl⟩,
    walk.passes_keyword (isWord_begin begins) apart (meetWord_begin begins)⟩

/-- A keyword that opens a level is passed and counted. -/
theorem InBlock.passes_opening
    (inside : walk.InBlock depth)
    {opening following : Text}
    (opens : IsKeyword "begin" opening ∨ IsKeyword "case" opening)
    (apart : WordBreak opening following) :
    ∃ resumed : BlockWalk, resumed.InBlock (depth + 1) ∧
      walk.Passes opening following resumed := by
  rw [← inside.depth_eq]
  rcases opens with begins | opens
  · exact walk.passes_begin begins apart
  · exact ⟨{ walk with depth := walk.depth + 1 }, ⟨inside.begun, rfl⟩,
      walk.passes_keyword (isWord_case opens) apart (meetWord_case opens)⟩

theorem InBlock.closeOne
    (inside : walk.InBlock (depth + 1)) :
    InBlock depth { walk with depth := walk.depth - 1 } where
  begun := inside.begun
  depth_eq := by
    change walk.depth - 1 = depth
    rw [inside.depth_eq]
    omega

/-- A plain `END` closes a level; where another one stays open, the walk goes on. -/
theorem InBlock.passes_closing
    (inside : walk.InBlock (depth + 1))
    (deep : 0 < depth)
    {closing following : Text}
    (closes : IsKeyword "end" closing)
    (plain : PlainEnd following)
    (apart : WordBreak closing following) :
    ∃ resumed : BlockWalk, resumed.InBlock depth ∧ walk.Passes closing following resumed := by
  have stays : 1 < walk.depth ∨ walk.begun = false := by
    rw [inside.depth_eq]
    exact .inl (by omega)
  have met : walk.meetWord closing following = .resume { walk with depth := walk.depth - 1 } 0 := by
    rw [meetWord_end closes, meetEnd_plain plain, closeLevel_inside stays]
  exact ⟨_, inside.closeOne, walk.passes_keyword (isWord_end closes) apart met⟩

/-- `END CASE` closes a level. -/
theorem InBlock.passes_endCase
    (inside : walk.InBlock (depth + 1))
    {closing gap again following : Text}
    (closes : IsKeyword "end" closing)
    (isGap : IsGap gap)
    (isCase : IsKeyword "case" again)
    (closingApart : WordBreak closing (gap ++ again))
    (apart : WordBreak again following) :
    ∃ resumed : BlockWalk, resumed.InBlock depth ∧
      walk.Passes (closing ++ (gap ++ again)) following resumed := by
  have isWord := isWord_case isCase
  have notOther : ¬ (IsKeyword "if" again ∨ IsKeyword "loop" again) :=
    not_or.mpr ⟨isCase.other (by decide), isCase.other (by decide)⟩
  have met :
      walk.meetWord closing ((gap ++ again) ++ following) =
        .resume { walk with depth := walk.depth - 1 } (gap ++ again).length := by
    rw [meetWord_end closes, List.append_assoc, meetEnd_eq (nextKeyword?_append isGap isWord apart),
      if_neg notOther, if_pos isCase, List.length_append]
  have nonempty : gap ++ again ≠ [] := by simp [isWord.nonempty]
  exact ⟨_, inside.closeOne,
    walk.passes_word (isWord_end closes) (closingApart.append_right nonempty following) met⟩

/-- `END IF` and `END LOOP` close nothing that is counted. -/
theorem passes_endOther
    (walk : BlockWalk)
    {closing gap statement following : Text}
    (closes : IsKeyword "end" closing)
    (isGap : IsGap gap)
    (isStatement : IsKeyword "if" statement ∨ IsKeyword "loop" statement)
    (closingApart : WordBreak closing (gap ++ statement))
    (apart : WordBreak statement following) :
    walk.Passes (closing ++ (gap ++ statement)) following walk := by
  have isWord : IsWord statement :=
    isStatement.elim (·.isWord (by decide)) (·.isWord (by decide))
  have met :
      walk.meetWord closing ((gap ++ statement) ++ following) =
        .resume walk (gap ++ statement).length := by
    rw [meetWord_end closes, List.append_assoc, meetEnd_eq (nextKeyword?_append isGap isWord apart),
      if_pos isStatement, List.length_append]
  have nonempty : gap ++ statement ≠ [] := by simp [isWord.nonempty]
  exact walk.passes_word (isWord_end closes) (closingApart.append_right nonempty following) met

/-- The `END` of the outermost block ends the declaration, with what terminates the block. -/
theorem InBlock.run_closing
    (inside : walk.InBlock 1)
    {closing following : Text}
    (closes : IsKeyword "end" closing)
    (plain : PlainEnd following)
    (apart : WordBreak closing following) :
    walk.run 0 (closing ++ following) = some (closing.length + terminatorLength following) := by
  rw [walk.run_word (isWord_end closes) apart, meetWord_end closes, meetEnd_plain plain,
    closeLevel_outermost inside.begun inside.depth_eq]

end BlockWalk

namespace BlockItems

open BlockWalk

/-- In front of an `END`, the items behind a word end outside of words and are not empty. -/
theorem rest_delimited
    {code word rest closing more : Text}
    (isWord : IsWord word)
    (suffix : word ++ rest <:+ code)
    (closes : IsKeyword "end" closing)
    (delimited : Delimited code closing more) :
    rest ≠ [] ∧ Delimited rest closing more := by
  have outside := delimited.before.getLast (isWord_end closes).head
  obtain ⟨nonempty, last⟩ := outside_of_suffix outside isWord suffix
  exact ⟨nonempty, .of_getLast last closing, delimited.after⟩

/-- Up to its `END`, a block or a `CASE` is passed if what it encloses is. -/
theorem passes_opened
    {lead opening inner ending behind : Text}
    {walk : BlockWalk}
    {depth : Int}
    (neutral : Neutral lead)
    (opens : IsKeyword "begin" opening ∨ IsKeyword "case" opening)
    (delimited : Delimited lead opening (inner ++ ending))
    (ends : IsKeyword "end" ending)
    (innerPasses : ∀ {entered : BlockWalk}, entered.InBlock (depth + 1) →
      ∃ resumed : BlockWalk, resumed.InBlock (depth + 1) ∧
        entered.Passes inner (ending ++ behind) resumed)
    (inside : walk.InBlock depth) :
    ∃ resumed : BlockWalk, resumed.InBlock (depth + 1) ∧
      walk.Passes (lead ++ (opening ++ inner)) (ending ++ behind) resumed := by
  have openingWord : IsWord opening := opens.elim isWord_begin isWord_case
  have openingApart : WordBreak opening ((inner ++ ending) ++ behind) :=
    delimited.after.append_right (by simp [(isWord_end ends).nonempty]) behind
  obtain ⟨_, inside, leadPasses⟩ :=
    inside.passes_neutral neutral
      (delimited.before.append_right openingWord.nonempty (inner ++ (ending ++ behind)))
  obtain ⟨_, inside, openingPasses⟩ := inside.passes_opening opens openingApart
  obtain ⟨resumed, inside, innerPasses⟩ := innerPasses inside
  exact ⟨resumed, inside,
    leadPasses.append (openingPasses.append innerPasses (by simp)) (by simp)⟩

/-- The items in front of an `END` are passed, and leave the walk at the depth it had. -/
theorem passes
    {code closing more : Text}
    {walk : BlockWalk}
    {depth : Int}
    (items : BlockItems code)
    (closes : IsKeyword "end" closing)
    (delimited : Delimited code closing more)
    (inside : walk.InBlock depth)
    (deep : 0 < depth) :
    ∃ resumed : BlockWalk, resumed.InBlock depth ∧ walk.Passes code (closing ++ more) resumed := by
  -- What follows the items is an `END`, so each of their words has something behind it
  -- that belongs to the items, and no word is read beyond them.
  induction items generalizing walk depth closing more with
  | code neutral =>
      exact inside.passes_neutral neutral
        (delimited.before.append_right (isWord_end closes).nonempty more)
  | @enclosed lead opening inner ending rest neutral opens _ ends plain _ opened closed
      innerPasses restPasses =>
      have suffix : ending ++ rest <:+ lead ++ (opening ++ (inner ++ (ending ++ rest))) :=
        ⟨lead ++ (opening ++ inner), by simp⟩
      obtain ⟨nonempty, restDelimited⟩ :=
        rest_delimited (isWord_end ends) suffix closes delimited
      have endingApart := closed.after.append_right nonempty (closing ++ more)
      obtain ⟨_, inside, openedPasses⟩ :=
        passes_opened neutral opens opened ends
          (fun entered => innerPasses ends ⟨closed.before, endingApart⟩ entered (by omega)) inside
      obtain ⟨_, inside, endingPasses⟩ :=
        inside.passes_closing deep ends (plain.append closes restDelimited) endingApart
      obtain ⟨resumed, inside, restPasses⟩ := restPasses closes restDelimited inside deep
      have passes := openedPasses.append (endingPasses.append restPasses rfl) (by simp)
      exact ⟨resumed, inside, by simpa using passes⟩
  | @endCase lead opening inner ending gap again rest neutral opens _ ends isGap isCase _ opened
      closed delimitedAgain innerPasses restPasses =>
      have againWord := isWord_case isCase
      have suffix :
          again ++ rest <:+ lead ++ (opening ++ (inner ++ (ending ++ (gap ++ (again ++ rest))))) :=
        ⟨lead ++ (opening ++ (inner ++ (ending ++ gap))), by simp⟩
      obtain ⟨nonempty, restDelimited⟩ := rest_delimited againWord suffix closes delimited
      have againApart := delimitedAgain.after.append_right nonempty (closing ++ more)
      have endingApart :=
        closed.after.append_right (by simp [againWord.nonempty]) (rest ++ (closing ++ more))
      obtain ⟨_, inside, openedPasses⟩ :=
        passes_opened neutral (.inr opens) opened ends
          (fun entered => innerPasses ends ⟨closed.before, endingApart⟩ entered (by omega)) inside
      obtain ⟨_, inside, endingPasses⟩ :=
        inside.passes_endCase ends isGap isCase closed.after againApart
      obtain ⟨resumed, inside, restPasses⟩ := restPasses closes restDelimited inside deep
      have passes := openedPasses.append (endingPasses.append restPasses rfl) (by simp)
      exact ⟨resumed, inside, by simpa using passes⟩
  | @endOther lead ending gap statement rest neutral ends isGap isStatement _ closed
      delimitedStatement restPasses =>
      have statementWord : IsWord statement :=
        isStatement.elim (·.isWord (by decide)) (·.isWord (by decide))
      have suffix : statement ++ rest <:+ lead ++ (ending ++ (gap ++ (statement ++ rest))) :=
        ⟨lead ++ (ending ++ gap), by simp⟩
      obtain ⟨nonempty, restDelimited⟩ := rest_delimited statementWord suffix closes delimited
      have statementApart := delimitedStatement.after.append_right nonempty (closing ++ more)
      obtain ⟨reached, inside, leadPasses⟩ :=
        inside.passes_neutral neutral
          (closed.before.append_right (isWord_end ends).nonempty
            (gap ++ (statement ++ (rest ++ (closing ++ more)))))
      have endingPasses :=
        reached.passes_endOther ends isGap isStatement closed.after statementApart
      obtain ⟨resumed, inside, restPasses⟩ := restPasses closes restDelimited inside deep
      have passes := leadPasses.append (endingPasses.append restPasses rfl) (by simp)
      exact ⟨resumed, inside, by simpa using passes⟩

end BlockItems

/--
Code in front of a block that opens no quote. A semicolon stands only behind
`DECLARE`.
-/
structure Lead (code : Text) : Prop where
  blockFree : BlockFree code
  noDollar : '$' ∉ code
  semicolons : ∀ front back, code = front ++ ';' :: back →
    ∃ word ∈ codeWords front, IsKeyword "declare" word

/-- What stands in front of the outer block, with the opening tag of a quote or without one. -/
inductive Header : Text → Prop where
  | unquoted {lead : Text} :
      Lead lead →
      Header lead
  | quoted {lead tag rest : Text} :
      Lead lead →
      IsTag tag →
      BlockFree rest →
      '$' ∉ rest →
      Header (lead ++ (tag ++ rest))

open BlockWalk

/-- Whether the declarations before a block have started in a text. -/
def declares (code : Text) : Bool :=
  (codeWords code).any fun word => decide (IsKeyword "declare" word)

/-- In front of the block, a walk only notes that declarations start. -/
theorem Lead.passes
    {code following : Text}
    (lead : Lead code)
    (apart : WordBreak code following) :
    BlockWalk.start.Passes code following ⟨0, false, declares code, none⟩ := by
  have carries : Carries code following fun passed walk =>
      walk = ⟨0, false, declares passed, none⟩ := {
    dollars := dollarsBeforeDigits_of_not_mem lead.noDollar
    apart := apart
    semicolon := by
      rintro passed rest walk whole rfl
      obtain ⟨word, member, isDeclare⟩ := lead.semicolons passed rest whole
      have declared : declares passed = true :=
        List.any_eq_true.mpr ⟨word, member, decide_eq_true isDeclare⟩
      simp [BlockWalk.endsAtSemicolon, declared]
    other := by
      rintro passed char walk other rfl
      rw [declares, declares, codeWords_append_other other]
    word := by
      rintro passed word rest walk whole isWord delimited member rfl
      obtain ⟨notBegin, notCase, notEnd⟩ := lead.blockFree word member
      refine ⟨[], rest, _, rfl, by simpa using delimited.after,
        meetWord_unbounding notBegin notCase notEnd, ?_⟩
      rw [List.append_nil, declares, declares, codeWords_append_word delimited.before isWord,
        List.any_append, List.any_cons, List.any_nil, Bool.or_false] }
  obtain ⟨resumed, rfl, passes⟩ := carries.passes rfl
  exact passes

/-- Inside a quote, code that bounds no block leaves the depth as it is. -/
theorem BlockFree.passes_quoted
    {code following : Text}
    {walk : BlockWalk}
    (blockFree : BlockFree code)
    (noDollar : '$' ∉ code)
    (apart : WordBreak code following)
    (quoted : walk.quote.isSome = true) :
    ∃ resumed : BlockWalk, resumed.depth = walk.depth ∧ walk.Passes code following resumed := by
  have carries : Carries code following fun _ reached =>
      reached.quote.isSome = true ∧ reached.depth = walk.depth := {
    dollars := dollarsBeforeDigits_of_not_mem noDollar
    apart := apart
    semicolon := by
      rintro passed rest reached whole ⟨quoted, -⟩
      rw [BlockWalk.endsAtSemicolon, ← Option.not_isSome, quoted]
      rfl
    other := fun _ _ _ _ kept => kept
    word := by
      intro passed word rest reached whole isWord delimited member kept
      obtain ⟨notBegin, notCase, notEnd⟩ := blockFree word member
      exact ⟨[], rest, _, rfl, by simpa using delimited.after,
        meetWord_unbounding notBegin notCase notEnd, kept⟩ }
  obtain ⟨resumed, ⟨-, level⟩, passes⟩ := carries.passes ⟨quoted, rfl⟩
  exact ⟨resumed, level, passes⟩

/-- A header is passed, and no level is open behind it. -/
theorem Header.passes
    {code following : Text}
    (header : Header code)
    (apart : WordBreak code following) :
    ∃ resumed : BlockWalk, resumed.depth = 0 ∧
      BlockWalk.start.Passes code following resumed := by
  cases header with
  | unquoted lead => exact ⟨_, rfl, lead.passes apart⟩
  | @quoted lead tag rest isLead isTag blockFree noDollar =>
      have restApart : WordBreak rest following := by
        cases rest with
        | nil => exact .of_getLast rfl following
        | cons char more =>
            rwa [WordBreak, ← List.append_assoc,
              List.getLast?_append_of_ne_nil _ (List.cons_ne_nil char more)] at apart
      have outside : (tag ++ (rest ++ following)).head?.any isKeywordChar = false := by
        obtain ⟨label, rfl, -⟩ := isTag
        rfl
      have leadPasses := isLead.passes (.of_head outside lead)
      have tagPasses :=
        BlockWalk.passes_tag ⟨0, false, declares lead, none⟩ isTag (rest ++ following)
      have quoted : (BlockWalk.meetTag ⟨0, false, declares lead, none⟩ tag).quote.isSome = true :=
        rfl
      obtain ⟨resumed, level, restPasses⟩ := blockFree.passes_quoted noDollar restApart quoted
      exact ⟨resumed, level, leadPasses.append (tagPasses.append restPasses rfl) (by simp)⟩

/-- What terminates a block in front of its tail: a semicolon, or one label and a semicolon. -/
inductive Terminator : Text → Text → Prop where
  | semicolon {gap rest : Text} :
      IsGap gap →
      Terminator (gap ++ ';' :: rest) (gap ++ [';'])
  | label {gap label second rest : Text} :
      IsGap gap →
      IsWord label →
      IsGap second →
      Terminator (gap ++ (label ++ (second ++ ';' :: rest))) (gap ++ (label ++ (second ++ [';'])))

theorem IsGap.head_outside
    {gap rest : Text}
    (isGap : IsGap gap)
    (outside : rest.head?.any isKeywordChar = false) :
    (gap ++ rest).head?.any isKeywordChar = false := by
  cases gap with
  | nil => exact outside
  | cons char more =>
      have blank := isGap char List.mem_cons_self
      rw [List.cons_append, List.head?_cons, Option.any_some, ← Bool.not_eq_true]
      intro keyword
      rw [not_isBlank_of_isKeywordChar keyword] at blank
      cases blank

/-- A terminator is read as a whole. -/
theorem Terminator.terminatorLength_eq
    {tail ending : Text}
    (terminator : Terminator tail ending) :
    terminatorLength tail = ending.length := by
  cases terminator with
  | semicolon isGap => simp [terminatorLength, semicolonAfterBlanks?_append isGap]
  | @label gap label second rest isGap isWord isSecond =>
      have notFirst : semicolonAfterBlanks? (gap ++ (label ++ (second ++ ';' :: rest))) = none := by
        obtain ⟨trimmed, -⟩ := isGap.trimStart_append (isWord.head_visible (second ++ ';' :: rest))
        obtain ⟨char, more, rfl⟩ := List.exists_cons_of_ne_nil isWord.nonempty
        have notSemicolon : char ≠ ';' :=
          ne_of_holds (isWord.keywordChars char List.mem_cons_self) (by decide)
        rw [semicolonAfterBlanks?, trimmed]
        simp [notSemicolon]
      have semicolonOutside : (';' :: rest).head?.any isKeywordChar = false := rfl
      have outside := isSecond.head_outside semicolonOutside
      have next := nextKeyword?_append isGap isWord (.of_head outside label)
      have behind :
          (gap ++ (label ++ (second ++ ';' :: rest))).drop (gap.length + label.length) =
            second ++ ';' :: rest := by
        rw [← List.append_assoc, ← List.length_append, List.drop_left]
      simp only [terminatorLength, notFirst, next, behind, semicolonAfterBlanks?_append isSecond]
      simp only [List.length_append, List.length_cons, List.length_nil]
      omega

theorem Terminator.isPrefix
    {tail ending : Text}
    (terminator : Terminator tail ending) :
    ending <+: tail := by
  cases terminator with
  | @semicolon gap rest => exact ⟨rest, by simp⟩
  | @label gap label second rest => exact ⟨rest, by simp⟩

/-- Nothing is read just where no terminator follows. -/
theorem terminatorLength_eq_zero_iff
    {tail : Text} :
    terminatorLength tail = 0 ↔ ∀ ending, ¬ Terminator tail ending := by
  constructor
  · intro nothing ending terminator
    have length := terminator.terminatorLength_eq
    cases terminator with
    | semicolon => simp [nothing] at length
    | label => simp [nothing] at length
  · intro none
    unfold terminatorLength
    split
    case h_1 length found =>
      obtain ⟨gap, rest, isGap, rfl⟩ := exists_of_semicolonAfterBlanks? found
      exact absurd (.semicolon isGap) (none _)
    case h_2 =>
      split
      case h_1 => rfl
      case h_2 blanks label found =>
        obtain ⟨gap, rest, isGap, isWord, -, rfl, rfl⟩ := exists_of_nextKeyword? found
        split
        case h_2 => rfl
        case h_1 length found =>
          rw [← List.append_assoc, ← List.length_append, List.drop_left] at found
          obtain ⟨second, later, isSecond, rfl⟩ := exists_of_semicolonAfterBlanks? found
          exact absurd (.label isGap isWord isSecond) (none _)

/-- A header, an outer block and the tail behind its `END`. -/
structure OuterBlock (header opening items closing tail : Text) : Prop where
  isHeader : Header header
  begins : IsKeyword "begin" opening
  areItems : BlockItems items
  ends : IsKeyword "end" closing
  plainEnd : PlainEnd tail
  opened : Delimited header opening (items ++ closing)
  closed : Delimited items closing tail

namespace OuterBlock

variable {header opening items closing tail : Text}

/-- The walk stops at the outer `END`, with the terminator behind it. -/
theorem run_eq
    (block : OuterBlock header opening items closing tail) :
    BlockWalk.start.run 0 (header ++ (opening ++ (items ++ closing)) ++ tail) =
      some ((header ++ (opening ++ (items ++ closing))).length + terminatorLength tail) := by
  have openingApart : WordBreak opening ((items ++ closing) ++ tail) :=
    block.opened.after.append_right (by simp [(isWord_end block.ends).nonempty]) tail
  obtain ⟨before, level, headerPasses⟩ :=
    block.isHeader.passes
      (block.opened.before.append_right (isWord_begin block.begins).nonempty
        (items ++ (closing ++ tail)))
  obtain ⟨entered, inside, openingPasses⟩ := before.passes_begin block.begins openingApart
  rw [level, Int.zero_add] at inside
  obtain ⟨reached, inside, itemsPasses⟩ :=
    block.areItems.passes block.ends block.closed inside Int.zero_lt_one
  have passes := headerPasses.append (openingPasses.append itemsPasses (by simp)) (by simp)
  have ends := inside.run_closing block.ends block.plainEnd block.closed.after
  rw [Passes, ends] at passes
  simp only [List.append_assoc, List.length_append, Option.map_some] at passes ⊢
  rw [passes, Option.some_inj]
  omega

/-- A declaration ends where its outer block does, terminator included. -/
theorem declarationEnd?_eq
    {limit : Nat}
    (block : OuterBlock header opening items closing tail)
    (plain : IsPlain (header ++ (opening ++ (items ++ closing)) ++ tail))
    (reaches : Text.byteLength (header ++ (opening ++ (items ++ closing)) ++ tail) ≤ limit) :
    declarationEnd? (header ++ (opening ++ (items ++ closing)) ++ tail) 0 limit =
      some (Text.byteLength
        (header ++ (opening ++ (items ++ closing)) ++ tail.take (terminatorLength tail))) := by
  rw [declarationEnd?_plain plain reaches block.run_eq, List.take_length_add_append]

end OuterBlock

/--
The end of a declaration is just past the semicolon that follows the outer `END`
directly or after one label, and just past the outer `END` if there is none,
however deep blocks and `CASE` expressions are nested inside.
-/
theorem declarationEnd?_outerBlock
    {header opening items closing tail : Text}
    {limit : Nat}
    (block : OuterBlock header opening items closing tail)
    (plain : IsPlain (header ++ (opening ++ (items ++ closing)) ++ tail))
    (reaches : Text.byteLength (header ++ (opening ++ (items ++ closing)) ++ tail) ≤ limit) :
    (∀ ending, Terminator tail ending →
      declarationEnd? (header ++ (opening ++ (items ++ closing)) ++ tail) 0 limit =
        some (Text.byteLength (header ++ (opening ++ (items ++ closing)) ++ ending))) ∧
    ((∀ ending, ¬ Terminator tail ending) →
      declarationEnd? (header ++ (opening ++ (items ++ closing)) ++ tail) 0 limit =
        some (Text.byteLength (header ++ (opening ++ (items ++ closing))))) := by
  rw [block.declarationEnd?_eq plain reaches]
  constructor
  · intro ending terminator
    have read : tail.take ending.length = ending :=
      (List.prefix_iff_eq_take.mp terminator.isPrefix).symm
    rw [terminator.terminatorLength_eq, read]
  · intro none
    rw [terminatorLength_eq_zero_iff.mpr none, List.take_zero, List.append_nil]

private def nestedHeader : Text :=
  "() AS ".toList ++ ("$fn$".toList ++ " DECLARE n int; ".toList)

private def innerItems : Text :=
  " ".toList ++ ("CASE".toList ++ (" n WHEN 1; ".toList ++ ("END".toList ++
    (" ".toList ++ ("case".toList ++ "; ".toList)))))

private def lastItems : Text :=
  " inner; LOOP; ".toList ++ ("END".toList ++ (" ".toList ++ ("LOOP".toList ++ "; ".toList)))

private def nestedItems : Text :=
  " IF $1 THEN n := ".toList ++ ("CASE".toList ++ (" n ELSE 2 ".toList ++
    ("END".toList ++ ("; ".toList ++ ("END".toList ++ (" ".toList ++ ("IF".toList ++
      ("; ".toList ++ ("begin".toList ++ (innerItems ++ ("END".toList ++ lastItems)))))))))))

private theorem nestedHeader_isHeader :
    Header nestedHeader := by
  have lead : Lead "() AS ".toList := {
    blockFree := by decide +kernel
    noDollar := by decide +kernel
    semicolons := by
      intro front back whole
      have none : ';' ∉ "() AS ".toList := by decide +kernel
      rw [whole] at none
      simp at none }
  have tag : IsTag "$fn$".toList :=
    ⟨['f', 'n'], by decide +kernel, List.all_eq_true.mp (by decide), by decide⟩
  have rest : BlockFree " DECLARE n int; ".toList := by decide +kernel
  exact .quoted lead tag rest (by decide +kernel)

private theorem nestedItems_areItems :
    BlockItems nestedItems := by
  have inner : BlockItems innerItems :=
    .endCase (by decide +kernel) (by decide +kernel) (.code (by decide +kernel))
      (by decide +kernel) (by decide +kernel) (by decide +kernel) (.code (by decide +kernel))
      (by decide +kernel) (by decide +kernel) (by decide +kernel)
  have last : BlockItems lastItems :=
    .endOther (by decide +kernel) (by decide +kernel) (by decide +kernel) (by decide +kernel)
      (.code (by decide +kernel)) (by decide +kernel) (by decide +kernel)
  have block : BlockItems
      ("; ".toList ++ ("begin".toList ++ (innerItems ++ ("END".toList ++ lastItems)))) :=
    .enclosed (by decide +kernel) (by decide +kernel) inner (by decide +kernel)
      (by decide +kernel) last (by decide +kernel) (by decide +kernel)
  have endIf := BlockItems.endOther (by decide +kernel : Neutral "; ".toList)
    (by decide +kernel : IsKeyword "end" "END".toList) (by decide +kernel : IsGap " ".toList)
    (by decide +kernel : IsKeyword "if" "IF".toList ∨ IsKeyword "loop" "IF".toList) block
    (by decide +kernel) (by decide +kernel)
  exact .enclosed (by decide +kernel) (by decide +kernel) (.code (by decide +kernel))
    (by decide +kernel) (by decide +kernel) endIf (by decide +kernel) (by decide +kernel)

private theorem nested_outerBlock
    {tail : Text}
    (plainEnd : PlainEnd tail)
    (apart : WordBreak "End".toList tail) :
    OuterBlock nestedHeader "BEGIN".toList nestedItems "End".toList tail where
  isHeader := nestedHeader_isHeader
  begins := by decide +kernel
  areItems := nestedItems_areItems
  ends := by decide +kernel
  plainEnd := plainEnd
  opened := by decide +kernel
  closed := ⟨by decide +kernel, apart⟩

/-- The body is quoted and its items are nested; its block has a label, or no terminator. -/
theorem declarationEnd?_outerBlock_nested :
    declarationEnd?
        (nestedHeader ++ ("BEGIN".toList ++ (nestedItems ++ "End".toList)) ++
          " total ; $fn$;".toList) 0 1000 = some 144 ∧
      declarationEnd?
        (nestedHeader ++ ("BEGIN".toList ++ (nestedItems ++ "End".toList)) ++
          " $fn$;".toList) 0 1000 = some 136 := by
  have labelled :
      Terminator
        (" ".toList ++ ("total".toList ++ (" ".toList ++ ';' :: " $fn$;".toList)))
        (" ".toList ++ ("total".toList ++ (" ".toList ++ [';']))) :=
    .label (by decide +kernel) ⟨by decide +kernel, List.all_eq_true.mp (by decide +kernel)⟩
      (by decide +kernel)
  have unterminated : ∀ ending, ¬ Terminator " $fn$;".toList ending :=
    terminatorLength_eq_zero_iff.mp (by decide +kernel)
  have first :=
    (declarationEnd?_outerBlock (nested_outerBlock (by decide +kernel) (by decide +kernel))
      (.of_all (by decide +kernel)) (by decide +kernel : _ ≤ 1000)).1 _ labelled
  have second :=
    (declarationEnd?_outerBlock (nested_outerBlock (by decide +kernel) (by decide +kernel))
      (.of_all (by decide +kernel)) (by decide +kernel : _ ≤ 1000)).2 unterminated
  exact ⟨first.trans (by decide +kernel), second.trans (by decide +kernel)⟩

end RoutineServer
