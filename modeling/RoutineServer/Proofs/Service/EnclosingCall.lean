import Mathlib.Data.List.DropRight
import RoutineServer.Proofs.Lexical.Enclosure
import RoutineServer.Proofs.Routine.NameForm
import RoutineServer.Service.Signature

namespace RoutineServer

/-!
# The call around a place

The arguments of a call are being typed behind the parenthesis that was opened
last and is still open. A walk over the text keeps the places of the open
parentheses on a stack and ignores closing ones that close nothing. The place on
top is the only code parenthesis with balanced parentheses between it and the
end, and the number of the argument counts the commas in front of which the
parentheses are balanced as well.
-/

/-- Balanced bytes leave open what was open in front of them. -/
theorem balancedFrom_append
    {depth : Nat}
    {first : List UInt8}
    (balanced : BalancedFrom depth first)
    (outer : Nat)
    (second : List UInt8) :
    BalancedFrom (depth + outer) (first ++ second) ↔ BalancedFrom outer second := by
  induction first generalizing depth with
  | nil =>
      have isZero : depth = 0 := balanced
      simp [isZero]
  | cons byte rest inductionHypothesis =>
      by_cases opens : byte = '('.toUInt8
      · subst opens
        have deeper := inductionHypothesis (balancedFrom_opening.mp balanced)
        rw [Nat.add_right_comm] at deeper
        exact balancedFrom_opening.trans deeper
      · by_cases closes : byte = ')'.toUInt8
        · subst closes
          obtain ⟨positive, remaining⟩ := balancedFrom_closing.mp balanced
          have shallower := inductionHypothesis remaining
          rw [← Nat.sub_add_comm positive] at shallower
          rw [List.cons_append, balancedFrom_closing, shallower]
          exact and_iff_right (Nat.add_pos_left positive outer)
        · rw [List.cons_append, balancedFrom_other opens closes]
          exact inductionHypothesis ((balancedFrom_other opens closes).mp balanced)

/-- The parenthesis opened last of those still open: the ones behind it are balanced. -/
structure Innermost (glyphs : List Glyph) (opening : Nat) : Prop where
  isOpening : glyphs[opening]? = some ⟨'(', .code⟩
  balanced : Balanced ((glyphs.drop (opening + 1)).flatMap Glyph.paren)

/-- A code comma between the arguments behind a parenthesis. -/
structure Separates (glyphs : List Glyph) (opening comma : Nat) : Prop where
  behind : opening < comma
  isComma : glyphs[comma]? = some ⟨',', .code⟩
  balanced : Balanced (((glyphs.take comma).drop (opening + 1)).flatMap Glyph.paren)

instance (glyphs : List Glyph) (opening comma : Nat) :
    Decidable (Separates glyphs opening comma) :=
  decidable_of_iff
    (opening < comma ∧ glyphs[comma]? = some ⟨',', .code⟩ ∧
      Balanced (((glyphs.take comma).drop (opening + 1)).flatMap Glyph.paren))
    ⟨fun ⟨behind, isComma, balanced⟩ => ⟨behind, isComma, balanced⟩,
      fun ⟨behind, isComma, balanced⟩ => ⟨behind, isComma, balanced⟩⟩

/-- The number of commas between the arguments behind a parenthesis. -/
def separators (glyphs : List Glyph) (opening : Nat) : Nat :=
  (List.range glyphs.length).countP (Separates glyphs opening ·)

theorem innermost_iff
    {glyphs : List Glyph}
    {opening : Nat} :
    Innermost glyphs opening ↔
      ∃ front inside,
        glyphs = front ++ ⟨'(', .code⟩ :: inside ∧ front.length = opening ∧
          BalancedFrom 0 (inside.flatMap Glyph.paren) := by
  constructor
  · rintro ⟨isOpening, balanced⟩
    obtain ⟨within, isGlyph⟩ := List.getElem?_eq_some_iff.mp isOpening
    refine ⟨glyphs.take opening, glyphs.drop (opening + 1), ?_, ?_, balanced_iff.mp balanced⟩
    · rw [← isGlyph, List.getElem_cons_drop, List.take_append_drop]
    · exact List.length_take_of_le (Nat.le_of_lt within)
  · rintro ⟨front, inside, rfl, rfl, balanced⟩
    refine ⟨by simp, balanced_iff.mpr ?_⟩
    rwa [List.drop_append, Nat.add_sub_cancel_left, List.drop_eq_nil_of_le (Nat.le_succ _)]

namespace Call

/-- What a glyph does to the stack of open parentheses. -/
def stackAfter (count : Nat) (opened : List Nat) (glyph : Glyph) : List Nat :=
  if glyph.isCodeChar '(' then count :: opened
  else if glyph.isCodeChar ')' then opened.drop 1
  else opened

theorem openParens_cons
    (count : Nat)
    (opened : List Nat)
    (glyph : Glyph)
    (rest : List Glyph) :
    openParens count opened (glyph :: rest) =
      openParens (count + 1) (stackAfter count opened glyph) rest :=
  rfl

/-- A stack says where the parentheses stand that are open at the end of some glyphs. -/
inductive Stacked : List Glyph → List Nat → Prop where
  | empty
      {glyphs : List Glyph} :
      Stacked glyphs []
  | opened
      {front inside : List Glyph}
      {outer : List Nat} :
      Stacked front outer →
      BalancedFrom 0 (inside.flatMap Glyph.paren) →
      Stacked (front ++ ⟨'(', .code⟩ :: inside) (front.length :: outer)

/-- Balanced parentheses leave the stack as it is. -/
theorem Stacked.append
    {glyphs more : List Glyph}
    {opened : List Nat}
    (stacked : Stacked glyphs opened)
    (balanced : BalancedFrom 0 (more.flatMap Glyph.paren)) :
    Stacked (glyphs ++ more) opened := by
  cases stacked with
  | empty =>
      exact .empty
  | @opened front inside outer below insideBalanced =>
      have together : BalancedFrom 0 ((inside ++ more).flatMap Glyph.paren) := by
        rw [List.flatMap_append]
        exact (balancedFrom_append insideBalanced 0 _).mpr balanced
      have stacked := Stacked.opened below together
      rwa [← List.cons_append, ← List.append_assoc] at stacked

/-- Each glyph keeps the stack right. -/
theorem Stacked.step
    {glyphs : List Glyph}
    {opened : List Nat}
    (stacked : Stacked glyphs opened)
    (glyph : Glyph) :
    Stacked (glyphs ++ [glyph]) (stackAfter glyphs.length opened glyph) := by
  have nothing : BalancedFrom 0 (([] : List Glyph).flatMap Glyph.paren) := rfl
  by_cases opens : glyph.isCodeChar '(' = true
  · rw [stackAfter, if_pos opens, Glyph.isCodeChar_iff.mp opens]
    exact .opened stacked nothing
  · by_cases closes : glyph.isCodeChar ')' = true
    · rw [stackAfter, if_neg opens, if_pos closes, Glyph.isCodeChar_iff.mp closes]
      cases stacked with
      | empty =>
          exact .empty
      | @opened front inside outer below balanced =>
          -- The parenthesis on top is closed, so it and its inside are balanced.
          have closed :
              BalancedFrom 0
                ((⟨'(', .code⟩ :: (inside ++ [⟨')', .code⟩])).flatMap Glyph.paren) := by
            rw [List.flatMap_cons, List.flatMap_append]
            exact balancedFrom_opening.mpr ((balancedFrom_append balanced 1 _).mpr
              (balancedFrom_closing.mpr ⟨Nat.one_pos, nothing⟩))
          have stacked := below.append closed
          rwa [← List.cons_append, ← List.append_assoc] at stacked
    · have neutral : BalancedFrom 0 ([glyph].flatMap Glyph.paren) := by
        simpa [Glyph.paren, opens, closes] using nothing
      rw [stackAfter, if_neg opens, if_neg closes]
      exact stacked.append neutral

/-- A walk keeps the stack right. -/
theorem Stacked.run
    {read : List Glyph}
    {opened : List Nat}
    (stacked : Stacked read opened)
    (glyphs : List Glyph) :
    Stacked (read ++ glyphs) (openParens read.length opened glyphs) := by
  induction glyphs generalizing read opened with
  | nil =>
      rwa [List.append_nil]
  | cons glyph rest inductionHypothesis =>
      have later := inductionHypothesis (stacked.step glyph)
      rw [List.length_append, List.append_assoc] at later
      exact later

theorem openParens_append
    (count : Nat)
    (opened : List Nat)
    (first second : List Glyph) :
    openParens count opened (first ++ second) =
      openParens (count + first.length) (openParens count opened first) second := by
  induction first generalizing count opened with
  | nil =>
      rfl
  | cons glyph rest inductionHypothesis =>
      rw [List.cons_append, openParens_cons, openParens_cons, inductionHypothesis,
        List.length_cons, Nat.add_right_comm, Nat.add_assoc]

/-- Glyphs that close what is on top of the stack leave what is below. -/
theorem openParens_balanced
    {glyphs : List Glyph}
    (count : Nat)
    (inner outer : List Nat)
    (balanced : BalancedFrom inner.length (glyphs.flatMap Glyph.paren)) :
    openParens count (inner ++ outer) glyphs = outer := by
  induction glyphs generalizing count inner with
  | nil =>
      have isEmpty : inner = [] := List.length_eq_zero_iff.mp balanced
      rw [isEmpty]
      rfl
  | cons glyph rest inductionHypothesis =>
      rw [List.flatMap_cons, Glyph.balancedFrom_paren_append] at balanced
      obtain ⟨closesOpen, remaining⟩ := balanced
      rw [openParens_cons, stackAfter]
      by_cases opens : glyph.isCodeChar '(' = true
      · rw [depthAfter, if_pos opens] at remaining
        rw [if_pos opens]
        exact inductionHypothesis (count + 1) (count :: inner) remaining
      · rw [depthAfter, if_neg opens] at remaining
        rw [if_neg opens]
        by_cases closes : glyph.isCodeChar ')' = true
        · rw [if_pos closes] at remaining
          rw [if_pos closes]
          cases inner with
          | nil => exact absurd ⟨closes, rfl⟩ closesOpen
          | cons top below => exact inductionHypothesis (count + 1) below remaining
        · rw [if_neg closes] at remaining
          rw [if_neg closes]
          exact inductionHypothesis (count + 1) inner remaining

/-- The top of the stack is the innermost open parenthesis. -/
theorem head?_openParens_eq_some_iff
    {glyphs : List Glyph}
    {opening : Nat} :
    (openParens 0 [] glyphs).head? = some opening ↔ Innermost glyphs opening := by
  rw [innermost_iff]
  constructor
  · intro top
    have start : Stacked [] [] := .empty
    have stacked := start.run glyphs
    rw [List.nil_append, List.length_nil] at stacked
    generalize openParens 0 [] glyphs = opened at top stacked
    cases stacked with
    | empty => cases top
    | @opened front inside outer _ balanced =>
        exact ⟨front, inside, rfl, Option.some.inj top, balanced⟩
  · rintro ⟨front, inside, rfl, rfl, balanced⟩
    have pushed :
        openParens 0 [] (front ++ ⟨'(', .code⟩ :: inside) =
          openParens (front.length + 1) (front.length :: openParens 0 [] front) inside := by
      rw [openParens_append, Nat.zero_add]
      rfl
    have kept :=
      openParens_balanced (front.length + 1) [] (front.length :: openParens 0 [] front) balanced
    rw [List.nil_append] at kept
    rw [pushed, kept]
    rfl

/-- Where parentheses are nested, a comma counts if those in front of it are balanced. -/
theorem commasFrom_eq_countP
    {depth : Nat}
    {glyphs : List Glyph}
    (nested : BalancedFrom depth (glyphs.flatMap Glyph.paren))
    (property : Nat → Bool)
    (counts :
      ∀ place,
        property place = true ↔
          glyphs[place]? = some ⟨',', .code⟩ ∧
            BalancedFrom depth ((glyphs.take place).flatMap Glyph.paren)) :
    commasFrom depth glyphs = (List.range glyphs.length).countP property := by
  induction glyphs generalizing depth property with
  | nil =>
      rfl
  | cons glyph rest inductionHypothesis =>
      rw [List.flatMap_cons, Glyph.balancedFrom_paren_append] at nested
      obtain ⟨closesOpen, remaining⟩ := nested
      have later :=
        inductionHypothesis remaining (fun place => property (place + 1)) fun place => by
          rw [counts (place + 1), List.getElem?_cons_succ, List.take_succ_cons, List.flatMap_cons,
            Glyph.balancedFrom_paren_append]
          exact and_congr_right fun _ => and_iff_right closesOpen
      have first :
          property 0 = true ↔ (glyph.isCodeChar ',' && depth == 0) = true := by
        rw [counts 0, List.getElem?_cons_zero, Option.some.injEq, Bool.and_eq_true,
          Glyph.isCodeChar_iff, beq_iff_eq]
        rfl
      rw [List.length_cons, List.range_succ_eq_map, List.countP_cons, List.countP_map, commasFrom]
      by_cases comma : (glyph.isCodeChar ',' && depth == 0) = true
      · have sameDepth : depthAfter depth glyph = depth := by
          rw [Glyph.isCodeChar_iff.mp (Bool.and_eq_true_iff.mp comma).1]
          rfl
        rw [sameDepth] at later
        rw [if_pos comma, if_pos (first.mpr comma), later]
        rfl
      · rw [if_neg comma, if_neg (comma ∘ first.mp), later]
        rfl

/-- The commas between the arguments are the top-level ones of the text behind the parenthesis. -/
theorem separators_eq
    {front inside : List Glyph}
    (balanced : BalancedFrom 0 (inside.flatMap Glyph.paren)) :
    separators (front ++ ⟨'(', .code⟩ :: inside) front.length = commasFrom 0 inside := by
  have size :
      (front ++ ⟨'(', .code⟩ :: inside).length = front.length + 1 + inside.length := by
    simp only [List.length_append, List.length_cons]
    omega
  have inFront :
      (List.range (front.length + 1)).countP
        (Separates (front ++ ⟨'(', .code⟩ :: inside) front.length ·) = 0 := by
    rw [List.countP_eq_zero]
    intro place member
    have notBehind := Nat.not_lt.mpr (Nat.le_of_lt_succ (List.mem_range.mp member))
    simpa using fun separates : Separates _ _ _ => notBehind separates.behind
  rw [separators, size, List.range_add, List.countP_append, inFront, Nat.zero_add,
    List.countP_map]
  refine (commasFrom_eq_countP balanced _ fun place => ?_).symm
  have behind : front.length < front.length + 1 + place := by omega
  have isGlyph :
      (front ++ ⟨'(', .code⟩ :: inside)[front.length + 1 + place]? = inside[place]? := by
    rw [List.getElem?_append_right (Nat.le_of_lt behind), Nat.add_assoc,
      Nat.add_sub_cancel_left, Nat.add_comm, List.getElem?_cons_succ]
  have between :
      ((front ++ ⟨'(', .code⟩ :: inside).take (front.length + 1 + place)).drop (front.length + 1) =
        inside.take place := by
    have whole : front ++ ⟨'(', .code⟩ :: inside = (front ++ [⟨'(', .code⟩]) ++ inside := by simp
    have length : (front ++ [(⟨'(', .code⟩ : Glyph)]).length = front.length + 1 := by simp
    rw [List.drop_take, Nat.add_sub_cancel_left, whole, ← length, List.drop_left]
  rw [Function.comp_apply, decide_eq_true_iff]
  constructor
  · rintro ⟨-, isComma, commaBalanced⟩
    rw [between] at commaBalanced
    exact ⟨isGlyph.symm.trans isComma, balanced_iff.mp commaBalanced⟩
  · rintro ⟨isComma, commaBalanced⟩
    refine ⟨behind, isGlyph.trans isComma, ?_⟩
    rw [between]
    exact balanced_iff.mpr commaBalanced

end Call

namespace Text

theorem exists_trimEnd
    (text : Text) :
    ∃ blanks, text = trimEnd text ++ blanks ∧ ∀ char ∈ blanks, isBlank char = true := by
  refine ⟨(text.reverse.takeWhile isBlank).reverse, ?_, ?_⟩
  · rw [trimEnd, ← List.reverse_append, List.takeWhile_append_dropWhile, List.reverse_reverse]
  · intro char member
    exact List.mem_takeWhile_imp (List.mem_reverse.mp member)

/-- Blanks are taken off up to the last visible character. -/
theorem trimEnd_append
    {text blanks : Text}
    {last : Char}
    (visible : isBlank last = false)
    (blank : ∀ char ∈ blanks, isBlank char = true) :
    trimEnd (text ++ last :: blanks) = text ++ [last] := by
  have areBlank : ∀ char ∈ blanks.reverse, isBlank char = true :=
    fun char member => blank char (List.mem_reverse.mp member)
  have shape : (text ++ last :: blanks).reverse = blanks.reverse ++ last :: text.reverse := by
    simp
  rw [trimEnd, shape, List.dropWhile_append_of_pos areBlank,
    List.dropWhile_cons_of_neg (by simp [visible]), List.reverse_cons, List.reverse_reverse]

end Text

/-- A text ends in a name, with or without blanks behind it. -/
inductive EndsInName : Text → Text → Prop where
  | plain
      {front name blanks : Text} :
      front.getLast?.any isNameChar = false →
      name ≠ [] →
      (∀ char ∈ name, isNameChar char = true) →
      (∀ char ∈ blanks, isBlank char = true) →
      EndsInName (front ++ (name ++ blanks)) name
  | quoted
      {front inside blanks : Text} :
      '"' ∉ inside →
      (∀ char ∈ blanks, isBlank char = true) →
      EndsInName (front ++ ('"' :: (inside ++ '"' :: blanks))) ('"' :: (inside ++ ['"']))

theorem any_getLast?_rdropWhile
    (property : α → Bool)
    (items : List α) :
    (items.rdropWhile property).getLast?.any property = false := by
  rw [List.rdropWhile, List.getLast?_reverse]
  exact any_head?_dropWhile property items.reverse

/-- A run at the end reaches back to the last item that is not of its kind. -/
theorem rtakeWhile_append
    {property : α → Bool}
    {front run : List α}
    (outside : front.getLast?.any property = false)
    (inside : ∀ item ∈ run, property item = true) :
    (front ++ run).rtakeWhile property = run := by
  have reversed : ∀ item ∈ run.reverse, property item = true :=
    fun item member => inside item (List.mem_reverse.mp member)
  have stops : front.reverse.takeWhile property = [] := by
    rw [← List.head?_reverse] at outside
    cases shape : front.reverse with
    | nil => rfl
    | cons item rest =>
        rw [shape] at outside
        exact List.takeWhile_cons_of_neg (by simpa using outside)
  rw [List.rtakeWhile, List.reverse_append, List.takeWhile_append_of_pos reversed, stops,
    List.append_nil, List.reverse_reverse]

namespace Call

/-- Behind a quote, the name starts at the quote before that one. -/
theorem calledName?_of_quote
    {text before : Text}
    (trimmed : Text.trimEnd text = before ++ ['"']) :
    calledName? text =
      if '"' ∈ before then some ('"' :: (before.rtakeWhile (· != '"') ++ ['"'])) else none := by
  have shape : (Text.trimEnd text).reverse = '"' :: before.reverse := by
    rw [trimmed, List.reverse_append]
    rfl
  have whole :
      (before.reverse.takeWhile (· != '"')).length = before.reverse.length ↔ '"' ∉ before := by
    constructor
    · intro size member
      have all := (List.takeWhile_prefix _).eq_of_length size
      have differs := List.takeWhile_eq_self_iff.mp all '"' (List.mem_reverse.mpr member)
      simp at differs
    · intro absent
      refine congrArg List.length (List.takeWhile_eq_self_iff.mpr fun char member => ?_)
      rw [bne_iff_ne]
      rintro rfl
      exact absent (List.mem_reverse.mp member)
  simp only [calledName?, shape, beq_iff_eq, whole]
  by_cases member : '"' ∈ before
  · rw [if_neg (not_not.mpr member), if_pos member]
    rfl
  · rw [if_pos member, if_neg member]

theorem calledName?_of_plain
    {text : Text}
    (unquoted : (Text.trimEnd text).getLast? ≠ some '"') :
    calledName? text =
      if (Text.trimEnd text).rtakeWhile isNameChar = [] then none
      else some ((Text.trimEnd text).rtakeWhile isNameChar) := by
  rw [← List.head?_reverse] at unquoted
  unfold calledName?
  split
  case h_1 before shape =>
      rw [shape] at unquoted
      exact absurd rfl unquoted
  case h_2 => simp [List.rtakeWhile]

/-- The called name is the name that the text ends in. -/
theorem calledName?_eq_some_iff
    {text name : Text} :
    calledName? text = some name ↔ EndsInName text name := by
  constructor
  · intro called
    obtain ⟨blanks, whole, blank⟩ := Text.exists_trimEnd text
    by_cases quoted : (Text.trimEnd text).getLast? = some '"'
    · obtain ⟨before, trimmed⟩ := List.getLast?_eq_some_iff.mp quoted
      rw [calledName?_of_quote trimmed, Option.ite_none_right_eq_some, Option.some.injEq] at called
      obtain ⟨member, rfl⟩ := called
      have unquoted : '"' ∉ before.rtakeWhile (· != '"') := by
        intro inside
        simpa using List.mem_rtakeWhile_imp inside
      have parts := List.rdropWhile_append_rtakeWhile (p := (· != '"')) (l := before)
      have stops := any_getLast?_rdropWhile (· != '"') before
      -- The quote of the text before is the last character that is not in the run.
      obtain ⟨front, isFront⟩ :
          ∃ front, before.rdropWhile (· != '"') = front ++ ['"'] := by
        rcases List.eq_nil_or_concat' (before.rdropWhile (· != '"')) with
          empty | ⟨front, last, shape⟩
        · rw [empty, List.nil_append] at parts
          rw [← parts] at member
          exact absurd member unquoted
        · rw [shape, List.getLast?_concat] at stops
          have isQuote : last = '"' := by simpa using stops
          exact ⟨front, by rw [shape, isQuote]⟩
      rw [isFront] at parts
      generalize before.rtakeWhile (· != '"') = inside at unquoted parts
      have shape : text = front ++ ('"' :: (inside ++ '"' :: blanks)) := by
        rw [whole, trimmed, ← parts]
        simp
      rw [shape]
      exact .quoted unquoted blank
    · rw [calledName?_of_plain quoted, Option.ite_none_left_eq_some, Option.some.injEq] at called
      obtain ⟨named, rfl⟩ := called
      have parts := List.rdropWhile_append_rtakeWhile (p := isNameChar) (l := Text.trimEnd text)
      have stops := any_getLast?_rdropWhile isNameChar (Text.trimEnd text)
      have inName : ∀ char ∈ (Text.trimEnd text).rtakeWhile isNameChar, isNameChar char = true :=
        fun _ member => List.mem_rtakeWhile_imp member
      generalize (Text.trimEnd text).rtakeWhile isNameChar = name at named parts inName
      rw [whole, ← parts, List.append_assoc]
      exact .plain stops named inName blank
  · intro ends
    cases ends with
    | @plain front name blanks outside named inName blank =>
        obtain ⟨others, last, rfl⟩ := (List.eq_nil_or_concat' name).resolve_left named
        obtain ⟨visible, notQuote⟩ := isNameChar_visible (inName last (by simp))
        have trimmed : Text.trimEnd (front ++ ((others ++ [last]) ++ blanks)) =
            front ++ (others ++ [last]) := by
          have shape := @Text.trimEnd_append (front ++ others) blanks last visible blank
          simpa using shape
        have unquoted : (front ++ (others ++ [last])).getLast? ≠ some '"' := by
          simpa [← List.append_assoc] using notQuote
        rw [calledName?_of_plain (by rwa [trimmed]), trimmed, rtakeWhile_append outside inName,
          if_neg named]
    | @quoted front inside blanks unquoted blank =>
        have trimmed : Text.trimEnd (front ++ ('"' :: (inside ++ '"' :: blanks))) =
            (front ++ '"' :: inside) ++ ['"'] := by
          have shape :=
            @Text.trimEnd_append (front ++ '"' :: inside) blanks '"' (by decide) blank
          simpa using shape
        have outside : (front ++ ['"']).getLast?.any (· != '"') = false := by simp
        have others : ∀ char ∈ inside, (char != '"') = true := by
          intro char member
          rw [bne_iff_ne]
          rintro rfl
          exact unquoted member
        have run := rtakeWhile_append outside others
        rw [List.append_assoc, List.singleton_append] at run
        rw [calledName?_of_quote trimmed, if_pos (by simp), run]

/-- The call around the end of a piece of text. -/
theorem at?_byteLength
    (front back : Text) :
    at? (front ++ back) (Text.byteLength front) =
      (openParens 0 [] (scan front)).head?.bind fun opening =>
        (calledName? (front.take opening)).map fun name =>
          ⟨Name.normalize name, topLevelCommas (front.drop (opening + 1))⟩ := by
  have within : min (Text.byteLength front) (Text.byteLength (front ++ back)) =
      Text.byteLength front := by
    rw [Text.byteLength_append]
    exact Nat.min_eq_left (Nat.le_add_right _ _)
  have boundary : Text.isBoundary (Text.byteLength front) (front ++ back) = true :=
    Text.isBoundary_iff.mpr ⟨front, back, rfl, rfl⟩
  rw [at?]
  simp only [within, boundary, if_true, Text.before_eq rfl rfl]
  cases (openParens 0 [] (scan front)).head? with
  | none => rfl
  | some opening =>
      cases named : calledName? (front.take opening) with
      | none => simp [named]
      | some name => simp [named]

/--
No call is found where no parenthesis is open. Otherwise exactly one parenthesis
is the innermost open one. The call is the one of the name in front of it, if
there is one, and its argument has as many commas in front of it, behind the
parenthesis and outside of others, as its number says.
-/
theorem at?_innermost
    {text : Text}
    {offset : Nat}
    (boundary : Text.isBoundary offset text = true) :
    ((∀ opening, ¬ Innermost (scan (Text.before offset text)) opening) →
        at? text offset = none) ∧
      ((∃ opening, Innermost (scan (Text.before offset text)) opening) →
        ∃ opening,
          (∀ other, Innermost (scan (Text.before offset text)) other ↔ other = opening) ∧
            ∀ call,
              at? text offset = some call ↔
                ∃ name,
                  EndsInName ((Text.before offset text).take opening) name ∧
                    call = ⟨Name.normalize name,
                      separators (scan (Text.before offset text)) opening⟩) := by
  obtain ⟨front, back, rfl, rfl⟩ := Text.isBoundary_iff.mp boundary
  rw [Text.before_eq rfl rfl, at?_byteLength]
  constructor
  · intro closed
    cases top : (openParens 0 [] (scan front)).head? with
    | none => rfl
    | some opening => exact absurd (head?_openParens_eq_some_iff.mp top) (closed opening)
  · rintro ⟨opening, innermost⟩
    have top := head?_openParens_eq_some_iff.mpr innermost
    refine ⟨opening, fun other => ?_, fun call => ?_⟩
    · rw [← head?_openParens_eq_some_iff, top, Option.some.injEq]
      exact eq_comm
    · have commas :
          topLevelCommas (front.drop (opening + 1)) = separators (scan front) opening := by
        obtain ⟨glyphs, inside, scans, rfl, balanced⟩ := innermost_iff.mp innermost
        have behind := (scans ▸ Scanned.scan front).after_code rfl
        have rest : front.drop (glyphs.length + 1) = Glyph.chars inside := by
          rw [← Glyph.chars_scan front, scans, Glyph.chars_append, Glyph.chars_cons]
          simp [List.drop_append]
        rw [scans, separators_eq balanced, rest, topLevelCommas, ← behind]
      rw [top, Option.bind_some, Option.map_eq_some_iff, commas]
      exact exists_congr fun name => and_congr calledName?_eq_some_iff eq_comm

/-- A stray parenthesis, a call inside a call, and parentheses and commas that are not code. -/
private def scattered : Text :=
  "x) select \"é\" (g(1, 2), \x27(,\x27, (a, b) -- (,\n, c) from t".toList

/-- In front of the parenthesis that closes the call, its fourth argument is being typed. -/
theorem at?_innermost_scattered :
    at? scattered 47 = some ⟨"é".toList, 3⟩ ∧ at? scattered 2 = none := by
  have boundary : Text.isBoundary 47 scattered = true := by decide +kernel
  have innermost : Innermost (scan (Text.before 47 scattered)) 14 :=
    ⟨by decide +kernel, by decide +kernel⟩
  have closed : ∀ opening, ¬ Innermost (scan (Text.before 2 scattered)) opening := by
    intro opening isOpen
    have top := head?_openParens_eq_some_iff.mpr isOpen
    have empty : (openParens 0 [] (scan (Text.before 2 scattered))).head? = none := by
      decide +kernel
    rw [empty] at top
    cases top
  obtain ⟨opening, unique, calls⟩ := (at?_innermost boundary).2 ⟨14, innermost⟩
  obtain rfl := (unique 14).mp innermost
  refine ⟨(calls _).mpr ⟨"\"é\"".toList, ?_, by decide +kernel⟩,
    (at?_innermost (by decide +kernel)).1 closed⟩
  exact calledName?_eq_some_iff.mp (by decide +kernel)

end Call

end RoutineServer
