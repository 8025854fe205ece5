import RoutineServer.Proofs.Text.Occurrence

namespace RoutineServer

/-!
# Replacing a name by another

A name that begins and ends with identifier characters is found only between
characters that are none, and so is whatever replaces it. If the replacement is
an identifier, the identifiers of the text are therefore what they were, with
those of each occurrence gone and the replacement in their place.

Two statements follow. The name is not found any more, unless the replacement
is one of the identifiers that the name itself is made of. And a name that was
not in the text before is found exactly where it was put.
-/

namespace Text

/-- The identifiers of a text, given whether it starts inside one that does not count. -/
def identifiersFrom : Bool → Text → List Text
  | _, [] => []
  | inside, char :: rest =>
      if isIdentifierChar char then
        if inside then identifiersFrom true rest
        else (char :: rest).takeWhile isIdentifierChar :: identifiersFrom true rest
      else
        identifiersFrom false rest

/-- The identifiers of a text: its longest runs of identifier characters. -/
def identifiers (text : Text) : List Text :=
  identifiersFrom false text

/-- A text of identifier characters, at least one. -/
def isIdentifier (text : Text) : Bool :=
  !text.isEmpty && text.all isIdentifierChar

theorem isIdentifier_iff
    {text : Text} :
    isIdentifier text = true ↔ text ≠ [] ∧ ∀ char ∈ text, isIdentifierChar char = true := by
  simp [isIdentifier]

theorem identifiersFrom_true_of_all
    {text : Text}
    (run : ∀ char ∈ text, isIdentifierChar char = true) :
    identifiersFrom true text = [] := by
  induction text with
  | nil =>
      rfl
  | cons char rest inductionHypothesis =>
      have here : isIdentifierChar char = true := run char List.mem_cons_self
      simp only [identifiersFrom, here, ↓reduceIte]
      exact inductionHypothesis fun other member => run other (List.mem_cons_of_mem _ member)

theorem identifiers_of_isIdentifier
    {text : Text}
    (identifier : isIdentifier text = true) :
    identifiers text = [text] := by
  obtain ⟨nonempty, run⟩ := isIdentifier_iff.mp identifier
  cases text with
  | nil =>
      exact absurd rfl nonempty
  | cons char rest =>
      have here : isIdentifierChar char = true := run char List.mem_cons_self
      have later := identifiersFrom_true_of_all fun other member =>
        run other (List.mem_cons_of_mem char member)
      have whole : (char :: rest).takeWhile isIdentifierChar = char :: rest :=
        List.takeWhile_eq_self_iff.mpr run
      simp only [identifiers, identifiersFrom, here, ↓reduceIte, later, whole, Bool.false_eq_true]

/-- The identifiers behind the first character are among those from it on. -/
theorem mem_identifiersFrom_cons
    {inside : Bool}
    {char : Char}
    {rest part : Text}
    (member : part ∈ identifiersFrom (isIdentifierChar char) rest) :
    part ∈ identifiersFrom inside (char :: rest) := by
  simp only [identifiersFrom]
  cases kind : isIdentifierChar char with
  | false =>
      rw [kind] at member
      simpa using member
  | true =>
      rw [kind] at member
      cases inside with
      | false =>
          simp [member]
      | true =>
          simpa using member

/-- An identifier of a text is a part of it. -/
theorem subset_of_mem_identifiersFrom
    {inside : Bool}
    {text part : Text}
    (member : part ∈ identifiersFrom inside text) :
    part ⊆ text := by
  induction text generalizing inside with
  | nil =>
      cases member
  | cons char rest inductionHypothesis =>
      have later {inside : Bool} (inRest : part ∈ identifiersFrom inside rest) :
          part ⊆ char :: rest :=
        List.subset_cons_of_subset char (inductionHypothesis inRest)
      cases kind : isIdentifierChar char with
      | false =>
          simp only [identifiersFrom, kind, Bool.false_eq_true, ↓reduceIte] at member
          exact later member
      | true =>
          cases inside with
          | true =>
              simp only [identifiersFrom, kind, ↓reduceIte] at member
              exact later member
          | false =>
              simp only [identifiersFrom, kind, Bool.false_eq_true, ↓reduceIte,
                List.mem_cons] at member
              rcases member with isFirst | inRest
              · rw [isFirst]
                exact (List.takeWhile_sublist _).subset
              · exact later inRest

/-- An ASCII name that begins and ends with identifier characters. -/
structure Bounded (name : Text) : Prop where
  ascii : ∀ char ∈ name, char.toNat < 0x80
  starts : name.head?.any isIdentifierChar = true
  ends : name.getLast?.any isIdentifierChar = true

/-- Whether a text starts with an identifier character. -/
def startsInside (text : Text) : Bool :=
  text.head?.any isIdentifierChar

namespace Bounded

variable {name : Text}

theorem ne_nil
    (bounded : Bounded name) :
    name ≠ [] := by
  intro empty
  have starts := bounded.starts
  rw [empty] at starts
  cases starts

theorem exists_cons
    (bounded : Bounded name) :
    ∃ first more, name = first :: more ∧ isIdentifierChar first = true := by
  cases shape : name with
  | nil =>
      exact absurd shape bounded.ne_nil
  | cons first more =>
      have starts := bounded.starts
      rw [shape] at starts
      exact ⟨first, more, rfl, starts⟩

/-- The name stands as a whole word between characters of other kinds. -/
theorem isWholeWord_iff
    (bounded : Bounded name)
    {previous : Option Char}
    {rest : Text} :
    isWholeWord name previous rest = true ↔
      previous.any isIdentifierChar = false ∧ startsInside rest = false := by
  simp [isWholeWord, bounded.starts, bounded.ends, startsInside]

theorem getLast?_of_spells
    (bounded : Bounded name)
    {spelling : Text}
    (spelled : Spells name spelling) :
    spelling.getLast?.any isIdentifierChar = true := by
  cases final : spelling.getLast? with
  | none =>
      rw [List.getLast?_eq_none_iff.mp final] at spelled
      cases spelled
      exact absurd rfl bounded.ne_nil
  | some last =>
      obtain ⟨expected, isLast, same⟩ := spelled.getLast? final
      have ends := bounded.ends
      rw [isLast] at ends
      have ascii := bounded.ascii expected (List.mem_of_getLast? isLast)
      simpa using (isIdentifierChar_of_sameFolded ascii same).trans ends

/-- An identifier of ASCII characters is bounded. -/
theorem of_isIdentifier
    (ascii : ∀ char ∈ name, char.toNat < 0x80)
    (identifier : isIdentifier name = true) :
    Bounded name := by
  obtain ⟨nonempty, run⟩ := isIdentifier_iff.mp identifier
  refine ⟨ascii, ?_, ?_⟩
  · rw [List.head?_eq_some_head nonempty]
    exact run _ (List.head_mem nonempty)
  · rw [List.getLast?_eq_some_getLast nonempty]
    exact run _ (List.getLast_mem nonempty)

end Bounded

/-- A name of letters, digits and underscores of ASCII, at least one. -/
def isPlainName (name : Text) : Bool :=
  !name.isEmpty && name.all fun char => char.isAlphanum || char == '_'

theorem ascii_of_isPlainName
    {name : Text}
    (plain : isPlainName name = true) :
    ∀ char ∈ name, char.toNat < 0x80 := by
  intro char member
  simp only [isPlainName, Bool.and_eq_true, List.all_eq_true, Bool.or_eq_true,
    beq_iff_eq] at plain
  rcases plain.2 char member with alphanumeric | underscore
  · exact ascii_of_isAlphanum alphanumeric
  · rw [underscore]
    decide

theorem isIdentifier_of_isPlainName
    {name : Text}
    (plain : isPlainName name = true) :
    isIdentifier name = true := by
  have ascii := ascii_of_isPlainName plain
  simp only [isPlainName, Bool.and_eq_true, List.all_eq_true] at plain
  simp only [isIdentifier, Bool.and_eq_true, List.all_eq_true]
  refine ⟨plain.1, ?_⟩
  intro char member
  simpa [isIdentifierChar, isAlphanumeric, ascii char member] using plain.2 char member

/-- An identifier has no line breaks. -/
theorem oneLine_of_isIdentifier
    {name : Text}
    (identifier : isIdentifier name = true) :
    '\r' ∉ name ∧ '\n' ∉ name := by
  obtain ⟨-, run⟩ := isIdentifier_iff.mp identifier
  constructor
  · intro member
    exact absurd (run _ member) (by decide)
  · intro member
    exact absurd (run _ member) (by decide)

/-- A run of identifier characters is found only for an identifier of the name sought. -/
theorem spells_takeWhile
    {sought run rest following : Text}
    (ascii : ∀ char ∈ sought, char.toNat < 0x80)
    (identifier : ∀ char ∈ run, isIdentifierChar char = true)
    (dropped : dropFolded? sought (run ++ rest) = some following)
    (restOutside : startsInside rest = false)
    (followingOutside : startsInside following = false) :
    Spells (sought.takeWhile isIdentifierChar) run := by
  induction run generalizing sought with
  | nil =>
      cases sought with
      | nil =>
          exact .nil
      | cons expected more =>
          cases rest with
          | nil =>
              cases dropped
          | cons char tail =>
              simp only [List.nil_append, dropFolded?, Option.ite_none_right_eq_some] at dropped
              have kind := isIdentifierChar_of_sameFolded (ascii expected (by simp)) dropped.1
              have outside : isIdentifierChar char = false := restOutside
              rw [outside] at kind
              rw [List.takeWhile_cons_of_neg (by simp [← kind])]
              exact .nil
  | cons char tail inductionHypothesis =>
      have inside : isIdentifierChar char = true := identifier char (by simp)
      cases sought with
      | nil =>
          simp only [dropFolded?, Option.some.injEq] at dropped
          rw [← dropped] at followingOutside
          have starts : startsInside (char :: tail ++ rest) = true := inside
          rw [starts] at followingOutside
          cases followingOutside
      | cons expected more =>
          simp only [List.cons_append, dropFolded?, Option.ite_none_right_eq_some] at dropped
          have kind := isIdentifierChar_of_sameFolded (ascii expected (by simp)) dropped.1
          rw [List.takeWhile_cons_of_pos (by rw [← kind, inside])]
          refine .cons dropped.1 (inductionHypothesis ?_ ?_ dropped.2)
          · exact fun other member => ascii other (List.mem_cons_of_mem _ member)
          · exact fun other member => identifier other (List.mem_cons_of_mem _ member)

section

variable {name new : Text} (bounded : Bounded name) (identifier : isIdentifier new = true)

include bounded identifier

/-- The rewritten text starts as the text does, inside an identifier or not. -/
theorem startsInside_rewritten
    {text : Text}
    {previous : Option Char}
    {pieces : List Piece}
    (divided : Divided name previous text pieces) :
    startsInside (Piece.rewritten new pieces) = startsInside text := by
  obtain ⟨nonempty, run⟩ := isIdentifier_iff.mp identifier
  cases divided with
  | nil =>
      rfl
  | kept =>
      rfl
  | found spelled =>
      obtain ⟨first, more, rfl⟩ := List.exists_cons_of_ne_nil nonempty
      obtain ⟨expected, others, rfl, inside⟩ := bounded.exists_cons
      have ascii := bounded.ascii expected List.mem_cons_self
      cases spelled with
      | cons same =>
          have left : isIdentifierChar first = true := run first List.mem_cons_self
          have right := isIdentifierChar_of_sameFolded ascii same
          rw [inside] at right
          exact left.trans right.symm

/--
What is sought in a rewritten text is found in the text itself, as long as it
does not hold the replacement as an identifier of its own.
-/
theorem dropFolded?_of_rewritten
    {text sought following : Text}
    {previous : Option Char}
    {pieces : List Piece}
    (divided : Divided name previous text pieces)
    (ascii : ∀ char ∈ sought, char.toNat < 0x80)
    (distinct :
      ∀ part ∈ identifiersFrom (previous.any isIdentifierChar) sought, ¬ Spells part new)
    (dropped : dropFolded? sought (Piece.rewritten new pieces) = some following)
    (outside : startsInside following = false) :
    ∃ rest, dropFolded? sought text = some rest ∧ startsInside rest = false := by
  induction sought generalizing text previous pieces with
  | nil =>
      simp only [dropFolded?, Option.some.injEq] at dropped
      rw [← dropped, startsInside_rewritten bounded identifier divided] at outside
      exact ⟨text, rfl, outside⟩
  | cons expected more inductionHypothesis =>
      have moreAscii : ∀ char ∈ more, char.toNat < 0x80 :=
        fun char member => ascii char (List.mem_cons_of_mem _ member)
      cases divided with
      | nil =>
          cases dropped
      | @kept _ char rest pieces _ later =>
          simp only [Piece.rewritten_kept, dropFolded?, Option.ite_none_right_eq_some] at dropped
          obtain ⟨same, restDropped⟩ := dropped
          have kind := isIdentifierChar_of_sameFolded (ascii expected List.mem_cons_self) same
          have moreDistinct :
              ∀ part ∈ identifiersFrom ((some char).any isIdentifierChar) more,
                ¬ Spells part new := by
            intro part member
            apply distinct
            apply mem_identifiersFrom_cons
            rwa [← kind]
          obtain ⟨tail, tailDropped, tailOutside⟩ :=
            inductionHypothesis later moreAscii moreDistinct restDropped
          refine ⟨tail, ?_, tailOutside⟩
          simp only [dropFolded?, same, ↓reduceIte, tailDropped]
      | @found _ spelling rest pieces spelled whole later =>
          -- Here the replacement itself would have to be an identifier of what is sought.
          obtain ⟨free, restOutside⟩ := bounded.isWholeWord_iff.mp whole
          obtain ⟨nonempty, run⟩ := isIdentifier_iff.mp identifier
          rw [← startsInside_rewritten bounded identifier later] at restOutside
          have spells :=
            spells_takeWhile ascii run dropped restOutside outside
          exfalso
          apply distinct _ ?_ spells
          have starts : isIdentifierChar expected = true := by
            by_contra other
            rw [List.takeWhile_cons_of_neg other] at spells
            cases spells
            exact nonempty rfl
          simp [identifiersFrom, starts, free]

/--
A name that stands at a kept character of a rewritten text stands there in the
text itself.
-/
theorem standsAt?_of_rewritten
    {sought rest : Text}
    {previous earlier : Option Char}
    {char : Char}
    {pieces : List Piece}
    (soughtBounded : Bounded sought)
    (divided : Divided name (some char) rest pieces)
    (sameSide : earlier.any isIdentifierChar = previous.any isIdentifierChar)
    (distinct : ∀ part ∈ identifiersFrom true sought.tail, ¬ Spells part new)
    (nowhere : standsAt? sought previous (char :: rest) = none) :
    standsAt? sought earlier (char :: Piece.rewritten new pieces) = none := by
  cases stands : standsAt? sought earlier (char :: Piece.rewritten new pieces) with
  | none =>
      rfl
  | some following =>
      rw [standsAt?, Option.filter_eq_some_iff] at stands
      obtain ⟨dropped, whole⟩ := stands
      obtain ⟨free, outside⟩ := soughtBounded.isWholeWord_iff.mp whole
      obtain ⟨first, more, rfl, firstInside⟩ := soughtBounded.exists_cons
      simp only [dropFolded?, Option.ite_none_right_eq_some] at dropped
      obtain ⟨same, moreDropped⟩ := dropped
      have inside : isIdentifierChar char = true := by
        rw [← firstInside]
        exact isIdentifierChar_of_sameFolded (soughtBounded.ascii first List.mem_cons_self) same
      obtain ⟨tail, tailDropped, tailOutside⟩ :=
        dropFolded?_of_rewritten bounded identifier divided
          (fun other member => soughtBounded.ascii other (List.mem_cons_of_mem _ member))
          (by simpa [inside] using distinct) moreDropped outside
      have tailWhole : isWholeWord (first :: more) previous tail = true :=
        soughtBounded.isWholeWord_iff.mpr ⟨sameSide.symm.trans free, tailOutside⟩
      simp [standsAt?, dropFolded?, same, tailDropped, Option.filter, tailWhole] at nowhere

omit identifier in
/-- A name does not start inside an identifier. -/
theorem Divided.kept_append
    {run rest : Text}
    {previous : Option Char}
    {pieces : List Piece}
    (inside : previous.any isIdentifierChar = true)
    (all : ∀ char ∈ run, isIdentifierChar char = true)
    (divided : ∀ last : Option Char,
      last.any isIdentifierChar = true → Divided name last rest pieces) :
    Divided name previous (run ++ rest) (run.map .kept ++ pieces) := by
  induction run generalizing previous with
  | nil =>
      exact divided previous inside
  | cons char more inductionHypothesis =>
      have stands : standsAt? name previous (char :: (more ++ rest)) = none := by
        by_contra some
        obtain ⟨following, found⟩ := Option.ne_none_iff_exists'.mp some
        obtain ⟨-, -, -, whole⟩ := standsAt?_eq_some_iff.mp found
        have free := (bounded.isWholeWord_iff.mp whole).1
        rw [inside] at free
        cases free
      apply Divided.kept stands
      apply inductionHypothesis
      · exact all char List.mem_cons_self
      · exact fun other member => all other (List.mem_cons_of_mem _ member)

/-- Once every occurrence of a name is replaced, the name stands nowhere. -/
theorem Divided.rewritten_kept
    {text : Text}
    {previous earlier : Option Char}
    {pieces : List Piece}
    (distinct : ∀ part ∈ identifiers name, ¬ Spells part new)
    (divided : Divided name previous text pieces)
    (sameSide : earlier.any isIdentifierChar = previous.any isIdentifierChar) :
    Divided name earlier (Piece.rewritten new pieces)
      ((Piece.rewritten new pieces).map .kept) := by
  induction divided generalizing earlier with
  | nil =>
      exact .nil
  | kept stands later inductionHypothesis =>
      rw [Piece.rewritten_kept]
      refine .kept ?_ (inductionHypothesis rfl)
      apply standsAt?_of_rewritten bounded identifier bounded later sameSide _ stands
      obtain ⟨first, more, rfl, inside⟩ := bounded.exists_cons
      intro part member
      apply distinct
      apply mem_identifiersFrom_cons
      rwa [inside]
  | @found previous spelling rest pieces spelled whole later inductionHypothesis =>
      obtain ⟨free, restOutside⟩ := bounded.isWholeWord_iff.mp whole
      obtain ⟨nonempty, run⟩ := isIdentifier_iff.mp identifier
      obtain ⟨head, tail, shape⟩ := List.exists_cons_of_ne_nil nonempty
      rw [← startsInside_rewritten bounded identifier later] at restOutside
      have headInside : (some head).any isIdentifierChar = true :=
        run head (by rw [shape]; exact List.mem_cons_self)
      have tailInside : ∀ char ∈ tail, isIdentifierChar char = true :=
        fun char member => run char (by rw [shape]; exact List.mem_cons_of_mem _ member)
      rw [Piece.rewritten_found, List.map_append]
      have nowhere : standsAt? name earlier (new ++ Piece.rewritten new pieces) = none := by
        by_contra some
        obtain ⟨following, found⟩ := Option.ne_none_iff_exists'.mp some
        rw [standsAt?, Option.filter_eq_some_iff] at found
        obtain ⟨dropped, again⟩ := found
        have outside := (bounded.isWholeWord_iff.mp again).2
        have spells := spells_takeWhile bounded.ascii run dropped restOutside outside
        apply distinct _ ?_ spells
        obtain ⟨first, more, named, inside⟩ := bounded.exists_cons
        rw [named]
        simp [identifiers, identifiersFrom, inside]
      rw [shape] at nowhere ⊢
      apply Divided.kept nowhere
      apply Divided.kept_append bounded headInside tailInside
      intro last lastInside
      rw [← shape]
      apply inductionHypothesis
      rw [lastInside, bounded.getLast?_of_spells spelled]

end

theorem Divided.of_kept
    {name text : Text}
    {previous : Option Char}
    {char : Char}
    {pieces : List Piece}
    (divided : Divided name previous text (.kept char :: pieces)) :
    ∃ rest, text = char :: rest ∧ standsAt? name previous text = none ∧
      Divided name (some char) rest pieces := by
  cases divided with
  | kept stands later =>
      exact ⟨_, rfl, stands, later⟩

/-- What is not in a text is not in the part of it behind some characters. -/
theorem Divided.of_append
    {name front back : Text}
    {previous : Option Char}
    (divided : Divided name previous (front ++ back) ((front ++ back).map .kept))
    (nonempty : front ≠ []) :
    Divided name front.getLast? back (back.map .kept) := by
  induction front generalizing previous with
  | nil =>
      exact absurd rfl nonempty
  | cons char rest inductionHypothesis =>
      obtain ⟨_, shape, -, later⟩ := divided.of_kept
      rw [← (List.cons.inj shape).2] at later
      cases rest with
      | nil =>
          exact later
      | cons next more =>
          rw [List.getLast?_cons_cons]
          exact inductionHypothesis later (List.cons_ne_nil _ _)

/-- A name that is new to a text is found exactly where it was put. -/
theorem Divided.rewritten_found
    {name new text : Text}
    {previous earlier : Option Char}
    {pieces : List Piece}
    (bounded : Bounded name)
    (ascii : ∀ char ∈ new, char.toNat < 0x80)
    (identifier : isIdentifier new = true)
    (divided : Divided name previous text pieces)
    (fresh : Divided new previous text (text.map .kept))
    (sameSide : earlier.any isIdentifierChar = previous.any isIdentifierChar) :
    Divided new earlier (Piece.rewritten new pieces) (pieces.map (Piece.respell new)) := by
  have newBounded := Bounded.of_isIdentifier ascii identifier
  obtain ⟨nonempty, run⟩ := isIdentifier_iff.mp identifier
  induction divided generalizing earlier with
  | nil =>
      exact .nil
  | kept stands later inductionHypothesis =>
      obtain ⟨_, shape, nowhere, restFresh⟩ := fresh.of_kept
      rw [← (List.cons.inj shape).2] at restFresh
      rw [Piece.rewritten_kept]
      refine .kept ?_ (inductionHypothesis restFresh rfl)
      apply standsAt?_of_rewritten bounded identifier newBounded later sameSide _ nowhere
      intro part member
      rw [identifiersFrom_true_of_all fun other inTail => run other (List.mem_of_mem_tail inTail)]
        at member
      cases member
  | @found previous spelling rest pieces spelled whole later inductionHypothesis =>
      obtain ⟨free, restOutside⟩ := bounded.isWholeWord_iff.mp whole
      rw [← startsInside_rewritten bounded identifier later] at restOutside
      have spelledNonempty : spelling ≠ [] := by
        rintro rfl
        cases spelled
        exact bounded.ne_nil rfl
      rw [Piece.rewritten_found, List.map_cons]
      refine .found (.refl new) ?_ ?_
      · exact newBounded.isWholeWord_iff.mpr ⟨sameSide.trans free, restOutside⟩
      · apply inductionHypothesis (fresh.of_append spelledNonempty)
        rw [newBounded.getLast?_of_spells (.refl new), bounded.getLast?_of_spells spelled]

end Text

end RoutineServer
