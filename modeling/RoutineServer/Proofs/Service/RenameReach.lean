import RoutineServer.Proofs.Routine.NameForm
import RoutineServer.Proofs.Service.Editing
import RoutineServer.Proofs.Text.Matches
import RoutineServer.Proofs.Text.Replacement
import RoutineServer.Service.Navigation

namespace RoutineServer

/-!
# What a rename leaves behind

A rename looks for the word as it is written under the cursor, while references
are mentions of its normal form, plain or quoted. For a plain word the two
agree: a quoted mention has a plain one between its quotes. After a rename of a
plain word in all documents, none of them mentions the old name.
-/

namespace Changes

/-- The edits of a document. -/
def editsOf (changes : Changes) (uri : Uri) : List TextEdit :=
  (changes.lookup uri).getD []

theorem editsOf_insert_self
    (changes : Changes)
    (uri : Uri)
    (edits : List TextEdit) :
    (changes.insert uri edits).editsOf uri = edits := by
  have absent : List.lookup uri (changes.filter (·.1 != uri)) = none := by
    rw [List.lookup_eq_none_iff]
    intro change member
    have different := (List.mem_filter.mp member).2
    rw [bne_iff_ne] at different
    exact bne_iff_ne.mpr (Ne.symm different)
  simp [editsOf, Changes.insert, List.lookup_append, absent]

theorem editsOf_insert_of_ne
    {changes : Changes}
    {uri other : Uri}
    (different : other ≠ uri)
    (edits : List TextEdit) :
    (changes.insert uri edits).editsOf other = changes.editsOf other := by
  have kept : List.lookup other (changes.filter (·.1 != uri)) = List.lookup other changes := by
    induction changes with
    | nil =>
        rfl
    | cons change rest inductionHypothesis =>
        by_cases isSame : change.1 = uri
        · rw [List.filter_cons_of_neg (by simpa using isSame), inductionHypothesis,
            List.lookup_cons, beq_false_of_ne (isSame ▸ different)]
        · rw [List.filter_cons_of_pos (by simpa using isSame), List.lookup_cons,
            List.lookup_cons, inductionHypothesis]
  simp [editsOf, Changes.insert, List.lookup_append, kept, List.lookup_cons,
    beq_false_of_ne different]

section

variable {edits : Text → List TextEdit} {uri : Uri} {text : Text}

/-- A document that has its edits, or none yet, has them once it was its turn. -/
theorem editsOf_insertSome
    {changes : Changes}
    (before : changes.editsOf uri = [] ∨ changes.editsOf uri = edits text) :
    (changes.insertSome uri (edits text)).editsOf uri = edits text := by
  rw [insertSome]
  cases nothing : edits text with
  | nil =>
      rw [nothing] at before
      simpa using before
  | cons first rest =>
      exact editsOf_insert_self changes uri (first :: rest)

theorem editsOf_insertSome_of_ne
    {changes : Changes}
    {other : Uri}
    (different : uri ≠ other)
    (given : List TextEdit) :
    (changes.insertSome other given).editsOf uri = changes.editsOf uri := by
  rw [insertSome]
  split
  · rfl
  · exact editsOf_insert_of_ne different given

/-- Later documents do not change the edits of one that has them. -/
theorem editsOf_foldl_of_eq
    {changes : Changes}
    {documents : List (Uri × Text)}
    (sameText : ∀ document ∈ documents, document.1 = uri → document.2 = text)
    (here : changes.editsOf uri = edits text) :
    (documents.foldl (fun changes document =>
        changes.insertSome document.1 (edits document.2)) changes).editsOf uri =
      edits text := by
  induction documents generalizing changes with
  | nil =>
      exact here
  | cons document rest inductionHypothesis =>
      apply inductionHypothesis
      · exact fun other member => sameText other (List.mem_cons_of_mem _ member)
      · simp only
        by_cases isSame : document.1 = uri
        · rw [sameText document List.mem_cons_self isSame, isSame]
          exact editsOf_insertSome (.inr here)
        · exact (editsOf_insertSome_of_ne (Ne.symm isSame) _).trans here

/-- Every document gets the edits that its own text asks for. -/
theorem editsOf_foldl_of_mem
    {changes : Changes}
    {documents : List (Uri × Text)}
    (sameText : ∀ document ∈ documents, document.1 = uri → document.2 = text)
    (before : changes.editsOf uri = [])
    (member : (uri, text) ∈ documents) :
    (documents.foldl (fun changes document =>
        changes.insertSome document.1 (edits document.2)) changes).editsOf uri =
      edits text := by
  induction documents generalizing changes with
  | nil =>
      cases member
  | cons document rest inductionHypothesis =>
      have restSame : ∀ other ∈ rest, other.1 = uri → other.2 = text :=
        fun other inRest => sameText other (List.mem_cons_of_mem _ inRest)
      by_cases isSame : document.1 = uri
      · apply editsOf_foldl_of_eq restSame
        simp only
        rw [sameText document List.mem_cons_self isSame, isSame]
        exact editsOf_insertSome (.inl before)
      · apply inductionHypothesis restSame
        · exact (editsOf_insertSome_of_ne (Ne.symm isSame) _).trans before
        · rcases List.mem_cons.mp member with isFirst | inRest
          · rw [← isFirst] at isSame
            exact absurd rfl isSame
          · exact inRest

end

end Changes

namespace DocumentSource

/-- A document is listed with the text that is read from it. -/
theorem read_of_mem_documents
    {source : DocumentSource}
    {skip : Option Uri}
    {document : Uri × Text}
    (member : document ∈ source.documents skip) :
    source.read document.1 = .ok document.2 ∧ some document.1 ≠ skip := by
  simp only [documents, List.mem_filterMap, List.mem_filter, bne_iff_ne] at member
  obtain ⟨uri, ⟨-, different⟩, answer⟩ := member
  cases reading : source.read uri with
  | error reason =>
      simp [reading] at answer
  | ok text =>
      simp only [reading, Option.some.injEq] at answer
      rw [← answer]
      exact ⟨reading, different⟩

end DocumentSource

namespace Text

theorem trim_of_isPlainName
    {name : Text}
    (plain : isPlainName name = true) :
    trim name = name := by
  have visible : ∀ char ∈ name, isBlank char = false := by
    intro char member
    simp only [isPlainName, Bool.and_eq_true, List.all_eq_true, Bool.or_eq_true,
      beq_iff_eq] at plain
    refine (isCursorWordChar_visible ?_).1
    rcases plain.2 char member with alphanumeric | rfl
    · simp [isCursorWordChar, alphanumeric]
    · decide
  exact trim_eq_self (fun char first => visible char (List.mem_of_mem_head? first))
    fun char last => visible char (List.mem_of_mem_getLast? last)

/-- Where a word is not found it is not found in quotes either. -/
theorem Divided.quoted_eq_nil
    {name text : Text}
    {previous : Option Char}
    {pieces : List Piece}
    {offset : Nat}
    (divided : Divided ('"' :: name ++ ['"']) previous text pieces)
    (nowhere : Divided name previous text (text.map .kept)) :
    Piece.spansFrom offset pieces = [] := by
  induction divided generalizing offset with
  | nil =>
      rfl
  | kept _ _ inductionHypothesis =>
      obtain ⟨_, shape, -, later⟩ := nowhere.of_kept
      rw [← (List.cons.inj shape).2] at later
      exact inductionHypothesis later
  | @found previous spelling rest pieces spelled whole _ _ =>
      obtain ⟨inside, rfl, inner⟩ := spelled.of_quoted
      have isHere : standsAt? name (some '"') (inside ++ '"' :: rest) = some ('"' :: rest) := by
        refine standsAt?_eq_some_iff.mpr ⟨inside, rfl, inner, ?_⟩
        have outside : isIdentifierChar '"' = false := by decide
        simp [isWholeWord, outside]
      have behind : Divided name (some '"') (inside ++ '"' :: rest)
          ((inside ++ '"' :: rest).map .kept) :=
        @Divided.of_append name ['"'] (inside ++ '"' :: rest) previous
          (by simpa using nowhere) (List.cons_ne_nil _ _)
      cases shape : inside ++ '"' :: rest with
      | nil =>
          simp at shape
      | cons first more =>
          rw [shape] at behind isHere
          obtain ⟨-, -, notHere, -⟩ := behind.of_kept
          rw [notHere] at isHere
          cases isHere

end Text

namespace Navigation

open Text

/-- A document in which a word is not found does not mention it. -/
theorem referencesIn_eq_nil
    {text name : Text}
    (uri : Uri)
    (unquoted : '"' ∉ name)
    (nowhere : Divided name none text (text.map .kept)) :
    referencesIn uri text name true = [] := by
  by_cases empty : name = []
  · simp [referencesIn, empty]
  · have plain : wholeWords text name = [] := by
      rw [nowhere.wholeWords_eq empty, Piece.spansFrom_map_kept]
    have quoted : wholeWords text (Name.quote name) = [] := by
      rw [Name.quote_of_unquoted unquoted]
      have nonempty : '"' :: name ++ ['"'] ≠ [] := List.cons_ne_nil _ _
      obtain ⟨pieces, divided⟩ := Divided.exists_divided nonempty none text
      rw [divided.wholeWords_eq nonempty, divided.quoted_eq_nil nowhere]
    simp [referencesIn, mentions, plain, quoted]

end Navigation

namespace Rename

open Text

theorem wordAt?_of_target
    {text : Text}
    {position : Position}
    {located : Located}
    (aimed : target text position = .ok located) :
    wordAt? text position = some located := by
  rw [target] at aimed
  cases found : wordAt? text position with
  | none =>
      rw [found] at aimed
      cases aimed
  | some candidate =>
      rw [found] at aimed
      by_cases keyword : Keyword.contains candidate.word = true
      · simp only [keyword, ↓reduceIte] at aimed
        cases aimed
      · simp only [keyword, Bool.false_eq_true, ↓reduceIte] at aimed
        cases aimed
        rfl

theorem eq_trim_of_newName
    {oldName given written : Text}
    (named : Rename.newName oldName given = .ok written) :
    written = trim given := by
  simp only [Rename.newName] at named
  split at named
  · cases named
  · cases named
    rfl

/-- What a rename that succeeds has found and done. -/
theorem of_rename_eq_ok
    {source : DocumentSource}
    {uri : Uri}
    {text newName : Text}
    {position : Position}
    {outcome : Outcome}
    (renamed : rename source uri text position newName = .ok outcome) :
    ∃ located offset,
      wordAt? text position = some located ∧
        offsetOf? text position = some offset ∧
          outcome.scope = classify (.of text) located offset ∧
            outcome.changes =
              changes source uri text located.word (trim newName) outcome.scope := by
  simp only [rename, bind, Except.bind] at renamed
  cases aimed : target text position with
  | error reason =>
      rw [aimed] at renamed
      cases renamed
  | ok located =>
      rw [aimed] at renamed
      cases named : Rename.newName located.word newName with
      | error reason =>
          simp only [named] at renamed
          cases renamed
      | ok written =>
          cases placed : offsetOf? text position with
          | none =>
              simp only [named, placed] at renamed
              cases renamed
          | some offset =>
              simp only [named, placed] at renamed
              split at renamed
              · cases renamed
              · cases renamed
                rw [eq_trim_of_newName named]
                exact ⟨located, offset, wordAt?_of_target aimed, rfl, rfl, rfl⟩

/-- A rename that reaches all documents gives each the edits of its own text. -/
theorem editsOf_changes
    {source : DocumentSource}
    {uri : Uri}
    {text oldName newName : Text}
    {scope : RenameScope}
    (reaches : scope.isGlobal = true) :
    ∀ document ∈ (uri, text) :: source.documents (some uri),
      (changes source uri text oldName newName scope).editsOf document.1 =
        documentEdits document.2 oldName newName := by
  have isFold :
      changes source uri text oldName newName scope =
        (source.documents (some uri)).foldl
          (fun changes document =>
            changes.insertSome document.1 (documentEdits document.2 oldName newName))
          (Changes.insertSome [] uri (documentEdits text oldName newName)) := by
    cases scope with
    | routine first last context =>
        cases reaches
    | declaration =>
        rfl
    | callSite =>
        rfl
    | unscoped =>
        rfl
  rw [isFold]
  intro document member
  rcases List.mem_cons.mp member with isCurrent | isOther
  · rw [isCurrent]
    apply @Changes.editsOf_foldl_of_eq (documentEdits · oldName newName)
    · intro other listed isSame
      obtain ⟨-, different⟩ := DocumentSource.read_of_mem_documents listed
      exact absurd (congrArg some isSame) different
    · exact @Changes.editsOf_insertSome (documentEdits · oldName newName) _ _ _ (.inl rfl)
  · obtain ⟨reading, different⟩ := DocumentSource.read_of_mem_documents isOther
    apply @Changes.editsOf_foldl_of_mem (documentEdits · oldName newName)
    · intro other listed isSame
      obtain ⟨otherReading, -⟩ := DocumentSource.read_of_mem_documents listed
      rw [isSame, reading] at otherReading
      exact (Except.ok.inj otherReading).symm
    · exact Changes.editsOf_insertSome_of_ne (fun isSame => different (congrArg some isSame)) _
    · exact isOther

/--
A rename of a plain word in all documents leaves no mention of it: if the word
begins and ends with identifier characters and the new name is an identifier
other than those the word is made of, then each document, with its edits
applied, has no reference to the old name.
-/
theorem rename_leaves_no_reference
    {source : DocumentSource}
    {uri : Uri}
    {text newName : Text}
    {position : Position}
    {outcome : Outcome}
    {located : Located}
    (renamed : rename source uri text position newName = .ok outcome)
    (reaches : outcome.scope.isGlobal = true)
    (found : wordAt? text position = some located)
    (starts : located.word.head?.any isIdentifierChar = true)
    (ends : located.word.getLast?.any isIdentifierChar = true)
    (plain : isPlainName newName = true)
    (distinct : ∀ part ∈ identifiers located.word,
      part.map Char.toLower ≠ newName.map Char.toLower) :
    ∀ document ∈ (uri, text) :: source.documents (some uri),
      ∃ edited,
        TextEdit.applyAll? document.2 (outcome.changes.editsOf document.1) = some edited ∧
          Navigation.referencesIn document.1 edited (Name.normalize located.word) true = [] := by
  obtain ⟨other, offset, sameWord, -, -, isChanges⟩ := of_rename_eq_ok renamed
  rw [found, Option.some.injEq] at sameWord
  subst sameWord
  have unquoted : located.word.head? ≠ some '"' := by
    intro quoted
    rw [quoted] at starts
    exact absurd starts (by decide)
  have inWord := isCursorWordChar_of_wordAt? found unquoted
  have visible : ∀ char ∈ located.word, isBlank char = false ∧ char ≠ '"' :=
    fun char member => isCursorWordChar_visible (inWord char member)
  have wordAscii : ∀ char ∈ located.word, char.toNat < 0x80 :=
    fun char member => isCursorWordChar_ascii (inWord char member)
  have bounded : Bounded located.word := ⟨wordAscii, starts, ends⟩
  have identifier := isIdentifier_of_isPlainName plain
  have different : ∀ part ∈ identifiers located.word, ¬ Spells part newName := by
    intro part member spelled
    refine distinct part member (spelled.map_toLower ?_ (ascii_of_isPlainName plain))
    exact fun char inPart => wordAscii char (subset_of_mem_identifiersFrom member inPart)
  have oneLine : '\r' ∉ located.word ∧ '\n' ∉ located.word := by
    constructor
    · intro member
      exact absurd (visible _ member).1 (by decide)
    · intro member
      exact absurd (visible _ member).1 (by decide)
  rw [trim_of_isPlainName plain] at isChanges
  intro document listed
  obtain ⟨pieces, divided⟩ := Divided.exists_divided bounded.ne_nil none document.2
  refine ⟨Piece.rewritten newName pieces, ?_, ?_⟩
  · rw [isChanges, editsOf_changes reaches document listed]
    exact applyAll?_documentEdits bounded.ne_nil oneLine divided newName
  · rw [Name.normalize_eq_self visible]
    apply Navigation.referencesIn_eq_nil
    · exact fun member => (visible _ member).2 rfl
    · exact divided.rewritten_kept bounded identifier different rfl

/-- A routine of a schema, declared in capitals and called in quotes. -/
private def totals : Text :=
  "create function app.CALC(n int) as 'app.calc';\nselect \"app.Calc\"(1), app.calc(2);".toList

/-- Two documents that call the routine, one of them listed twice, and one that cannot be read. -/
private def totalsSource : DocumentSource :=
  .ofList
    [(.ofFilePath ["b.sql".toList], some "call app.Calc(3);".toList),
      (.ofFilePath ["gone.sql".toList], none),
      (.ofFilePath ["b.sql".toList], some [])]

theorem rename_leaves_no_reference_totals :
    ∃ outcome,
      rename totalsSource (.ofFilePath ["a.sql".toList]) totals ⟨1, 23⟩ "total".toList =
          .ok outcome ∧
        outcome.scope = .callSite ∧
          ∀ document ∈
              (.ofFilePath ["a.sql".toList], totals) ::
                totalsSource.documents (some (.ofFilePath ["a.sql".toList])),
            ∃ edited,
              TextEdit.applyAll? document.2 (outcome.changes.editsOf document.1) = some edited ∧
                Navigation.referencesIn document.1 edited "app.calc".toList true = [] := by
  have word : wordAt? totals ⟨1, 23⟩ = some ⟨⟨69, 77⟩, "app.calc".toList⟩ := by
    decide +kernel
  have succeeds :
      (rename totalsSource (.ofFilePath ["a.sql".toList]) totals ⟨1, 23⟩
            "total".toList).toOption.map (·.scope) =
        some .callSite := by
    decide +kernel
  cases renamed :
      rename totalsSource (.ofFilePath ["a.sql".toList]) totals ⟨1, 23⟩ "total".toList with
  | error reason =>
      rw [renamed] at succeeds
      cases succeeds
  | ok outcome =>
      rw [renamed] at succeeds
      have scope : outcome.scope = .callSite := Option.some.inj succeeds
      refine ⟨outcome, rfl, scope, ?_⟩
      exact rename_leaves_no_reference renamed (by rw [scope]; rfl) word (by decide +kernel)
        (by decide +kernel) (by decide +kernel) (by decide +kernel)

/-- A routine declared plain and called in quotes. -/
private def quotedCall : Text :=
  "create function calc() as 'x';\nselect \"calc\"();".toList

/-- A rename that starts at a quoted word leaves the plain mentions of the same name. -/
theorem rename_quoted_leaves_reference :
    ∃ outcome edited,
      rename (.ofList []) (.ofFilePath ["a.sql".toList]) quotedCall ⟨1, 9⟩ "total".toList =
          .ok outcome ∧
        outcome.scope = .callSite ∧
          TextEdit.applyAll? quotedCall (outcome.changes.editsOf (.ofFilePath ["a.sql".toList])) =
              some edited ∧
            Navigation.referencesIn (.ofFilePath ["a.sql".toList]) edited
                (Name.normalize "\"calc\"".toList) true =
              [⟨.ofFilePath ["a.sql".toList], ⟨⟨0, 16⟩, ⟨0, 20⟩⟩⟩] := by
  refine ⟨⟨.callSite, [(.ofFilePath ["a.sql".toList], [⟨⟨⟨1, 7⟩, ⟨1, 13⟩⟩, "total".toList⟩])]⟩,
    "create function calc() as 'x';\nselect total();".toList, ?_, rfl, ?_, ?_⟩
  · decide +kernel
  · decide +kernel
  · decide +kernel

end Rename

end RoutineServer
