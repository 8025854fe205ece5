import RoutineServer.Proofs.Routine.Placement
import RoutineServer.Proofs.Service.Presentation
import RoutineServer.Proofs.Text.Coordinates

namespace RoutineServer

/-!
# The declaration that a name stands for

Hover, go to definition and signature help each look a name up: in the document
itself, and then in the other documents of the workspace. All three find the same
declaration of the same document, and show it.
-/

/-- A declaration that was found for a name, and the document it stands in. -/
structure Resolution where
  uri : Uri
  text : Text
  declaration : Declaration
  deriving Repr, DecidableEq

namespace Resolution

/-- The place of the declared name. -/
def location (resolution : Resolution) : Location :=
  ⟨resolution.uri, Text.rangeOf resolution.text resolution.declaration.nameSpan⟩

/-- The card of the declared routine. -/
def card (resolution : Resolution) : Text :=
  Hover.cardOf resolution.text resolution.declaration

end Resolution

/-- Whether a document declares no routine under a name. -/
def Silent (text name : Text) : Prop :=
  Declaration.find? (Declaration.parse text) name = none

/--
What a name stands for in a document: the first declaration of it there, and if
there is none, the first one in the first document that has one, among the
candidates other than this document that can be read.
-/
inductive Resolves (source : DocumentSource) (uri : Uri) (text name : Text) :
    Resolution → Prop where
  | here
      {declaration : Declaration} :
      Declaration.find? (Declaration.parse text) name = some declaration →
      Resolves source uri text name ⟨uri, text, declaration⟩
  | elsewhere
      {front back : List Uri}
      {other : Uri}
      {content : Text}
      {declaration : Declaration} :
      Silent text name →
      source.candidates = front ++ other :: back →
      (∀ earlier ∈ front, earlier ≠ uri →
        ∀ shown, source.read earlier = .ok shown → Silent shown name) →
      other ≠ uri →
      source.read other = .ok content →
      Declaration.find? (Declaration.parse content) name = some declaration →
      Resolves source uri text name ⟨other, content, declaration⟩

namespace DocumentSource

variable {source : DocumentSource} {uri : Uri}

theorem findSome?_map
    (answer : Uri → Text → Option α)
    (view : α → β) :
    source.findSome? uri (fun other content => (answer other content).map view) =
      (source.findSome? uri answer).map view := by
  rw [findSome?, findSome?, List.map_findSome?]
  rfl

/-- The answer of a candidate that is not the current document and can be read. -/
def answerOf
    (source : DocumentSource)
    (current : Uri)
    (answer : Uri → Text → Option α)
    (candidate : Uri) :
    Option α :=
  if candidate = current then none
  else
    match source.read candidate with
    | .ok content => answer candidate content
    | .error _ => none

/-- The candidates are asked one after the other. -/
theorem findSome?_eq
    (answer : Uri → Text → Option α) :
    source.findSome? uri answer = source.candidates.findSome? (source.answerOf uri answer) := by
  rw [findSome?, documents]
  induction source.candidates with
  | nil =>
      rfl
  | cons candidate rest inductionHypothesis =>
      by_cases current : candidate = uri
      · simp [current, answerOf, inductionHypothesis]
      · cases isRead : source.read candidate with
        | error reason => simp [current, isRead, answerOf, inductionHypothesis]
        | ok content => simp [current, isRead, answerOf, List.findSome?_cons, inductionHypothesis]

theorem answerOf_eq_some_iff
    {answer : Uri → Text → Option α}
    {candidate : Uri}
    {value : α} :
    source.answerOf uri answer candidate = some value ↔
      candidate ≠ uri ∧
        ∃ content, source.read candidate = .ok content ∧ answer candidate content = some value := by
  rw [answerOf]
  by_cases current : candidate = uri
  · simp [current]
  · cases source.read candidate with
    | error reason => simp [current]
    | ok content => simp [current]

theorem answerOf_eq_none_iff
    {answer : Uri → Text → Option α}
    {candidate : Uri} :
    source.answerOf uri answer candidate = none ↔
      (candidate ≠ uri →
        ∀ content, source.read candidate = .ok content → answer candidate content = none) := by
  rw [answerOf]
  by_cases current : candidate = uri
  · simp [current]
  · cases source.read candidate with
    | error reason => simp [current]
    | ok content => simp [current]

end DocumentSource

/-- Look a name up, first in a document and then in the others. -/
def resolve? (source : DocumentSource) (uri : Uri) (text name : Text) : Option Resolution :=
  match Declaration.find? (Declaration.parse text) name with
  | some declaration => some ⟨uri, text, declaration⟩
  | none =>
      source.findSome? uri fun other content =>
        (Declaration.find? (Declaration.parse content) name).map (⟨other, content, ·⟩)

section Lookup

variable {source : DocumentSource} {uri : Uri} {text name : Text}

/-- The look-up finds what the name stands for. -/
theorem resolve?_eq_some_iff
    {resolution : Resolution} :
    resolve? source uri text name = some resolution ↔
      Resolves source uri text name resolution := by
  rw [resolve?]
  cases found : Declaration.find? (Declaration.parse text) name with
  | some declaration =>
      constructor
      · intro isResolution
        cases isResolution
        exact .here found
      · intro resolves
        cases resolves with
        | here again =>
            rw [found, Option.some.injEq] at again
            rw [again]
        | elsewhere silent =>
            rw [Silent, found] at silent
            cases silent
  | none =>
      simp only [DocumentSource.findSome?_eq, List.findSome?_eq_some_iff,
        DocumentSource.answerOf_eq_some_iff, DocumentSource.answerOf_eq_none_iff,
        Option.map_eq_some_iff, Option.map_eq_none_iff]
      constructor
      · rintro ⟨front, other, back, listed, ⟨different, content, isRead, _, declares, rfl⟩, earlier⟩
        exact .elsewhere found listed earlier different isRead declares
      · intro resolves
        cases resolves with
        | here again =>
            rw [found] at again
            cases again
        | @elsewhere front back other content declaration _ listed earlier different isRead
            declares =>
            exact ⟨front, other, back, listed,
              ⟨different, content, isRead, declaration, declares, rfl⟩, earlier⟩

/-- An answer that is made of the declaration and its document is made of what is found. -/
theorem map_resolve?
    (answer : Uri → Text → Option α)
    (view : Resolution → α)
    (answers :
      ∀ other content,
        answer other content =
          (Declaration.find? (Declaration.parse content) name).map (view ⟨other, content, ·⟩)) :
    (resolve? source uri text name).map view =
      (answer uri text).or (source.findSome? uri answer) := by
  have elsewhere :
      answer =
        fun other content =>
          ((Declaration.find? (Declaration.parse content) name).map
            (⟨other, content, ·⟩)).map view := by
    funext other content
    rw [answers, Option.map_map]
    rfl
  rw [resolve?, answers]
  cases Declaration.find? (Declaration.parse text) name with
  | some declaration => rfl
  | none => rw [elsewhere, DocumentSource.findSome?_map]; rfl

/-- The definition of a name is looked up in the document and then in the others. -/
theorem Navigation.definition?_eq
    {position : Position}
    (selected : nameAt? text position = some name) :
    definition? source uri text position =
      (definitionIn? uri text name).or (source.findSome? uri (definitionIn? · · name)) := by
  simp only [definition?, selected, Option.bind_eq_bind, Option.bind_some]
  cases definitionIn? uri text name with
  | none => rfl
  | some location => rfl

/-- Go to definition leads to the declared name. -/
theorem definition?_eq_map
    {position : Position}
    (selected : Navigation.nameAt? text position = some name) :
    Navigation.definition? source uri text position =
      (resolve? source uri text name).map Resolution.location := by
  rw [map_resolve? (Navigation.definitionIn? · · name) Resolution.location fun _ _ => rfl,
    Navigation.definition?_eq selected]

/-- Hover shows the card of the declared routine. -/
theorem hover_eq_map
    {position : Position}
    {located : Text.Located}
    (onWord : Text.wordAt? text position = some located) :
    Hover.answer? source uri text position =
      (resolve? source uri text (Name.normalize located.word)).map fun resolution =>
        ⟨resolution.card, Text.rangeOf text located.span⟩ := by
  have cards :
      (resolve? source uri text (Name.normalize located.word)).map Resolution.card =
        (Hover.cardIn? text (Name.normalize located.word)).or
          (source.findSome? uri fun _ content =>
            Hover.cardIn? content (Name.normalize located.word)) :=
    map_resolve? (fun _ content => Hover.cardIn? content (Name.normalize located.word))
      Resolution.card fun _ _ => rfl
  have ranged :
      ((resolve? source uri text (Name.normalize located.word)).map fun resolution =>
          (⟨resolution.card, Text.rangeOf text located.span⟩ : Hover.Answer)) =
        ((resolve? source uri text (Name.normalize located.word)).map Resolution.card).map
          (⟨·, Text.rangeOf text located.span⟩) := by
    rw [Option.map_map]
    rfl
  rw [ranged, cards]
  simp only [Hover.answer?, onWord, Option.bind_eq_bind, Option.bind_some]
  cases Hover.cardIn? text (Name.normalize located.word) with
  | some card => rfl
  | none =>
      rw [Option.none_or, Option.map_eq_bind]
      rfl

/-- Signature help shows the parameters of the declared routine. -/
theorem signature_eq_map
    {position : Position}
    {offset : Nat}
    {call : Call}
    (reached : Text.offsetOf? text position = some offset)
    (called : Call.at? text offset = some call) :
    Signature.answer? source uri text position =
      (resolve? source uri text call.name).map fun resolution =>
        Signature.of resolution.declaration call.argument := by
  rw [map_resolve? (fun _ content => Signature.in? content call) _ fun _ _ => rfl]
  simp only [Signature.answer?, reached, called, Option.bind_eq_bind, Option.bind_some]
  cases Signature.in? text call with
  | some signature => rfl
  | none => rfl

end Lookup

/-- The name of a declaration stands in the segment of the declaration. -/
theorem Segment.name_within
    {text : Text}
    {segment : Segment}
    {declaration : Declaration}
    (isSegment : segment ∈ segments text)
    (declares : segment.declaration? = some declaration) :
    segment.start < declaration.nameStart ∧ declaration.nameStart < segment.limit := by
  have frames := frames_of_declaration? declares
  have placed := Declaration.placed_of_declaration? isSegment declares
  have reaches : declaration.nameStart ≤ declaration.nameSpan.stop := Nat.le_add_right _ _
  constructor
  · rw [← frames.start_eq]
    exact placed.start_lt_nameStart
  · calc
      declaration.nameStart
          ≤ declaration.paramsOpen := Nat.le_trans reaches placed.name_le_paramsOpen
      _ < declaration.paramsClose := placed.paramsOpen_lt_paramsClose
      _ < declaration.stop := placed.paramsClose_lt_stop
      _ ≤ segment.limit := frames.stop_le

namespace Declaration

variable {text : Text} {first second : Declaration}

/-- Declarations with their names at one range are one declaration. -/
theorem eq_of_nameRange_eq
    (declared : first ∈ parse text)
    (alsoDeclared : second ∈ parse text)
    (same : Text.rangeOf text first.nameSpan = Text.rangeOf text second.nameSpan) :
    first = second := by
  rw [parse_eq_segments] at declared alsoDeclared
  obtain ⟨segment, isSegment, declares⟩ := List.mem_filterMap.mp declared
  obtain ⟨other, isOther, otherDeclares⟩ := List.mem_filterMap.mp alsoDeclared
  have sameStart : first.nameStart = second.nameStart :=
    Text.positionOf_injective (placed_of_declaration? isSegment declares).nameStart_boundary
      (placed_of_declaration? isOther otherDeclares).nameStart_boundary
      (congrArg Range.start same)
  by_cases different : segment = other
  · rw [different, otherDeclares, Option.some.injEq] at declares
    exact declares.symm
  · -- Different segments are apart, so that they cannot both hold the name.
    have within := Segment.name_within isSegment declares
    have otherWithin := Segment.name_within isOther otherDeclares
    rcases Segment.apart_of_ne isSegment isOther different with before | behind
    · omega
    · omega

end Declaration

theorem Resolves.declared
    {source : DocumentSource}
    {uri : Uri}
    {text name : Text}
    {resolution : Resolution}
    (resolves : Resolves source uri text name resolution) :
    resolution.declaration ∈ Declaration.parse resolution.text := by
  cases resolves with
  | here found => exact List.mem_of_find?_eq_some found
  | elsewhere _ _ _ _ _ found => exact List.mem_of_find?_eq_some found

/--
Hover, go to definition and signature help find the same declaration. With a
cursor on a word, hover and go to definition both have an answer or both have
none, and so has signature help in a call of the name. The definition is the
name of the declaration that the name stands for, and of no other one in its
document. The card shows the kind, the name, the parameters and the description
of this declaration, and the signature lists its parameters.
-/
theorem answers_resolve_alike
    {text : Text}
    {position : Position}
    {located : Text.Located}
    (onWord : Text.wordAt? text position = some located)
    (source : DocumentSource)
    (uri : Uri) :
    ((Hover.answer? source uri text position).isSome ↔
        (Navigation.definition? source uri text position).isSome) ∧
      (∀ location, Navigation.definition? source uri text position = some location →
        ∃ resolution,
          Resolves source uri text (Name.normalize located.word) resolution ∧
            resolution.uri = location.uri ∧
              (∀ declaration ∈ Declaration.parse resolution.text,
                Text.rangeOf resolution.text declaration.nameSpan = location.range ↔
                  declaration = resolution.declaration) ∧
                (∃ card,
                  Hover.answer? source uri text position =
                      some ⟨card, Text.rangeOf text located.span⟩ ∧
                    Hover.IsCard resolution.text resolution.declaration card) ∧
                  ∀ place offset call,
                    Text.offsetOf? text place = some offset → Call.at? text offset = some call →
                      call.name = Name.normalize located.word →
                        ∃ signature,
                          Signature.answer? source uri text place = some signature ∧
                            signature.Shows resolution.declaration call.argument) ∧
        (Navigation.definition? source uri text position = none →
          ∀ place offset call,
            Text.offsetOf? text place = some offset → Call.at? text offset = some call →
              call.name = Name.normalize located.word →
                Signature.answer? source uri text place = none) := by
  have selected : Navigation.nameAt? text position = some (Name.normalize located.word) := by
    rw [Navigation.nameAt?, onWord]
    rfl
  rw [hover_eq_map onWord, definition?_eq_map selected]
  refine ⟨by rw [Option.isSome_map, Option.isSome_map], ?_, ?_⟩
  · intro location isLocation
    obtain ⟨resolution, found, rfl⟩ := Option.map_eq_some_iff.mp isLocation
    have resolves := resolve?_eq_some_iff.mp found
    refine ⟨resolution, resolves, rfl, ?_, ⟨resolution.card, by rw [found]; rfl, ?_⟩, ?_⟩
    · intro declaration declared
      constructor
      · exact Declaration.eq_of_nameRange_eq declared resolves.declared
      · rintro rfl
        rfl
    · exact Hover.isCard_cardOf resolves.declared
    · intro place offset call reached called sameName
      refine ⟨Signature.of resolution.declaration call.argument, ?_, Signature.shows_of _ _⟩
      rw [signature_eq_map reached called, sameName, found]
      rfl
  · intro unresolved place offset call reached called sameName
    rw [Option.map_eq_none_iff] at unresolved
    rw [signature_eq_map reached called, sameName, unresolved]
    rfl

/-- A call of a routine that another document declares twice, in letters of another case. -/
def ledgerCall : Text :=
  "select \"total\"(1, 2);".toList

def ledgerUri (name : String) : Uri :=
  .ofFilePath [name.toList]

/-- Behind the document itself and one that cannot be read, two documents declare the routine. -/
def ledgers : DocumentSource :=
  .ofList [
    (ledgerUri "call.sql", some ledgerCall),
    (ledgerUri "gone.sql", none),
    (ledgerUri "first.sql",
      some ("create function Total(a int, b int) as 'x';\n" ++
        "create procedure total() as 'y';\ncomment on function Total is 'sum';").toList),
    (ledgerUri "second.sql", some "create function total(c int) as 'z';".toList)]

/-- The card of the routine that the call stands for. -/
def ledgerCard : Text :=
  ("**Function**: \x60Total\x60\n\n**Parameters:**\n\x60\x60\x60sql\na int, b int\n" ++
    "\x60\x60\x60\n\n**Description:**\nsum").toList

theorem answers_resolve_alike_ledgers :
    Navigation.definition? ledgers (ledgerUri "call.sql") ledgerCall ⟨0, 9⟩ =
        some ⟨ledgerUri "first.sql", ⟨⟨0, 16⟩, ⟨0, 21⟩⟩⟩ ∧
      Hover.answer? ledgers (ledgerUri "call.sql") ledgerCall ⟨0, 9⟩ =
          some ⟨ledgerCard, ⟨⟨0, 7⟩, ⟨0, 14⟩⟩⟩ ∧
        Signature.answer? ledgers (ledgerUri "call.sql") ledgerCall ⟨0, 17⟩ =
            some ⟨"Total(a int, b int)".toList, ["a int".toList, "b int".toList], 1⟩ ∧
          ∃ resolution,
            Resolves ledgers (ledgerUri "call.sql") ledgerCall "total".toList resolution ∧
              resolution.uri = ledgerUri "first.sql" ∧
                Hover.IsCard resolution.text resolution.declaration ledgerCard ∧
                  Signature.Shows resolution.declaration 1
                    ⟨"Total(a int, b int)".toList, ["a int".toList, "b int".toList], 1⟩ := by
  have onWord :
      Text.wordAt? ledgerCall ⟨0, 9⟩ = some ⟨⟨7, 14⟩, "\"total\"".toList⟩ := by
    decide +kernel
  have defined :
      Navigation.definition? ledgers (ledgerUri "call.sql") ledgerCall ⟨0, 9⟩ =
        some ⟨ledgerUri "first.sql", ⟨⟨0, 16⟩, ⟨0, 21⟩⟩⟩ := by
    decide +kernel
  have shown :
      Hover.answer? ledgers (ledgerUri "call.sql") ledgerCall ⟨0, 9⟩ =
        some ⟨ledgerCard, ⟨⟨0, 7⟩, ⟨0, 14⟩⟩⟩ := by
    decide +kernel
  have listed :
      Signature.answer? ledgers (ledgerUri "call.sql") ledgerCall ⟨0, 17⟩ =
        some ⟨"Total(a int, b int)".toList, ["a int".toList, "b int".toList], 1⟩ := by
    decide +kernel
  have name : Name.normalize "\"total\"".toList = "total".toList := by decide +kernel
  obtain ⟨-, resolved, -⟩ := answers_resolve_alike onWord ledgers (ledgerUri "call.sql")
  obtain ⟨resolution, resolves, place, -, ⟨card, hovers, isCard⟩, signed⟩ := resolved _ defined
  obtain ⟨signature, signs, shows⟩ :=
    signed ⟨0, 17⟩ 17 ⟨"total".toList, 1⟩ (by decide +kernel) (by decide +kernel) name.symm
  rw [shown, Option.some.injEq, Hover.Answer.mk.injEq] at hovers
  rw [listed, Option.some.injEq] at signs
  rw [name] at resolves
  rw [← hovers.1] at isCard
  rw [← signs] at shows
  exact ⟨defined, shown, listed, resolution, resolves, place, isCard, shows⟩

end RoutineServer
