import Mathlib.Data.List.Basic
import Mathlib.Data.List.Forall2
import Mathlib.Data.List.Induction
import RoutineServer.Proofs.Index.Consistency

namespace RoutineServer

/-!
# The index and its history

The index is changed by updates, by documents that are forgotten and by
rebuilding. What it knows after any number of changes is told by the writes
since it was last rebuilt: a document is in the index if it was not forgotten
after its last update, with one routine for each declaration of the text it had
then. A name is answered by the document that has gone longest without an
update, of those that declare it, with the first declaration of the name there.
-/

/-- A document declares a name, given in lower case. -/
def DeclaresKey (text key : Text) : Prop :=
  ∃ declaration ∈ Declaration.parse text, Text.lower declaration.name = key

/-- A declaration is the first one of a document under a name, given in lower case. -/
structure DeclaresFirst (text key : Text) (declaration : Declaration) : Prop where
  named : Text.lower declaration.name = key
  first : ∃ front back,
    Declaration.parse text = front ++ declaration :: back ∧
      ∀ earlier ∈ front, Text.lower earlier.name ≠ key

namespace Summary

/-- A routine of the index stands for a declaration of a document. -/
structure StandsFor (uri text : Text) (summary : Summary) (declaration : Declaration) : Prop where
  name_eq : summary.name = declaration.name
  kind_eq : summary.kind = declaration.kind
  parameters_eq : summary.parameters = Text.trim declaration.parameters
  description_eq : summary.description = Description.find? text declaration.spelling
  uri_eq : summary.uri = uri

section OfText

variable {uri text key : Text}

theorem standsFor_iff
    {summary : Summary}
    {declaration : Declaration} :
    StandsFor uri text summary declaration ↔ summary = ofDeclaration uri text declaration := by
  constructor
  · rintro ⟨name_eq, kind_eq, parameters_eq, description_eq, uri_eq⟩
    obtain ⟨name, kind, parameters, description, written⟩ := summary
    rw [ofDeclaration, Summary.mk.injEq]
    exact ⟨name_eq, kind_eq, parameters_eq, description_eq, uri_eq⟩
  · rintro rfl
    exact ⟨rfl, rfl, rfl, rfl, rfl⟩

/-- The routines of a document stand for its declarations, one by one and in order. -/
theorem eq_ofText_iff
    {summaries : List Summary} :
    summaries = ofText uri text ↔
      List.Forall₂ (StandsFor uri text) summaries (Declaration.parse text) := by
  have related :
      StandsFor uri text =
        fun summary declaration => summary = ofDeclaration uri text declaration := by
    funext summary declaration
    exact propext standsFor_iff
  rw [related, ← List.forall₂_map_right_iff, List.forall₂_eq_eq_eq]
  rfl

theorem declares_ofText_iff :
    declares (ofText uri text) key = true ↔ DeclaresKey text key := by
  simp only [declares_iff, ofText, List.map_map, List.mem_map]
  rfl

/-- The first routine under a name stands for the first declaration of the name. -/
theorem find?_ofText_eq_some_iff
    {summary : Summary} :
    (ofText uri text).find? (·.key == key) = some summary ↔
      ∃ declaration,
        DeclaresFirst text key declaration ∧ StandsFor uri text summary declaration := by
  simp only [ofText, List.find?_map, Option.map_eq_some_iff, List.find?_eq_some_iff_append,
    standsFor_iff]
  constructor
  · rintro ⟨declaration, ⟨named, front, back, parsed, earlier⟩, rfl⟩
    refine ⟨declaration, ⟨beq_iff_eq.mp named, front, back, parsed, ?_⟩, rfl⟩
    intro other member
    have passed := earlier other member
    rwa [Bool.not_eq_true', Function.comp_apply, beq_eq_false_iff_ne] at passed
  · rintro ⟨declaration, ⟨named, front, back, parsed, earlier⟩, rfl⟩
    refine ⟨declaration, ⟨beq_iff_eq.mpr named, front, back, parsed, ?_⟩, rfl⟩
    intro other member
    rw [Bool.not_eq_true', Function.comp_apply, beq_eq_false_iff_ne]
    exact earlier other member

end OfText

end Summary

/-- A change of the index. -/
inductive IndexChange where
  | update (uri text : Text)
  | invalidate (uri : Text)
  | rebuild (documents : List (Text × Text))
  deriving Repr, DecidableEq

/-- What is written of a document: its text, or nothing when it is to be forgotten. -/
abbrev IndexWrite := Text × Option Text

namespace IndexWrite

/-- The writes that count after a change: rebuilding starts them anew. -/
def record (writes : List IndexWrite) : IndexChange → List IndexWrite
  | .update uri text => writes ++ [(uri, some text)]
  | .invalidate uri => writes ++ [(uri, none)]
  | .rebuild documents => documents.map fun document => (document.1, some document.2)

/-- The writes since the last rebuilding, in order, with those of the rebuilding. -/
def log (changes : List IndexChange) : List IndexWrite :=
  changes.foldl record []

theorem log_append
    (changes : List IndexChange)
    (change : IndexChange) :
    log (changes ++ [change]) = record (log changes) change := by
  rw [log, List.foldl_append]
  rfl

/-- The last write of a document was at a moment, and wrote a text. -/
structure StandsAt (writes : List IndexWrite) (moment : Nat) (uri text : Text) : Prop where
  written : writes[moment]? = some (uri, some text)
  last : ∀ write ∈ writes.drop (moment + 1), write.1 ≠ uri

/-- The document whose last write was at a moment, if there is one and it has a text. -/
def standingAt? (writes : List IndexWrite) (moment : Nat) : Option (Text × Text) :=
  writes[moment]?.bind fun write =>
    if (writes.drop (moment + 1)).any (·.1 == write.1) then none
    else write.2.map (write.1, ·)

theorem standingAt?_eq_some_iff
    {writes : List IndexWrite}
    {moment : Nat}
    {uri text : Text} :
    standingAt? writes moment = some (uri, text) ↔ StandsAt writes moment uri text := by
  simp only [standingAt?, Option.bind_eq_some_iff, Option.ite_none_left_eq_some,
    Option.map_eq_some_iff, Bool.not_eq_true, List.any_eq_false, beq_iff_eq]
  constructor
  · rintro ⟨⟨_, _⟩, written, last, _, rfl, same⟩
    cases same
    exact ⟨written, last⟩
  · rintro ⟨written, last⟩
    exact ⟨_, written, last, text, rfl, rfl⟩

/-- The documents that stand, in the order of their last writes. -/
def standing (writes : List IndexWrite) : List (Text × Text) :=
  (List.range writes.length).filterMap (standingAt? writes)

theorem standingAt?_eq_none_of_le
    {writes : List IndexWrite}
    {moment : Nat}
    (beyond : writes.length ≤ moment) :
    standingAt? writes moment = none := by
  rw [standingAt?, List.getElem?_eq_none beyond, Option.bind_none]

theorem standingAt?_append
    {writes : List IndexWrite}
    {moment : Nat}
    (before : moment < writes.length)
    (uri : Text)
    (text? : Option Text) :
    standingAt? (writes ++ [(uri, text?)]) moment =
      (standingAt? writes moment).filter (·.1 != uri) := by
  rw [standingAt?, standingAt?, List.getElem?_append_left before,
    List.drop_append_of_le_length before, List.getElem?_eq_getElem before]
  obtain ⟨first, firstText?⟩ := writes[moment]
  simp only [Option.bind_some, List.any_append, List.any_cons, List.any_nil, Bool.or_false]
  cases firstText? with
  | none =>
      simp
  | some text =>
      by_cases rewritten : (writes.drop (moment + 1)).any (·.1 == first) = true
      · simp [rewritten]
      · by_cases here : uri = first
        · simp [rewritten, here, Option.filter]
        · simp [rewritten, here, Option.filter, Ne.symm here]

/-- A further write takes the place of all earlier ones of its document. -/
theorem standing_append
    (writes : List IndexWrite)
    (uri : Text)
    (text? : Option Text) :
    standing (writes ++ [(uri, text?)]) =
      (standing writes).filter (·.1 != uri) ++ (text?.map (uri, ·)).toList := by
  have earlier :
      (List.range writes.length).filterMap (standingAt? (writes ++ [(uri, text?)])) =
        (standing writes).filter (·.1 != uri) := by
    rw [standing, List.filter_filterMap]
    refine List.filterMap_congr fun moment member => ?_
    exact standingAt?_append (List.mem_range.mp member) uri text?
  have latest : standingAt? (writes ++ [(uri, text?)]) writes.length = text?.map (uri, ·) := by
    simp [standingAt?]
  rw [standing, List.length_append, List.length_singleton, List.range_succ, List.filterMap_append,
    earlier, List.filterMap_cons, latest]
  cases text? with
  | none => rfl
  | some text => rfl

theorem mem_standing_iff
    {writes : List IndexWrite}
    {uri text : Text} :
    (uri, text) ∈ standing writes ↔ ∃ moment, StandsAt writes moment uri text := by
  simp only [standing, List.mem_filterMap, List.mem_range, ← standingAt?_eq_some_iff]
  constructor
  · rintro ⟨moment, -, stands⟩
    exact ⟨moment, stands⟩
  · rintro ⟨moment, stands⟩
    refine ⟨moment, ?_, stands⟩
    by_contra beyond
    rw [standingAt?_eq_none_of_le (Nat.le_of_not_lt beyond)] at stands
    cases stands

/-- The first answer among the documents that stand is that of the earliest one with an answer. -/
theorem findSome?_standing_eq_some_iff
    {writes : List IndexWrite}
    {answer : Text × Text → Option α}
    {found : α} :
    (standing writes).findSome? answer = some found ↔
      ∃ moment uri text,
        StandsAt writes moment uri text ∧ answer (uri, text) = some found ∧
          ∀ otherMoment otherUri otherText,
            StandsAt writes otherMoment otherUri otherText →
              (answer (otherUri, otherText)).isSome = true → moment ≤ otherMoment := by
  have first :=
    RoutineIndex.findSome?_eq_bind_find?
      (fun moment => (rfl : ((standingAt? writes moment).bind answer).isSome = _))
      (List.range writes.length)
  have composed :
      (standing writes).findSome? answer =
        (List.range writes.length).findSome? fun moment =>
          (standingAt? writes moment).bind answer := by
    rw [standing, ← List.head?_filterMap, List.filterMap_filterMap, List.head?_filterMap]
  simp only [composed, first, Option.bind_eq_some_iff, List.find?_range_eq_some, List.mem_range]
  constructor
  · rintro ⟨moment, ⟨-, -, earliest⟩, ⟨uri, text⟩, stands, answered⟩
    refine ⟨moment, uri, text, standingAt?_eq_some_iff.mp stands, answered, ?_⟩
    intro otherMoment otherUri otherText otherStands otherAnswers
    by_contra earlier
    have silent := earliest otherMoment (Nat.lt_of_not_le earlier)
    rw [standingAt?_eq_some_iff.mpr otherStands, Option.bind_some, otherAnswers] at silent
    cases silent
  · rintro ⟨moment, uri, text, stands, answered, earliest⟩
    rw [← standingAt?_eq_some_iff] at stands
    refine ⟨moment, ⟨?_, ?_, ?_⟩, (uri, text), stands, answered⟩
    · rw [stands, Option.bind_some, answered, Option.isSome_some]
    · by_contra beyond
      rw [standingAt?_eq_none_of_le (Nat.le_of_not_lt beyond)] at stands
      cases stands
    · intro earlier isEarlier
      by_contra speaks
      rw [Bool.not_eq_true, Bool.not_eq_false'] at speaks
      obtain ⟨value, found⟩ := Option.isSome_iff_exists.mp speaks
      obtain ⟨⟨otherUri, otherText⟩, otherStands, otherAnswers⟩ :=
        Option.bind_eq_some_iff.mp found
      have later :=
        earliest earlier otherUri otherText (standingAt?_eq_some_iff.mp otherStands)
          (by rw [otherAnswers, Option.isSome_some])
      omega

end IndexWrite

namespace RoutineIndex

/-- The index after a change. -/
def change (index : RoutineIndex) : IndexChange → RoutineIndex
  | .update uri text => index.update uri text
  | .invalidate uri => index.invalidate uri
  | .rebuild documents => rebuild documents

/-- The index after some changes, empty at first. -/
def afterChanges (changes : List IndexChange) : RoutineIndex :=
  changes.foldl change empty

theorem afterChanges_append
    (changes : List IndexChange)
    (change : IndexChange) :
    afterChanges (changes ++ [change]) = (afterChanges changes).change change := by
  rw [afterChanges, List.foldl_append]
  rfl

/-- The index holds the documents that stand, and agrees with itself. -/
structure Tracks (index : RoutineIndex) (writes : List IndexWrite) : Prop where
  consistent : Consistent index
  files_eq :
    index.files = (IndexWrite.standing writes).map fun document =>
      (document.1, Summary.ofText document.1 document.2)

theorem tracks_empty : Tracks empty [] where
  consistent := consistent_empty
  files_eq := rfl

theorem filter_map_ofText
    (documents : List (Text × Text))
    (uri : Text) :
    (documents.map fun document => (document.1, Summary.ofText document.1 document.2)).filter
        (·.1 != uri) =
      (documents.filter (·.1 != uri)).map fun document =>
        (document.1, Summary.ofText document.1 document.2) := by
  rw [List.filter_map]
  rfl

section Tracked

variable {index : RoutineIndex} {writes : List IndexWrite}

theorem Tracks.update
    (tracks : Tracks index writes)
    (uri text : Text) :
    Tracks (index.update uri text) (writes ++ [(uri, some text)]) where
  consistent := tracks.consistent.update uri text
  files_eq := by
    rw [update_files, tracks.files_eq, IndexWrite.standing_append, filter_map_ofText,
      List.map_append]
    rfl

theorem Tracks.invalidate
    (tracks : Tracks index writes)
    (uri : Text) :
    Tracks (index.invalidate uri) (writes ++ [(uri, none)]) where
  consistent := tracks.consistent.invalidate uri
  files_eq := by
    rw [invalidate_files, tracks.files_eq, IndexWrite.standing_append, filter_map_ofText,
      List.map_append]
    simp

theorem Tracks.updateAll
    (tracks : Tracks index writes)
    (documents : List (Text × Text)) :
    Tracks (documents.foldl (fun index document => index.update document.1 document.2) index)
      (writes ++ documents.map fun document => (document.1, some document.2)) := by
  induction documents generalizing index writes with
  | nil =>
      simpa using tracks
  | cons document rest inductionHypothesis =>
      have later := inductionHypothesis (tracks.update document.1 document.2)
      rwa [List.append_assoc] at later

/-- Every change keeps track; rebuilding starts over from an empty index. -/
theorem Tracks.change
    (tracks : Tracks index writes) :
    ∀ change, Tracks (index.change change) (IndexWrite.record writes change)
  | .update uri text => tracks.update uri text
  | .invalidate uri => tracks.invalidate uri
  | .rebuild documents =>
      have filled := tracks_empty.updateAll documents
      {
        consistent := ⟨filled.consistent.filesDistinct, filled.consistent.namesDistinct,
          filled.consistent.byName_eq⟩
        files_eq := filled.files_eq
      }

theorem Tracks.mem_files_iff
    (tracks : Tracks index writes)
    {uri : Text}
    {summaries : List Summary} :
    (uri, summaries) ∈ index.files ↔
      ∃ moment text,
        IndexWrite.StandsAt writes moment uri text ∧
          List.Forall₂ (Summary.StandsFor uri text) summaries (Declaration.parse text) := by
  simp only [tracks.files_eq, List.mem_map, ← Summary.eq_ofText_iff]
  constructor
  · rintro ⟨⟨uri, text⟩, member, same⟩
    cases same
    obtain ⟨moment, stands⟩ := IndexWrite.mem_standing_iff.mp member
    exact ⟨moment, text, stands, rfl⟩
  · rintro ⟨moment, text, stands, rfl⟩
    exact ⟨(uri, text), IndexWrite.mem_standing_iff.mpr ⟨moment, stands⟩, rfl⟩

/-- A name stands for its first declaration in the document that was written longest ago. -/
theorem Tracks.lookup?_eq_some_iff
    (tracks : Tracks index writes)
    {name : Text}
    {summary : Summary} :
    index.lookup? name = some summary ↔
      ∃ moment uri text,
        IndexWrite.StandsAt writes moment uri text ∧
          (∃ declaration,
            DeclaresFirst text (Text.lower name) declaration ∧
              Summary.StandsFor uri text summary declaration) ∧
            ∀ otherMoment otherUri otherText,
              IndexWrite.StandsAt writes otherMoment otherUri otherText →
                DeclaresKey otherText (Text.lower name) → moment ≤ otherMoment := by
  rw [lookup?, tracks.consistent.lookupKey?_eq, tracks.files_eq, List.findSome?_map,
    IndexWrite.findSome?_standing_eq_some_iff]
  simp only [Function.comp_apply, Summary.isSome_find?_eq_declares, Summary.declares_ofText_iff,
    Summary.find?_ofText_eq_some_iff]

theorem Tracks.isSome_lookup?_iff
    (tracks : Tracks index writes)
    {name : Text} :
    (index.lookup? name).isSome = true ↔
      ∃ moment uri text,
        IndexWrite.StandsAt writes moment uri text ∧ DeclaresKey text (Text.lower name) := by
  rw [lookup?, tracks.consistent.lookupKey?_eq, tracks.files_eq, List.findSome?_isSome_iff]
  simp only [List.mem_map, Summary.isSome_find?_eq_declares]
  constructor
  · rintro ⟨_, ⟨⟨uri, text⟩, member, rfl⟩, declared⟩
    obtain ⟨moment, stands⟩ := IndexWrite.mem_standing_iff.mp member
    exact ⟨moment, uri, text, stands, Summary.declares_ofText_iff.mp declared⟩
  · rintro ⟨moment, uri, text, stands, declared⟩
    exact ⟨_, ⟨(uri, text), IndexWrite.mem_standing_iff.mpr ⟨moment, stands⟩, rfl⟩,
      Summary.declares_ofText_iff.mpr declared⟩

/-- The entry of a name lists, once each, the documents that stand and declare it. -/
theorem Tracks.mem_byName
    (tracks : Tracks index writes)
    {key : Text}
    {uris : List Text}
    (member : (key, uris) ∈ index.byName) :
    uris ≠ [] ∧ uris.Nodup ∧
      ∀ uri, uri ∈ uris ↔
        ∃ moment text, IndexWrite.StandsAt writes moment uri text ∧ DeclaresKey text key := by
  have found := lookup_eq_some_of_mem tracks.consistent.namesDistinct member
  rw [tracks.consistent.byName_eq, listing?, Option.ite_none_left_eq_some,
    Option.some.injEq] at found
  obtain ⟨nonempty, rfl⟩ := found
  refine ⟨by simpa using nonempty, ?_, ?_⟩
  · exact tracks.consistent.filesDistinct.sublist (List.filter_sublist.map _)
  · intro uri
    simp only [mem_declaring_iff, tracks.mem_files_iff, ← Summary.eq_ofText_iff]
    constructor
    · rintro ⟨_, ⟨moment, text, stands, rfl⟩, declared⟩
      exact ⟨moment, text, stands, Summary.declares_ofText_iff.mp declared⟩
    · rintro ⟨moment, text, stands, declared⟩
      exact ⟨_, ⟨moment, text, stands, rfl⟩, Summary.declares_ofText_iff.mpr declared⟩

end Tracked

theorem tracks_afterChanges
    (changes : List IndexChange) :
    Tracks (afterChanges changes) (IndexWrite.log changes) := by
  induction changes using List.reverseRecOn with
  | nil =>
      exact tracks_empty
  | append_singleton earlier last inductionHypothesis =>
      rw [afterChanges_append, IndexWrite.log_append]
      exact inductionHypothesis.change last

theorem ready_afterChanges_iff
    (changes : List IndexChange) :
    (afterChanges changes).ready = true ↔ ∃ documents, .rebuild documents ∈ changes := by
  induction changes using List.reverseRecOn with
  | nil =>
      simp [afterChanges, empty]
  | append_singleton earlier last inductionHypothesis =>
      rw [afterChanges_append]
      cases last with
      | update uri text =>
          rw [change, update_ready, inductionHypothesis]
          simp
      | invalidate uri =>
          rw [change, invalidate_ready, inductionHypothesis]
          simp
      | rebuild documents =>
          exact iff_of_true rfl ⟨documents, by simp⟩

/--
What an index knows, told by the writes that count and the declarations of the
texts that they wrote.
-/
structure Reflects (index : RoutineIndex) (writes : List IndexWrite) : Prop where
  filesDistinct : (index.files.map (·.1)).Nodup
  /-- The documents are those that stand, with a routine for each declaration of their last text. -/
  mem_files_iff : ∀ uri summaries,
    (uri, summaries) ∈ index.files ↔
      ∃ moment text,
        IndexWrite.StandsAt writes moment uri text ∧
          List.Forall₂ (Summary.StandsFor uri text) summaries (Declaration.parse text)
  isSome_lookup?_iff : ∀ name,
    (index.lookup? name).isSome = true ↔
      ∃ moment uri text,
        IndexWrite.StandsAt writes moment uri text ∧ DeclaresKey text (Text.lower name)
  /-- The first declaration of a name in the document whose last write is the oldest. -/
  lookup?_eq_some_iff : ∀ name summary,
    index.lookup? name = some summary ↔
      ∃ moment uri text,
        IndexWrite.StandsAt writes moment uri text ∧
          (∃ declaration,
            DeclaresFirst text (Text.lower name) declaration ∧
              Summary.StandsFor uri text summary declaration) ∧
            ∀ otherMoment otherUri otherText,
              IndexWrite.StandsAt writes otherMoment otherUri otherText →
                DeclaresKey otherText (Text.lower name) → moment ≤ otherMoment
  /-- The names hold one spelling of each name that is found, and no other. -/
  filter_names : ∀ name,
    index.names.filter (Text.lower · == Text.lower name) =
      ((index.lookup? name).map Summary.name).toList
  namesSorted :
    index.names.Pairwise fun left right =>
      Text.atMost (Text.lower left) (Text.lower right) = true
  namesDistinct : (index.byName.map (·.1)).Nodup
  mem_byName : ∀ key uris, (key, uris) ∈ index.byName →
    uris ≠ [] ∧ uris.Nodup ∧
      ∀ uri, uri ∈ uris ↔
        ∃ moment text, IndexWrite.StandsAt writes moment uri text ∧ DeclaresKey text key

/--
After any changes of an empty index, it knows what the writes since it was last
rebuilt say, and it is ready if it was ever rebuilt.
-/
theorem afterChanges_reflects_log
    (changes : List IndexChange) :
    Reflects (afterChanges changes) (IndexWrite.log changes) ∧
      ((afterChanges changes).ready = true ↔ ∃ documents, .rebuild documents ∈ changes) := by
  have tracks := tracks_afterChanges changes
  refine ⟨?_, ready_afterChanges_iff changes⟩
  exact {
    filesDistinct := tracks.consistent.filesDistinct
    mem_files_iff := fun _ _ => tracks.mem_files_iff
    isSome_lookup?_iff := fun _ => tracks.isSome_lookup?_iff
    lookup?_eq_some_iff := fun _ _ => tracks.lookup?_eq_some_iff
    filter_names := tracks.consistent.filter_names
    namesSorted := pairwise_names _
    namesDistinct := tracks.consistent.namesDistinct
    mem_byName := fun _ _ => tracks.mem_byName
  }

/--
Two documents declare a name, in different letters and one of them twice; the
other one is written again, and a third one is forgotten.
-/
private def shuffled : List IndexChange :=
  [.rebuild [
      ("a".toList, "create function F() as 'x';".toList),
      ("b".toList, ("create function f( n int ) as 'x';create function F() as 'x';" ++
        "comment on function f is 'y';").toList)],
    .update "a".toList "create function F(m int) as 'x';".toList,
    .update "c".toList "create function g() as 'x';".toList,
    .invalidate "c".toList]

/-- The document that was not written again answers, with the first of its two declarations. -/
theorem afterChanges_reflects_log_shuffled :
    let index := afterChanges shuffled
    index.lookup? ['F'] = some ⟨['f'], .function, "n int".toList, some ['y'], ['b']⟩ ∧
      (∃ moment text declaration,
        IndexWrite.StandsAt (IndexWrite.log shuffled) moment ['b'] text ∧
          DeclaresFirst text (Text.lower ['F']) declaration ∧ declaration.name = ['f']) ∧
        index.names.filter (Text.lower · == Text.lower ['F']) = [['f']] ∧
          index.lookup? ['g'] = none ∧ index.ready = true := by
  intro index
  obtain ⟨reflects, ready⟩ := afterChanges_reflects_log shuffled
  have found :
      index.lookup? ['F'] = some ⟨['f'], .function, "n int".toList, some ['y'], ['b']⟩ := by
    decide +kernel
  obtain ⟨moment, uri, text, stands, ⟨declaration, isFirst, standsFor⟩, -⟩ :=
    (reflects.lookup?_eq_some_iff _ _).mp found
  obtain rfl : ['b'] = uri := standsFor.uri_eq
  have spelled := reflects.filter_names ['F']
  rw [found] at spelled
  exact ⟨found, ⟨moment, text, declaration, stands, isFirst, standsFor.name_eq.symm⟩, spelled,
    by decide +kernel, ready.mpr ⟨_, List.mem_cons_self⟩⟩

end RoutineIndex

end RoutineServer
