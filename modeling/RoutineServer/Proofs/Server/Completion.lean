import Mathlib.Data.List.Nodup
import RoutineServer.Proofs.Index.History
import RoutineServer.Proofs.Workspace.Scan
import RoutineServer.Server.Basic

namespace RoutineServer

/-!
# Completion with and without an index

A completion list keeps the first of the routines that share a key. Two lists of
routines that have the same first routine under every key are therefore offered
alike, whatever their order is. The routines of the index and those of a scan
are such lists behind the routines of the document itself, so the index changes
only the order in which routines are offered.
-/

namespace CompletionItem

/-- The text that an item inserts. -/
def label : CompletionItem → Text
  | .keyword label => label
  | .routine label _ => label

/-- Whether an item stands for a routine. -/
def isRoutine : CompletionItem → Bool
  | .keyword _ => false
  | .routine _ _ => true

end CompletionItem

namespace Completion

/-- The first routine under a key. -/
def first? (summaries : List Summary) (key : Text) : Option Summary :=
  summaries.find? (·.key == key)

theorem key_of_first?
    {summaries : List Summary}
    {summary : Summary}
    {key : Text}
    (found : first? summaries key = some summary) :
    summary.key = key := by
  simpa using List.find?_some found

theorem first?_append
    (front back : List Summary)
    (key : Text) :
    first? (front ++ back) key = (first? front key).or (first? back key) :=
  List.find?_append

theorem isSome_first?_of_mem
    {summaries : List Summary}
    {summary : Summary}
    (member : summary ∈ summaries) :
    (first? summaries summary.key).isSome = true :=
  List.find?_isSome.mpr ⟨summary, member, beq_self_eq_true _⟩

/-- Keeping the first routine of each name keeps the first one under every key not yet seen. -/
theorem first?_distinct
    (seen : List Text)
    (summaries : List Summary)
    (key : Text) :
    first? (distinct seen summaries) key = if key ∈ seen then none else first? summaries key := by
  induction summaries generalizing seen with
  | nil =>
      simp [distinct, first?]
  | cons summary rest inductionHypothesis =>
      by_cases passed : summary.key ∈ seen
      · rw [distinct, if_pos (List.contains_iff_mem.mpr passed), inductionHypothesis]
        by_cases known : key ∈ seen
        · rw [if_pos known, if_pos known]
        · have other : summary.key ≠ key := fun same => known (same ▸ passed)
          rw [if_neg known, if_neg known, first?, first?,
            List.find?_cons_of_neg (by simpa using other)]
      · rw [distinct, if_neg (fun found => passed (List.contains_iff_mem.mp found))]
        by_cases same : summary.key = key
        · subst same
          rw [if_neg passed, first?, first?, List.find?_cons_of_pos (by simp),
            List.find?_cons_of_pos (by simp)]
        · have later := inductionHypothesis (summary.key :: seen)
          rw [first?] at later ⊢
          rw [List.find?_cons_of_neg (by simpa using same), later, first?, first?,
            List.find?_cons_of_neg (by simpa using same)]
          simp only [List.mem_cons, Ne.symm same, false_or]

theorem first?_distinct_nil
    (summaries : List Summary)
    (key : Text) :
    first? (distinct [] summaries) key = first? summaries key := by
  rw [first?_distinct, if_neg List.not_mem_nil]

/-- No two of the routines that are kept share a key. -/
theorem nodup_keys_distinct
    (seen : List Text)
    (summaries : List Summary) :
    ((distinct seen summaries).map Summary.key).Nodup := by
  induction summaries generalizing seen with
  | nil =>
      exact .nil
  | cons summary rest inductionHypothesis =>
      rw [distinct]
      split
      case isTrue => exact inductionHypothesis seen
      case isFalse =>
        rw [List.map_cons, List.nodup_cons]
        refine ⟨?_, inductionHypothesis _⟩
        intro repeated
        obtain ⟨other, kept, sameKey⟩ := List.mem_map.mp repeated
        have found := isSome_first?_of_mem kept
        rw [first?_distinct, sameKey, if_pos List.mem_cons_self] at found
        cases found

/-- Where keys do not repeat, a routine is the first one under its key. -/
theorem mem_iff_first?
    {summaries : List Summary}
    (distinctKeys : (summaries.map Summary.key).Nodup)
    (summary : Summary) :
    summary ∈ summaries ↔ first? summaries summary.key = some summary := by
  refine ⟨fun member => ?_, List.mem_of_find?_eq_some⟩
  obtain ⟨found, isFound⟩ := Option.isSome_iff_exists.mp (isSome_first?_of_mem member)
  have sameKey := key_of_first? isFound
  rw [isFound, List.inj_on_of_nodup_map distinctKeys (List.mem_of_find?_eq_some isFound) member
    sameKey]

/-- Lists with the same first routine under every key are offered alike, up to order. -/
theorem distinct_perm
    {left right : List Summary}
    (same : ∀ name, first? left (Text.lower name) = first? right (Text.lower name)) :
    (distinct [] left).Perm (distinct [] right) := by
  have leftKeys := nodup_keys_distinct [] left
  have rightKeys := nodup_keys_distinct [] right
  refine (List.perm_ext_iff_of_nodup leftKeys.of_map rightKeys.of_map).mpr fun summary => ?_
  rw [mem_iff_first? leftKeys, mem_iff_first? rightKeys, first?_distinct_nil,
    first?_distinct_nil, Summary.key, same]

/-- The items of a completion list that stand for routines. -/
def routineItems (items : List CompletionItem) : List CompletionItem :=
  items.filter CompletionItem.isRoutine

/-- The routines of a document, then others; of those that share a name, the first. -/
theorem routineItems_items
    (withKeywords : Bool)
    (uri : Uri)
    (text : Text)
    (elsewhere : List Summary) :
    routineItems (items withKeywords uri text elsewhere) =
      (distinct [] (Summary.ofText uri.render text ++ elsewhere)).map
        (CompletionItem.ofSummary · text) := by
  have noKeyword : (CompletionItem.keywords.filter CompletionItem.isRoutine) = [] := by
    simp [CompletionItem.keywords, CompletionItem.isRoutine]
  have allRoutines (summaries : List Summary) :
      (summaries.map (CompletionItem.ofSummary · text)).filter CompletionItem.isRoutine =
        summaries.map (CompletionItem.ofSummary · text) :=
    List.filter_eq_self.mpr (by
      intro item member
      obtain ⟨summary, -, rfl⟩ := List.mem_map.mp member
      rfl)
  rw [routineItems, items, List.filter_append, allRoutines]
  cases withKeywords with
  | true => simp [noKeyword]
  | false => rfl

/-- Whether a name is offered, in whatever spelling. -/
def Offers (items : List CompletionItem) (name : Text) : Prop :=
  ∃ item ∈ items, Text.lower item.label = Text.lower name

/-- A name is offered if there is a routine under its key. -/
theorem offers_of_first?
    {summaries : List Summary}
    {name : Text}
    (known : (first? summaries (Text.lower name)).isSome = true)
    (text : Text) :
    Offers ((distinct [] summaries).map (CompletionItem.ofSummary · text)) name := by
  rw [← first?_distinct_nil] at known
  obtain ⟨offered, isOffered⟩ := Option.isSome_iff_exists.mp known
  exact ⟨_, List.mem_map_of_mem (List.mem_of_find?_eq_some isOffered), key_of_first? isOffered⟩

/-- No two routines that are offered have the same label, letter case ignored. -/
theorem nodup_labels
    (summaries : List Summary)
    (text : Text) :
    (((distinct [] summaries).map (CompletionItem.ofSummary · text)).map
      (Text.lower ·.label)).Nodup := by
  rw [List.map_map]
  exact nodup_keys_distinct [] summaries

end Completion

namespace RoutineIndex

theorem consistent_rebuild
    (documents : List (Text × Text)) :
    Consistent (rebuild documents) :=
  (tracks_empty.change (.rebuild documents)).consistent

/-- Documents with URIs of their own are held in the order in which they are given. -/
theorem files_updateAll
    {documents : List (Text × Text)}
    (index : RoutineIndex)
    (apart : (index.files.map (·.1) ++ documents.map (·.1)).Nodup) :
    (documents.foldl (fun index document => index.update document.1 document.2) index).files =
      index.files ++ documents.map fun document =>
        (document.1, Summary.ofText document.1 document.2) := by
  induction documents generalizing index with
  | nil =>
      simp
  | cons document rest inductionHypothesis =>
      have isNew : document.1 ∉ index.files.map (·.1) := fun held =>
        (List.disjoint_of_nodup_append apart) held (by simp)
      have held : (index.update document.1 document.2).files =
          index.files ++ [(document.1, Summary.ofText document.1 document.2)] := by
        rw [update_files, List.filter_eq_self.mpr]
        intro file member
        have other : file.1 ≠ document.1 := fun same =>
          isNew (same ▸ List.mem_map_of_mem member)
        simpa using other
      rw [List.foldl_cons, inductionHypothesis, held, List.append_assoc]
      · rfl
      · rw [held]
        simpa using apart

theorem files_rebuild
    {documents : List (Text × Text)}
    (apart : (documents.map (·.1)).Nodup) :
    (rebuild documents).files =
      documents.map fun document => (document.1, Summary.ofText document.1 document.2) :=
  files_updateAll empty apart

/-- Of what the names stand for, one routine belongs to each key: the one that is found. -/
theorem Consistent.filter_filterMap_names
    {index : RoutineIndex}
    (consistent : Consistent index)
    (name : Text) :
    (index.names.filterMap index.lookup?).filter (·.key == Text.lower name) =
      (index.lookup? name).toList := by
  have underKey (other : Text) :
      (index.lookup? other).filter (·.key == Text.lower name) =
        if Text.lower other == Text.lower name then index.lookup? other else none := by
    cases found : index.lookup? other with
    | none => simp
    | some summary => simp [Option.filter, key_of_lookupKey? found]
  simp only [List.filter_filterMap, underKey]
  rw [← List.filterMap_filter, consistent.filter_names]
  cases found : index.lookup? name with
  | none => rfl
  | some summary =>
      have sameKey : Text.lower summary.name = Text.lower name := key_of_lookupKey? found
      have again : index.lookup? summary.name = some summary := by
        rw [lookup?, sameKey]
        exact found
      simp [again]

/-- The index of distinct documents answers as a search through the documents does. -/
theorem lookup?_rebuild
    {documents : List (Text × Text)}
    (apart : (documents.map (·.1)).Nodup)
    (name : Text) :
    (rebuild documents).lookup? name =
      documents.findSome? fun document =>
        Completion.first? (Summary.ofText document.1 document.2) (Text.lower name) := by
  rw [lookup?, (consistent_rebuild documents).lookupKey?_eq, files_rebuild apart,
    List.findSome?_map]
  rfl

end RoutineIndex

namespace DocumentSource

/-- A document is left out by name. -/
theorem documents_some
    (source : DocumentSource)
    (uri : Uri) :
    source.documents (some uri) = (source.documents none).filter (·.1 != uri) := by
  simp only [documents]
  induction source.candidates with
  | nil =>
      rfl
  | cons candidate rest inductionHypothesis =>
      by_cases here : candidate = uri
      · subst here
        cases read : source.read candidate with
        | ok text => simpa [read] using inductionHypothesis
        | error failure => simpa [read] using inductionHypothesis
      · cases read : source.read candidate with
        | ok text => simpa [read, here] using inductionHypothesis
        | error failure => simpa [read, here] using inductionHypothesis

/-- The documents that can be read come in the order of the candidates. -/
theorem uris_scanned_sublist
    (source : DocumentSource) :
    (source.scanned.map (·.1)).Sublist (source.candidates.map Uri.render) := by
  simp only [scanned, documents]
  induction source.candidates with
  | nil =>
      exact .slnil
  | cons candidate rest inductionHypothesis =>
      cases read : source.read candidate with
      | ok text => simpa [read] using inductionHypothesis
      | error failure => simpa [read] using inductionHypothesis.cons candidate.render

end DocumentSource

/-- Items without an answer can be left out of a search. -/
theorem findSome?_filter
    {answer : α → Option β}
    {keep : α → Bool}
    {items : List α}
    (silent : ∀ item ∈ items, keep item = false → answer item = none) :
    (items.filter keep).findSome? answer = items.findSome? answer := by
  induction items with
  | nil =>
      rfl
  | cons item rest inductionHypothesis =>
      have later := inductionHypothesis fun other member => silent other (.tail _ member)
      cases kept : keep item with
      | true => rw [List.filter_cons_of_pos kept, List.findSome?_cons, List.findSome?_cons, later]
      | false =>
          rw [List.filter_cons_of_neg (by simp [kept]), List.findSome?_cons,
            silent item List.mem_cons_self kept, later]

namespace Completion

/-- Under the key of a name the index offers what it finds, unless the document itself has it. -/
theorem first?_indexed
    {index : RoutineIndex}
    (consistent : index.Consistent)
    (uri : Uri)
    (name : Text) :
    first? (indexed index uri) (Text.lower name) =
      (index.lookup? name).filter (·.uri != uri.render) := by
  rw [first?, ← List.head?_filter, indexed, List.filter_comm, consistent.filter_filterMap_names]
  cases index.lookup? name with
  | none => rfl
  | some summary => cases apart : summary.uri != uri.render <;> simp [Option.filter, apart]

/-- Under a key a scan offers what the first document declares that declares it. -/
theorem first?_scanned
    (source : DocumentSource)
    (uri : Uri)
    (key : Text) :
    first? (scanned source uri) key =
      (source.documents (some uri)).findSome? fun document =>
        first? (Summary.ofText document.1.render document.2) key :=
  List.find?_flatMap

/-- The text of a document is the one that the source has for it, if it has the document. -/
def IsCurrent (source : DocumentSource) (uri : Uri) (content : Text) : Prop :=
  ∀ candidate ∈ source.candidates, candidate.render = uri.render →
    ∀ text, source.read candidate = .ok text → text = content

instance (source : DocumentSource) (uri : Uri) (content : Text) :
    Decidable (IsCurrent source uri content) :=
  decidable_of_iff
    (∀ candidate ∈ source.candidates, candidate.render = uri.render →
      (source.read candidate).toOption.all (· == content) = true) <| by
    refine forall₃_congr fun candidate _ _ => ?_
    cases source.read candidate with
    | ok text => simp [Except.toOption]
    | error failure => simp [Except.toOption]

variable {source : DocumentSource} {uri : Uri} {content : Text}

/-- A name that the document does not declare is declared by no document of its URI. -/
theorem IsCurrent.first?_eq_none
    (current : IsCurrent source uri content)
    {key text : Text}
    (undeclared : first? (Summary.ofText uri.render content) key = none)
    (member : (uri.render, text) ∈ source.scanned) :
    first? (Summary.ofText uri.render text) key = none := by
  obtain ⟨candidate, listed, written, isRead⟩ := DocumentSource.mem_scanned_iff.mp member
  rw [current candidate listed written text isRead, undeclared]

/-- Such a name is found in the same document, whether the own one is searched or not. -/
theorem IsCurrent.first?_scanned
    (current : IsCurrent source uri content)
    {key : Text}
    (undeclared : first? (Summary.ofText uri.render content) key = none) :
    first? (scanned source uri) key =
      source.scanned.findSome? fun document =>
        first? (Summary.ofText document.1 document.2) key := by
  rw [Completion.first?_scanned, DocumentSource.documents_some, findSome?_filter,
    DocumentSource.scanned, List.findSome?_map]
  · rfl
  · rintro ⟨other, text⟩ member isSame
    obtain rfl : other = uri := by simpa using isSame
    exact current.first?_eq_none undeclared (List.mem_map_of_mem member)

theorem uri_of_mem_ofText
    {written text : Text}
    {summary : Summary}
    (member : summary ∈ Summary.ofText written text) :
    summary.uri = written := by
  obtain ⟨declaration, -, rfl⟩ := List.mem_map.mp member
  rfl

/-- Nor does the index find it in a document of that URI. -/
theorem IsCurrent.first?_indexed
    (current : IsCurrent source uri content)
    (apart : (source.candidates.map Uri.render).Nodup)
    {name : Text}
    (undeclared : first? (Summary.ofText uri.render content) (Text.lower name) = none) :
    first? (indexed (.ofSource source) uri) (Text.lower name) =
      source.scanned.findSome? fun document =>
        first? (Summary.ofText document.1 document.2) (Text.lower name) := by
  have distinctUris : (source.scanned.map (·.1)).Nodup :=
    apart.sublist source.uris_scanned_sublist
  have found := RoutineIndex.lookup?_rebuild distinctUris name
  have filtered :=
    Completion.first?_indexed (RoutineIndex.consistent_rebuild source.scanned) uri name
  refine filtered.trans ?_
  rw [found]
  cases answer : source.scanned.findSome? fun document =>
      first? (Summary.ofText document.1 document.2) (Text.lower name) with
  | none => rfl
  | some summary =>
      obtain ⟨⟨written, text⟩, member, isFirst⟩ := List.exists_of_findSome?_eq_some answer
      have declaredThere := uri_of_mem_ofText (List.mem_of_find?_eq_some isFirst)
      have elsewhere : summary.uri ≠ uri.render := by
        intro same
        obtain rfl : uri.render = written := same.symm.trans declaredThere
        rw [current.first?_eq_none undeclared member] at isFirst
        cases isFirst
      simp [Option.filter, elsewhere]

/--
Behind the routines of the document itself, the index offers the same routine
under every key as a scan.
-/
theorem IsCurrent.first?_eq
    (current : IsCurrent source uri content)
    (apart : (source.candidates.map Uri.render).Nodup)
    (name : Text) :
    first? (Summary.ofText uri.render content ++ indexed (.ofSource source) uri)
        (Text.lower name) =
      first? (Summary.ofText uri.render content ++ scanned source uri) (Text.lower name) := by
  rw [first?_append, first?_append]
  cases own : first? (Summary.ofText uri.render content) (Text.lower name) with
  | some summary => rfl
  | none => rw [current.first?_indexed apart own, current.first?_scanned own]

/-- A name that a document declares has a routine under its key. -/
theorem isSome_first?_ofText
    {text : Text}
    {declaration : Declaration}
    (declared : declaration ∈ Declaration.parse text)
    (written : Text) :
    (first? (Summary.ofText written text) (Text.lower declaration.name)).isSome = true :=
  isSome_first?_of_mem (List.mem_map_of_mem declared)

/-- Whether the document or a candidate that can be read declares a name. -/
def Declares (source : DocumentSource) (content name : Text) : Prop :=
  (∃ declaration ∈ Declaration.parse content, declaration.name = name) ∨
    ∃ candidate ∈ source.candidates, ∃ text, source.read candidate = .ok text ∧
      ∃ declaration ∈ Declaration.parse text, declaration.name = name

theorem IsCurrent.isSome_first?
    (current : IsCurrent source uri content)
    {name : Text}
    (declared : Declares source content name) :
    (first? (Summary.ofText uri.render content ++ scanned source uri)
      (Text.lower name)).isSome = true := by
  rw [first?_append]
  cases own : first? (Summary.ofText uri.render content) (Text.lower name) with
  | some summary => rfl
  | none =>
      rw [Option.none_or, current.first?_scanned own, List.findSome?_isSome_iff]
      rcases declared with
        ⟨declaration, member, rfl⟩ | ⟨candidate, listed, text, isRead, declaration, member, rfl⟩
      · have found := isSome_first?_ofText member uri.render
        rw [own] at found
        cases found
      · exact ⟨(candidate.render, text),
          DocumentSource.mem_scanned_iff.mpr ⟨candidate, listed, rfl, isRead⟩,
          isSome_first?_ofText member candidate.render⟩

end Completion

namespace Server

open Completion

variable {server : Server} {files : FileTree} {uri : Uri} {content : Text}

theorem routineItems_rebuildIndex
    (server : Server)
    (files : FileTree)
    (uri : Uri)
    (content : Text) :
    routineItems ((server.rebuildIndex files).completionItems files uri content) =
      (distinct [] (Summary.ofText uri.render content ++
        indexed (.ofSource (server.source files)) uri)).map
          (CompletionItem.ofSummary · content) :=
  routineItems_items _ _ _ _

theorem routineItems_of_cold
    (cold : server.index.ready = false)
    (files : FileTree)
    (uri : Uri)
    (content : Text) :
    routineItems (server.completionItems files uri content) =
      (distinct [] (Summary.ofText uri.render content ++
        scanned (server.source files) uri)).map (CompletionItem.ofSummary · content) := by
  have elsewhere : server.routinesElsewhere files uri = scanned (server.source files) uri := by
    simp [routinesElsewhere, cold]
  rw [completionItems, elsewhere, routineItems_items]

/--
The index that has just been built is ready, and with it a document is offered
the same routines as with an index that is not ready: a permutation of the
items. Either way no two routines have the same label, letter case ignored, and
every name is offered that the document or a readable candidate declares.
-/
theorem completionItems_rebuildIndex_perm
    (cold : server.index.ready = false)
    (apart : ((server.source files).candidates.map Uri.render).Nodup)
    (current : IsCurrent (server.source files) uri content) :
    let withIndex := routineItems ((server.rebuildIndex files).completionItems files uri content)
    let withScan := routineItems (server.completionItems files uri content)
    (server.rebuildIndex files).index.ready = true ∧
      withIndex.Perm withScan ∧
        ∀ items ∈ [withIndex, withScan],
          (items.map (Text.lower ·.label)).Nodup ∧
            ∀ name, Declares (server.source files) content name → Offers items name := by
  intro withIndex withScan
  have same := current.first?_eq apart
  have indexShape : withIndex = _ := routineItems_rebuildIndex server files uri content
  have scanShape : withScan = _ := routineItems_of_cold cold files uri content
  refine ⟨rfl, ?_, ?_⟩
  · rw [indexShape, scanShape]
    exact (distinct_perm same).map _
  · intro items member
    rcases List.mem_pair.mp member with rfl | rfl
    · rw [indexShape]
      refine ⟨nodup_labels _ _, fun name declared => offers_of_first? ?_ _⟩
      rw [same]
      exact current.isSome_first? declared
    · rw [scanShape]
      exact ⟨nodup_labels _ _, fun name declared =>
        offers_of_first? (current.isSome_first? declared) _⟩

/-- A directory with one file. -/
private def sharingFiles : FileTree :=
  FileTree.empty.writeFile ["w".toList, "a.sql".toList]
    (Text.utf8 "create function g() as 'x';create function F() as 'y';".toList)

/-- A server for it, without an index, where a document with some of the same names is open. -/
private def sharingServer : Server :=
  { fresh with
    root := some [Text.utf8 "w".toList]
    opened := [("untitled:n".toList,
      ("create function f() as 'z';create function h() as 'z';" ++
        "create function e() as 'z';create function G() as 'z';").toList)] }

/-- The index comes in the order of the names, and the scan in that of the documents. -/
theorem completionItems_rebuildIndex_perm_sharingServer :
    let uri : Uri := .ofFilePath ["w".toList, "a.sql".toList]
    let content := "create function g() as 'x';create function F() as 'y';".toList
    let indexed := sharingServer.rebuildIndex sharingFiles
    let withIndex := routineItems (indexed.completionItems sharingFiles uri content)
    let withScan := routineItems (sharingServer.completionItems sharingFiles uri content)
    uri ∈ (sharingServer.source sharingFiles).candidates ∧
      indexed.index.ready = true ∧
        withIndex.map CompletionItem.label = [['g'], ['F'], ['e'], ['h']] ∧
          withScan.map CompletionItem.label = [['g'], ['F'], ['h'], ['e']] ∧
            withIndex.Perm withScan := by
  intro uri content indexed withIndex withScan
  obtain ⟨ready, agree, -⟩ := completionItems_rebuildIndex_perm
    (show sharingServer.index.ready = false from rfl)
    (show ((sharingServer.source sharingFiles).candidates.map Uri.render).Nodup by decide +kernel)
    (show IsCurrent (sharingServer.source sharingFiles) uri content by decide +kernel)
  have spellings :
      (indexed.index.byName.filterMap fun entry =>
        (indexed.index.lookup? entry.1).map (·.name)) = [['g'], ['F'], ['h'], ['e']] := by
    decide +kernel
  have permuted : indexed.index.names.Perm [['g'], ['F'], ['h'], ['e']] := by
    rw [← spellings]
    exact List.mergeSort_perm _ _
  -- A sort does not compute; it is the only ordered permutation of the spellings.
  have names : indexed.index.names = [['e'], ['F'], ['g'], ['h']] := by
    have distinctKeys :
        ∀ first ∈ [['g'], ['F'], ['h'], ['e']], ∀ second ∈ [['e'], ['F'], ['g'], ['h']],
          Text.atMost (Text.lower first) (Text.lower second) = true →
            Text.atMost (Text.lower second) (Text.lower first) = true → first = second := by
      decide +kernel
    refine List.Perm.eq_of_pairwise (fun first second isName isSorted => ?_)
      (RoutineIndex.pairwise_names indexed.index) (by decide +kernel)
      (permuted.trans (by decide +kernel))
    exact distinctKeys first (permuted.mem_iff.mp isName) second isSorted
  have offered : withIndex.map CompletionItem.label = [['g'], ['F'], ['e'], ['h']] := by
    have shape : withIndex = _ := routineItems_rebuildIndex sharingServer sharingFiles uri content
    rw [shape, Completion.indexed, show (RoutineIndex.ofSource _).names = _ from names]
    decide +kernel
  exact ⟨by decide +kernel, ready, offered, by decide +kernel, agree⟩

end Server

end RoutineServer
