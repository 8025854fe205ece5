import RoutineServer.Proofs.Index.Entries
import RoutineServer.Proofs.Text.Collation

namespace RoutineServer

/-!
# The two sides of the index

The index holds the routines of each document, and for each name the documents
that declare it. The second is determined by the first: the entry of a name
lists the documents that declare it, in the order in which they were updated
last, and there is no entry for a name that no document declares. Every update
keeps the two sides in agreement.
-/

namespace Summary

/-- Whether a name, given in lower case, is declared among some routines. -/
def declares (summaries : List Summary) (key : Text) : Bool :=
  summaries.any (·.key == key)

theorem isSome_find?_eq_declares
    (summaries : List Summary)
    (key : Text) :
    (summaries.find? (·.key == key)).isSome = declares summaries key := by
  rw [Bool.eq_iff_iff, List.find?_isSome, declares, List.any_eq_true]

theorem declares_iff
    {summaries : List Summary}
    {key : Text} :
    declares summaries key = true ↔ key ∈ summaries.map Summary.key := by
  simp only [declares, List.any_eq_true, beq_iff_eq, List.mem_map]

end Summary

namespace RoutineIndex

/-- The documents that declare a name, given in lower case. -/
def declaring (files : List (Text × List Summary)) (key : Text) : List Text :=
  (files.filter (Summary.declares ·.2 key)).map (·.1)

/-- The entries of names agree with the routines of the documents. -/
structure Consistent (index : RoutineIndex) : Prop where
  filesDistinct : (index.files.map (·.1)).Nodup
  namesDistinct : (index.byName.map (·.1)).Nodup
  byName_eq : ∀ key, index.byName.lookup key = listing? (declaring index.files key)

theorem consistent_empty : Consistent empty where
  filesDistinct := .nil
  namesDistinct := .nil
  byName_eq _ := rfl

section Updates

variable {index : RoutineIndex}

theorem declaring_filter_ne
    (files : List (Text × List Summary))
    (uri key : Text) :
    declaring (files.filter (·.1 != uri)) key = (declaring files key).filter (· != uri) := by
  simp only [declaring, List.filter_map, List.filter_filter]
  congr 1
  apply List.filter_congr
  intro file _
  rw [Function.comp_apply, Bool.and_comm]

theorem mem_declaring_iff
    {files : List (Text × List Summary)}
    {uri key : Text} :
    uri ∈ declaring files key ↔
      ∃ summaries, (uri, summaries) ∈ files ∧ Summary.declares summaries key = true := by
  simp only [declaring, List.mem_map, List.mem_filter, Prod.exists]
  constructor
  · rintro ⟨_, summaries, ⟨member, declared⟩, rfl⟩
    exact ⟨summaries, member, declared⟩
  · rintro ⟨summaries, member, declared⟩
    exact ⟨uri, summaries, ⟨member, declared⟩, rfl⟩

/-- A document that is forgotten is gone from both sides, and all others stay. -/
theorem invalidate_files
    (index : RoutineIndex)
    (uri : Text) :
    (index.invalidate uri).files = index.files.filter (·.1 != uri) := by
  rw [invalidate]
  split
  case h_2 => rfl
  case h_1 absent =>
    refine (List.filter_eq_self.mpr ?_).symm
    intro file member
    have apart := List.lookup_eq_none_iff.mp absent file member
    rwa [bne_comm]

theorem invalidate_ready
    (index : RoutineIndex)
    (uri : Text) :
    (index.invalidate uri).ready = index.ready := by
  rw [invalidate]
  split
  case h_1 => rfl
  case h_2 => rfl

theorem Consistent.invalidate
    (consistent : Consistent index)
    (uri : Text) :
    Consistent (index.invalidate uri) where
  filesDistinct := by
    rw [invalidate_files]
    exact consistent.filesDistinct.sublist (List.filter_sublist.map _)
  namesDistinct := by
    rw [RoutineIndex.invalidate]
    split
    case h_1 => exact consistent.namesDistinct
    case h_2 summaries found =>
      have names := map_fst_strikeAll uri (summaries.map Summary.key) index.byName
      rw [strikeAll, List.foldl_map] at names
      exact consistent.namesDistinct.sublist names
  byName_eq := by
    intro key
    rw [invalidate_files, declaring_filter_ne, RoutineIndex.invalidate]
    split
    case h_1 absent =>
      have unlisted : ∀ other ∈ declaring index.files key, (other != uri) = true := by
        intro other member
        obtain ⟨summaries, isFile, -⟩ := mem_declaring_iff.mp member
        have apart := List.lookup_eq_none_iff.mp absent _ isFile
        rwa [bne_comm]
      rw [List.filter_eq_self.mpr unlisted]
      exact consistent.byName_eq key
    case h_2 summaries found =>
      have struck :=
        lookup_strikeAll uri (summaries.map Summary.key) (declaring index.files)
          consistent.namesDistinct consistent.byName_eq ?_ key
      · rwa [strikeAll, List.foldl_map] at struck
      · intro other member
        obtain ⟨others, isFile, declared⟩ := mem_declaring_iff.mp member
        have same := lookup_eq_some_of_mem consistent.filesDistinct isFile
        rw [found, Option.some.injEq] at same
        rw [same]
        exact Summary.declares_iff.mp declared

theorem not_mem_invalidate
    (index : RoutineIndex)
    (uri : Text) :
    uri ∉ (index.invalidate uri).files.map (·.1) := by
  rw [invalidate_files]
  intro member
  obtain ⟨file, kept, rfl⟩ := List.mem_map.mp member
  simp at kept

theorem update_files
    (index : RoutineIndex)
    (uri text : Text) :
    (index.update uri text).files =
      index.files.filter (·.1 != uri) ++ [(uri, Summary.ofText uri text)] := by
  rw [update, invalidate_files]

theorem update_ready
    (index : RoutineIndex)
    (uri text : Text) :
    (index.update uri text).ready = index.ready := by
  rw [update, invalidate_ready]

theorem declaring_append
    (files : List (Text × List Summary))
    (uri key : Text)
    (summaries : List Summary) :
    declaring (files ++ [(uri, summaries)]) key =
      if Summary.declares summaries key then declaring files key ++ [uri]
      else declaring files key := by
  rw [declaring, List.filter_append, List.map_append]
  by_cases declared : Summary.declares summaries key
  · simp [declared, declaring]
  · simp [declared, declaring]

/-- A document that is updated comes last among those that declare its names. -/
theorem Consistent.update
    (consistent : Consistent index)
    (uri text : Text) :
    Consistent (index.update uri text) where
  filesDistinct := by
    rw [RoutineIndex.update, List.map_append, List.nodup_append]
    refine ⟨(consistent.invalidate uri).filesDistinct, by simp, ?_⟩
    intro other member added isAdded same
    rw [List.map_cons, List.map_nil, List.mem_singleton] at isAdded
    rw [same, isAdded] at member
    exact not_mem_invalidate index uri member
  namesDistinct := by
    have names :=
      nodup_enterAll (consistent.invalidate uri).namesDistinct uri
        ((Summary.ofText uri text).map Summary.key)
    rwa [enterAll, List.foldl_map] at names
  byName_eq := by
    intro key
    have entered :=
      lookup_enterAll uri ((Summary.ofText uri text).map Summary.key)
        (declaring (index.invalidate uri).files) (consistent.invalidate uri).byName_eq key
    have fresh : uri ∉ declaring (index.invalidate uri).files key := by
      intro member
      obtain ⟨summaries, isFile, -⟩ := mem_declaring_iff.mp member
      exact not_mem_invalidate index uri (List.mem_map.mpr ⟨_, isFile, rfl⟩)
    have appended :
        withDocument uri (declaring (index.invalidate uri).files key) =
          declaring (index.invalidate uri).files key ++ [uri] :=
      if_neg (by simpa using fresh)
    rw [enterAll, List.foldl_map, appended] at entered
    rw [RoutineIndex.update, declaring_append]
    simp only [Summary.declares_iff]
    exact entered

end Updates

/-- The first answer is that of the first element with one. -/
theorem findSome?_eq_bind_find?
    {answer : α → Option β}
    {answers : α → Bool}
    (agree : ∀ item, (answer item).isSome = answers item)
    (items : List α) :
    items.findSome? answer = (items.find? answers).bind answer := by
  induction items with
  | nil =>
      rfl
  | cons item rest inductionHypothesis =>
      have here := agree item
      rw [List.findSome?_cons, List.find?_cons, ← here]
      cases found : answer item with
      | none =>
          exact inductionHypothesis
      | some value =>
          exact found.symm

/--
The routine that a key stands for is the first one with this key in the first
document that has one.
-/
theorem Consistent.lookupKey?_eq
    {index : RoutineIndex}
    (consistent : Consistent index)
    (key : Text) :
    index.lookupKey? key = index.files.findSome? fun file => file.2.find? (·.key == key) := by
  have heads :
      (listing? (declaring index.files key)).bind List.head? =
        (index.files.find? (Summary.declares ·.2 key)).map (·.1) := by
    rw [← List.head?_filter, ← List.head?_map, ← declaring]
    cases declaring index.files key with
    | nil => rfl
    | cons uri rest => rfl
  have first :=
    findSome?_eq_bind_find? (fun file => Summary.isSome_find?_eq_declares file.2 key) index.files
  rw [first]
  simp only [lookupKey?, Option.bind_eq_bind, consistent.byName_eq key, ← Option.bind_assoc, heads]
  cases found : index.files.find? (Summary.declares ·.2 key) with
  | none =>
      rfl
  | some file =>
      have stored :=
        lookup_eq_some_of_mem consistent.filesDistinct (List.mem_of_find?_eq_some found)
      simp only [Option.map_some, Option.bind_some, stored]

theorem key_of_lookupKey?
    {index : RoutineIndex}
    {key : Text}
    {summary : Summary}
    (found : index.lookupKey? key = some summary) :
    summary.key = key := by
  simp only [lookupKey?, Option.bind_eq_bind, Option.bind_eq_some_iff] at found
  obtain ⟨-, -, -, -, summaries, -, isFirst⟩ := found
  simpa using List.find?_some isFirst

/-- The key of an entry is in lower case already. -/
theorem Consistent.lower_of_mem_byName
    {index : RoutineIndex}
    {key : Text}
    (consistent : Consistent index)
    (member : key ∈ index.byName.map (·.1)) :
    Text.lower key = key := by
  obtain ⟨⟨key, uris⟩, isEntry, rfl⟩ := List.mem_map.mp member
  have found := lookup_eq_some_of_mem consistent.namesDistinct isEntry
  rw [consistent.byName_eq, listing?, Option.ite_none_left_eq_some] at found
  obtain ⟨uri, isListed⟩ := List.exists_mem_of_ne_nil _ (by simpa using found.1)
  obtain ⟨summaries, -, declared⟩ := mem_declaring_iff.mp isListed
  obtain ⟨summary, -, isKey⟩ := List.mem_map.mp (Summary.declares_iff.mp declared)
  rw [← isKey, Summary.key, Text.lower_lower]

/-- Of the spellings found for distinct keys, one belongs to each key. -/
theorem filter_filterMap_key
    {spelling? : Text → Option Text}
    {keys : List Text}
    (distinct : keys.Nodup)
    (spelled : ∀ key ∈ keys, ∀ spelling, spelling? key = some spelling → Text.lower spelling = key)
    (key : Text) :
    (keys.filterMap spelling?).filter (Text.lower · == key) =
      if key ∈ keys then (spelling? key).toList else [] := by
  induction keys with
  | nil =>
      rfl
  | cons first rest inductionHypothesis =>
      rw [List.nodup_cons] at distinct
      have later := inductionHypothesis distinct.2 fun other member =>
        spelled other (List.mem_cons_of_mem _ member)
      have here : ∀ spelling, spelling? first = some spelling → Text.lower spelling = first :=
        spelled first List.mem_cons_self
      by_cases isFirst : key = first
      · subst isFirst
        rw [if_neg distinct.1] at later
        cases found : spelling? key with
        | none =>
            simp [found, later]
        | some spelling =>
            simp [found, later, here spelling found]
      · have apart : ¬ first = key := fun same => isFirst same.symm
        cases found : spelling? first with
        | none =>
            simp [found, later, isFirst]
        | some spelling =>
            simp [found, later, here spelling found, isFirst, apart]

theorem lookup?_lower
    (index : RoutineIndex)
    (name : Text) :
    index.lookup? (Text.lower name) = index.lookup? name := by
  rw [lookup?, lookup?, Text.lower_lower]

theorem lookup?_eq_none_of_not_mem
    {index : RoutineIndex}
    {name : Text}
    (absent : Text.lower name ∉ index.byName.map (·.1)) :
    index.lookup? name = none := by
  simp only [lookup?, lookupKey?, lookup_eq_none_of_not_mem absent, Option.bind_eq_bind,
    Option.bind_none]

/-- A list that holds the same as a list of one element at most is that list. -/
theorem eq_toList_of_perm
    {items : List α}
    {item : Option α}
    (permuted : items.Perm item.toList) :
    items = item.toList := by
  cases item with
  | none => exact List.perm_nil.mp permuted
  | some value => exact List.perm_singleton.mp permuted

/-- The names hold one spelling of each name that can be looked up: the one that is found. -/
theorem Consistent.filter_names
    {index : RoutineIndex}
    (consistent : Consistent index)
    (name : Text) :
    index.names.filter (Text.lower · == Text.lower name) =
      ((index.lookup? name).map Summary.name).toList := by
  have spelled :
      ∀ key ∈ index.byName.map (·.1), ∀ spelling,
        (index.lookup? key).map Summary.name = some spelling → Text.lower spelling = key := by
    intro key member spelling found
    obtain ⟨summary, isFound, rfl⟩ := Option.map_eq_some_iff.mp found
    rw [lookup?, consistent.lower_of_mem_byName member] at isFound
    exact key_of_lookupKey? isFound
  have selected := filter_filterMap_key consistent.namesDistinct spelled (Text.lower name)
  rw [lookup?_lower, List.filterMap_map] at selected
  have permuted :=
    (List.mergeSort_perm
      (index.byName.filterMap ((fun key => (index.lookup? key).map Summary.name) ∘ (·.1)))
      (fun left right => Text.atMost (Text.lower left) (Text.lower right))).filter
        (Text.lower · == Text.lower name)
  rw [selected] at permuted
  refine eq_toList_of_perm (permuted.trans (.of_eq ?_))
  split
  case isTrue => rfl
  case isFalse absent =>
    rw [lookup?_eq_none_of_not_mem absent]
    rfl

/-- The names are sorted by their lower case. -/
theorem pairwise_names
    (index : RoutineIndex) :
    index.names.Pairwise fun left right =>
      Text.atMost (Text.lower left) (Text.lower right) = true := by
  rw [names]
  apply List.pairwise_mergeSort
  · intro first second third
    exact Text.atMost_trans
  · intro left right
    exact Text.atMost_total _ _

end RoutineIndex

end RoutineServer
