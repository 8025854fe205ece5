import Mathlib.Data.List.Nodup
import Mathlib.Data.List.Pairwise
import RoutineServer.Proofs.Uri.FilePath
import RoutineServer.Proofs.Workspace.Scan

namespace RoutineServer

/-!
# The candidates of a workspace

The files of a workspace and the open documents are candidates. No URI is listed
twice, but a file has more than one URI, and an open document is left out only
if it is written like one of the files. So a file is a candidate twice exactly
if an open document names a file of the workspace in another way, or two open
documents name the same file.
-/

theorem nodup_filterMap_iff
    {view : α → Option β}
    {items : List α}
    (distinct : items.Nodup) :
    (items.filterMap view).Nodup ↔
      ∀ first ∈ items, ∀ second ∈ items, ∀ value,
        view first = some value → view second = some value → first = second := by
  rw [List.Nodup, List.pairwise_filterMap]
  constructor
  · intro apart first isFirst second isSecond value found same
    have symmetric : Std.Symm fun one other =>
        ∀ left, view one = some left → ∀ right, view other = some right → left ≠ right :=
      ⟨fun _ _ differ left isLeft right isRight => (differ right isRight left isLeft).symm⟩
    by_contra different
    exact apart.forall isFirst isSecond different value found value same rfl
  · intro injective
    refine distinct.imp_of_mem ?_
    rintro first second isFirst isSecond different left isLeft right isRight rfl
    exact different (injective first isFirst second isSecond left isLeft isRight)

/-- What is read from each item of a list and written again. -/
theorem map_filterMap_eq
    {read : α → Option β}
    {write : β → γ}
    {key : α → γ}
    {items : List α}
    (written : ∀ item ∈ items, ∃ value, read item = some value ∧ write value = key item) :
    (items.filterMap read).map write = items.map key := by
  induction items with
  | nil =>
      rfl
  | cons item rest inductionHypothesis =>
      obtain ⟨value, isValue, same⟩ := written item List.mem_cons_self
      have later := inductionHypothesis fun other member =>
        written other (List.mem_cons_of_mem _ member)
      rw [List.filterMap_cons_some isValue, List.map_cons, List.map_cons, same, later]

namespace FileTree

/-- Every name in the tree is one that a file or a directory can have. -/
def Proper (tree : FileTree) : Prop :=
  ∀ node ∈ tree.nodes, ∀ name ∈ node.1, IsFileName name

instance (tree : FileTree) : Decidable tree.Proper :=
  inferInstanceAs (Decidable (∀ node ∈ tree.nodes, ∀ name ∈ node.1, IsFileName name))

variable {tree : FileTree}

/-- The path of a file is that of a node. -/
theorem mem_nodes_of_mem_filePaths
    {path : Path}
    (isFile : path ∈ tree.filePaths) :
    path ∈ tree.nodes.map (·.1) := by
  obtain ⟨⟨own, node⟩, isNode, isPath⟩ := List.mem_filterMap.mp isFile
  cases node with
  | file content =>
      cases isPath
      exact List.mem_map_of_mem isNode
  | directory =>
      cases isPath

theorem nodup_filePaths
    (tree : FileTree) :
    tree.filePaths.Nodup := by
  rw [filePaths, List.Nodup, List.pairwise_filterMap]
  refine (List.pairwise_map.mp tree.distinct).imp ?_
  rintro ⟨first, firstNode⟩ ⟨second, secondNode⟩ different path isFirst other isSecond
  cases firstNode with
  | directory =>
      cases isFirst
  | file content =>
      cases secondNode with
      | directory =>
          cases isSecond
      | file content =>
          cases isFirst
          cases isSecond
          exact different

/-- A written path that leads to a file leads to one in the tree. -/
theorem node?_of_follow
    {start found : Path}
    {node : Node}
    {segments : WrittenPath}
    {content : List UInt8}
    (followed : tree.follow start node segments = .ok (found, .file content)) :
    (found = start ∧ node = .file content) ∨ tree.node? found = some (.file content) := by
  induction segments generalizing start node with
  | nil =>
      cases followed
      exact .inl ⟨rfl, rfl⟩
  | cons segment rest inductionHypothesis =>
      cases node with
      | file own =>
          cases followed
      | directory =>
          right
          rw [follow] at followed
          split at followed
          · exact (inductionHypothesis followed).resolve_left (by simp)
          · split at followed
            · exact (inductionHypothesis followed).resolve_left (by simp)
            · split at followed
              · cases followed
              · split at followed
                · cases followed
                case h_2 next isNext =>
                  rcases inductionHypothesis followed with ⟨rfl, rfl⟩ | isFound
                  · exact isNext
                  · exact isFound

theorem mem_nodes_of_resolve
    {path : WrittenPath}
    {found : Path}
    {content : List UInt8}
    (resolved : tree.resolve path = .ok (found, .file content)) :
    found ∈ tree.nodes.map (·.1) := by
  rw [resolve] at resolved
  split at resolved
  · cases resolved
  · rcases node?_of_follow resolved with ⟨-, isDirectory⟩ | isNode
    · cases isDirectory
    · rw [node?] at isNode
      split at isNode
      · cases isNode
      · exact List.mem_map_of_mem (mem_of_lookup_eq_some isNode)

end FileTree

/-- A URI in normal form is written again as it was read. -/
theorem Uri.written_iff
    {text : Text} :
    Written text ↔ (parse? text).any (·.render == text) = true := by
  simp [Written, Option.any_eq_true]

instance (text : Text) : Decidable (Uri.Written text) :=
  decidable_of_iff _ Uri.written_iff.symm

namespace Workspace

variable {workspace : Workspace}

instance : Decidable workspace.Tidy :=
  inferInstanceAs (Decidable (∀ uri ∈ workspace.opened.map (·.1), Uri.Written uri))

theorem nodup_sqlFiles
    (workspace : Workspace) :
    workspace.sqlFiles.Nodup := by
  rw [sqlFiles]
  split
  · exact List.nodup_nil
  · split
    · exact (List.mergeSort_perm _ _).nodup_iff.mpr ((FileTree.nodup_filePaths _).filter _)
    · exact List.nodup_singleton _
    · exact List.nodup_nil

theorem mem_nodes_of_mem_sqlFiles
    {file : Path}
    (isFile : file ∈ workspace.sqlFiles) :
    file ∈ workspace.files.nodes.map (·.1) := by
  rw [sqlFiles] at isFile
  split at isFile
  · cases isFile
  · split at isFile
    · have reached := List.mem_mergeSort.mp isFile
      exact FileTree.mem_nodes_of_mem_filePaths (List.mem_filter.mp reached).1
    case h_2 path content resolved =>
      rw [List.mem_singleton.mp isFile]
      exact FileTree.mem_nodes_of_resolve resolved
    · cases isFile

/-- The files of a workspace have different URIs that lead back to them. -/
theorem names?_of_mem_sqlFiles
    (proper : workspace.files.Proper)
    {file : Path}
    (isFile : file ∈ workspace.sqlFiles) :
    (Uri.ofFilePath file).names? = some (file.map Text.utf8) := by
  obtain ⟨node, isNode, rfl⟩ := List.mem_map.mp (mem_nodes_of_mem_sqlFiles isFile)
  exact Uri.names?_ofFilePath (proper node isNode)

theorem eq_of_names?_eq
    (proper : workspace.files.Proper)
    {file other : Path}
    (isFile : file ∈ workspace.sqlFiles)
    (isOther : other ∈ workspace.sqlFiles)
    (same : (Uri.ofFilePath file).names? = (Uri.ofFilePath other).names?) :
    file = other := by
  rw [names?_of_mem_sqlFiles proper isFile, names?_of_mem_sqlFiles proper isOther,
    Option.some.injEq] at same
  exact List.map_injective_iff.mpr (fun _ _ => Text.eq_of_utf8_eq) same

/-- The URIs of open documents as they are written, without those of the files. -/
def extraKeys (workspace : Workspace) : List Text :=
  (workspace.opened.map (·.1)).filter fun key => !(workspace.fileUris.map Uri.render).contains key

theorem Tidy.map_render_extraUris
    (tidy : workspace.Tidy) :
    (workspace.extraUris.map Uri.render).Perm workspace.extraKeys := by
  have written :
      ((workspace.opened.filter fun document =>
          !(workspace.fileUris.map Uri.render).contains document.1).filterMap
            fun document => Uri.parse? document.1).map Uri.render = workspace.extraKeys := by
    rw [extraKeys, List.filter_map]
    apply map_filterMap_eq
    intro document member
    exact tidy document.1 (List.mem_map_of_mem (List.mem_filter.mp member).1)
  rw [← written]
  exact (List.mergeSort_perm _ _).map Uri.render

/-- No URI is that of two candidates. -/
theorem Tidy.nodup_render_candidates
    (tidy : workspace.Tidy)
    (keyed : (workspace.opened.map (·.1)).Nodup)
    (proper : workspace.files.Proper) :
    (workspace.source.candidates.map Uri.render).Nodup := by
  have files : (workspace.fileUris.map Uri.render).Nodup := by
    rw [fileUris, List.map_map]
    refine workspace.nodup_sqlFiles.map_on ?_
    intro file isFile other isOther same
    exact eq_of_names?_eq proper isFile isOther
      (congrArg Uri.names? (Uri.ofFilePath_eq_of_render same))
  have extra : (workspace.extraUris.map Uri.render).Nodup :=
    tidy.map_render_extraUris.nodup_iff.mpr (keyed.filter _)
  rw [source, List.map_append, List.nodup_append]
  refine ⟨files, extra, ?_⟩
  rintro written isFile other isExtra rfl
  have kept := (List.mem_filter.mp (tidy.map_render_extraUris.mem_iff.mp isExtra)).2
  rw [List.contains_iff_mem.mpr isFile] at kept
  cases kept

/-- An open document is a candidate under its URI. -/
theorem Tidy.mem_candidates_of_opened
    (tidy : workspace.Tidy)
    {written : Text}
    {uri : Uri}
    (isOpen : written ∈ workspace.opened.map (·.1))
    (isUri : Uri.parse? written = some uri) :
    uri ∈ workspace.source.candidates ∧ uri.render = written := by
  obtain ⟨own, isOwn, same⟩ := tidy written isOpen
  rw [isUri, Option.some.injEq] at isOwn
  subst isOwn
  refine ⟨?_, same⟩
  by_cases known : written ∈ workspace.fileUris.map Uri.render
  · obtain ⟨file, isFile, sameFile⟩ := List.mem_map.mp known
    obtain ⟨path, isPath, rfl⟩ := List.mem_map.mp isFile
    rw [Uri.eq_ofFilePath_of_render isUri (same.trans sameFile.symm)]
    exact mem_candidates_iff.mpr (.inl isFile)
  · obtain ⟨document, isDocument, rfl⟩ := List.mem_map.mp isOpen
    exact mem_candidates_iff.mpr (.inr (mem_extraUris_iff.mpr ⟨document, isDocument, known, isUri⟩))

/-- A text is a URI that names the file with a path. -/
def Denotes (written : Text) (path : WrittenPath) : Prop :=
  ∃ uri, Uri.parse? written = some uri ∧ uri.names? = some path

/--
No URI is a candidate twice. No file is one twice exactly if each open document
that names a file of the workspace is written like this file, and no two open
documents name the same file.
-/
theorem candidates_distinct_iff
    (tidy : workspace.Tidy)
    (keyed : (workspace.opened.map (·.1)).Nodup)
    (proper : workspace.files.Proper) :
    (workspace.source.candidates.map Uri.render).Nodup ∧
      ((workspace.source.candidates.filterMap Uri.names?).Nodup ↔
        ∀ written ∈ workspace.opened.map (·.1), ∀ path, Denotes written path →
          (∀ file ∈ workspace.sqlFiles, file.map Text.utf8 = path →
              written = (Uri.ofFilePath file).render) ∧
            ∀ other ∈ workspace.opened.map (·.1), Denotes other path → other = written) := by
  have distinct := tidy.nodup_render_candidates keyed proper
  refine ⟨distinct, ?_⟩
  rw [nodup_filterMap_iff (List.Nodup.of_map _ distinct)]
  constructor
  · rintro injective written isOpen path ⟨uri, isUri, isNamed⟩
    obtain ⟨listed, isWritten⟩ := tidy.mem_candidates_of_opened isOpen isUri
    constructor
    · rintro file isFile rfl
      have fileListed : Uri.ofFilePath file ∈ workspace.source.candidates :=
        mem_candidates_iff.mpr (.inl (List.mem_map_of_mem isFile))
      rw [← injective uri listed _ fileListed _ isNamed (names?_of_mem_sqlFiles proper isFile),
        isWritten]
    · rintro other isOtherOpen ⟨otherUri, isOtherUri, isOtherNamed⟩
      obtain ⟨otherListed, isOtherWritten⟩ :=
        tidy.mem_candidates_of_opened isOtherOpen isOtherUri
      rw [← isOtherWritten, ← isWritten,
        injective _ otherListed _ listed _ isOtherNamed isNamed]
  · intro once first isFirst second isSecond path firstNamed secondNamed
    -- A candidate that is not among the files is an open document under another URI.
    have extraOf : ∀ {extra file : Uri}, extra ∈ workspace.extraUris → file ∈ workspace.fileUris →
        extra.names? = some path → file.names? = some path → False := by
      intro extra file isExtra isFile extraNamed fileNamed
      obtain ⟨document, isDocument, unknown, isUri⟩ := mem_extraUris_iff.mp isExtra
      obtain ⟨own, isOwn, rfl⟩ := List.mem_map.mp isFile
      rw [names?_of_mem_sqlFiles proper isOwn, Option.some.injEq] at fileNamed
      have same := (once document.1 (List.mem_map_of_mem isDocument) path
        ⟨extra, isUri, extraNamed⟩).1 own isOwn fileNamed
      exact unknown (same ▸ List.mem_map_of_mem isFile)
    rcases mem_candidates_iff.mp isFirst with firstFile | firstExtra
    · rcases mem_candidates_iff.mp isSecond with secondFile | secondExtra
      · obtain ⟨file, isFile, rfl⟩ := List.mem_map.mp firstFile
        obtain ⟨other, isOther, rfl⟩ := List.mem_map.mp secondFile
        rw [eq_of_names?_eq proper isFile isOther (firstNamed.trans secondNamed.symm)]
      · exact (extraOf secondExtra firstFile secondNamed firstNamed).elim
    · rcases mem_candidates_iff.mp isSecond with secondFile | secondExtra
      · exact (extraOf firstExtra secondFile firstNamed secondNamed).elim
      · obtain ⟨document, isDocument, -, isUri⟩ := mem_extraUris_iff.mp firstExtra
        obtain ⟨other, isOther, -, isOtherUri⟩ := mem_extraUris_iff.mp secondExtra
        have same := (once document.1 (List.mem_map_of_mem isDocument) path
          ⟨first, isUri, firstNamed⟩).2 other.1 (List.mem_map_of_mem isOther)
            ⟨second, isOtherUri, secondNamed⟩
        rw [same, isUri] at isOtherUri
        exact Option.some.inj isOtherUri

/-- A directory with one file, and open documents without text. -/
private def shelf (file : String) (opened : List String) : Workspace where
  files := FileTree.empty.writeFile ["w".toList, file.toList] []
  root := some [Text.utf8 "w".toList]
  settings := ⟨["*.sql".toList], []⟩
  opened := opened.map fun uri => (uri.toList, [])

/-- The file, and one with this name elsewhere that is written with a slash too many. -/
private def shelved : Workspace :=
  shelf "a b.sql" ["file:///w/a%20b.sql", "file:///d//a%20b.sql"]

theorem candidates_distinct_iff_shelved :
    shelved.Tidy ∧ (shelved.opened.map (·.1)).Nodup ∧ shelved.files.Proper ∧
      shelved.source.candidates.length = 2 ∧
        (shelved.source.candidates.map Uri.render).Nodup ∧
          ∀ other ∈ shelved.opened.map (·.1),
            Denotes other (["w".toList, "a b.sql".toList].map Text.utf8) →
              other = "file:///w/a%20b.sql".toList := by
  have tidy : shelved.Tidy := by decide +kernel
  have keyed : (shelved.opened.map (·.1)).Nodup := by decide +kernel
  have proper : shelved.files.Proper := by decide +kernel
  obtain ⟨distinct, once⟩ := candidates_distinct_iff tidy keyed proper
  have isOpen : "file:///w/a%20b.sql".toList ∈ shelved.opened.map (·.1) := by decide +kernel
  have denotes :
      Denotes "file:///w/a%20b.sql".toList (["w".toList, "a b.sql".toList].map Text.utf8) :=
    ⟨.ofFilePath ["w".toList, "a b.sql".toList], by decide +kernel, by decide +kernel⟩
  exact ⟨tidy, keyed, proper, by decide +kernel, distinct,
    (once.mp (by decide +kernel) _ isOpen _ denotes).2⟩

/-- A letter that is escaped without need gives the file another URI. -/
private def respelled : Workspace :=
  shelf "a.sql" ["file:///w/%61.sql"]

theorem candidates_repeat_file :
    respelled.Tidy ∧ (respelled.opened.map (·.1)).Nodup ∧ respelled.files.Proper ∧
      respelled.source.candidates.map Uri.names? =
        [some (["w".toList, "a.sql".toList].map Text.utf8),
          some (["w".toList, "a.sql".toList].map Text.utf8)] ∧
        ¬ (respelled.source.candidates.filterMap Uri.names?).Nodup := by
  refine ⟨?_, ?_, ?_, ?_, ?_⟩
  · decide +kernel
  · decide +kernel
  · decide +kernel
  · decide +kernel
  · decide +kernel

end Workspace

end RoutineServer
