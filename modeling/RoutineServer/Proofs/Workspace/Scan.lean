import RoutineServer.Proofs.Index.Refresh
import RoutineServer.Proofs.Uri.FileUri
import RoutineServer.Workspace

namespace RoutineServer

/-!
# Scans of a workspace

A scan reads the candidates of a workspace, a single look any document. Both see
the text of an open document. For a document that is not open they may differ:
the scan knows it only if it is among the files of the workspace.
-/

namespace Uri

/-- A URI is found again in its written form. -/
def IsNormal (uri : Uri) : Prop :=
  parse? uri.render = some uri

instance (uri : Uri) : Decidable uri.IsNormal :=
  inferInstanceAs (Decidable (parse? uri.render = some uri))

/-- A text is how a URI in normal form is written. -/
def Written (text : Text) : Prop :=
  ∃ uri, parse? text = some uri ∧ uri.render = text

theorem IsNormal.written
    {uri : Uri}
    (normal : uri.IsNormal) :
    Written uri.render :=
  ⟨uri, normal, rfl⟩

end Uri

namespace DocumentSource

variable {source : DocumentSource}

theorem mem_scanned_iff
    {uri text : Text} :
    (uri, text) ∈ source.scanned ↔
      ∃ candidate ∈ source.candidates,
        candidate.render = uri ∧ source.read candidate = .ok text := by
  simp only [scanned, documents, List.mem_map, List.mem_filterMap, List.mem_filter]
  constructor
  · rintro ⟨⟨found, _⟩, ⟨candidate, ⟨listed, -⟩, isFound⟩, same⟩
    cases same
    split at isFound
    case h_1 text isRead =>
      cases isFound
      exact ⟨_, listed, rfl, isRead⟩
    case h_2 =>
      cases isFound
  · rintro ⟨candidate, listed, rfl, isRead⟩
    exact ⟨(candidate, text), ⟨candidate, ⟨listed, rfl⟩, by rw [isRead]⟩, rfl⟩

/-- If all candidates with a URI read the same, this is what a scan finds. -/
theorem scannedText?_render
    {candidate : Uri}
    (listed : candidate ∈ source.candidates)
    (agree : ∀ other ∈ source.candidates, other.render = candidate.render →
      source.read other = source.read candidate) :
    source.scannedText? candidate.render = (source.read candidate).toOption := by
  cases found : source.scannedText? candidate.render with
  | some text =>
      have member := mem_of_lookup_eq_some found
      rw [List.mem_reverse, mem_scanned_iff] at member
      obtain ⟨other, isListed, same, isRead⟩ := member
      rw [← agree other isListed same, isRead]
      rfl
  | none =>
      cases isRead : source.read candidate with
      | error error =>
          rfl
      | ok text =>
          have member := mem_scanned_iff.mpr ⟨candidate, listed, rfl, isRead⟩
          have absent := List.lookup_eq_none_iff.mp found _ (List.mem_reverse.mpr member)
          simp at absent

theorem scannedText?_eq_none
    {uri : Text}
    (unlisted : uri ∉ source.candidates.map Uri.render) :
    source.scannedText? uri = none := by
  apply lookup_eq_none_of_not_mem
  intro member
  obtain ⟨⟨uri, text⟩, isEntry, rfl⟩ := List.mem_map.mp member
  obtain ⟨candidate, listed, same, -⟩ := mem_scanned_iff.mp (List.mem_reverse.mp isEntry)
  exact unlisted (List.mem_map.mpr ⟨candidate, listed, same⟩)

end DocumentSource

namespace Workspace

/-- The workspace with no document open. -/
def onDisk (workspace : Workspace) : Workspace :=
  { workspace with opened := [] }

/-- The open documents have URIs in normal form. -/
def Tidy (workspace : Workspace) : Prop :=
  ∀ uri ∈ workspace.opened.map (·.1), Uri.Written uri

section Reading

variable {workspace : Workspace} {uri : Uri}

theorem read_of_open
    {text : Text}
    (isOpen : workspace.opened.lookup uri.render = some text) :
    workspace.read uri = .ok text := by
  rw [read, isOpen]

theorem read_of_closed
    (closed : workspace.opened.lookup uri.render = none) :
    workspace.read uri = workspace.onDisk.read uri := by
  rw [read, closed]
  rfl

theorem mem_extraUris_iff :
    uri ∈ workspace.extraUris ↔
      ∃ document ∈ workspace.opened,
        document.1 ∉ workspace.fileUris.map Uri.render ∧ Uri.parse? document.1 = some uri := by
  simp only [extraUris, List.mem_mergeSort, List.mem_filterMap, List.mem_filter,
    Bool.not_eq_true', List.contains_eq_mem, decide_eq_false_iff_not, and_assoc]

theorem mem_candidates_iff :
    uri ∈ workspace.source.candidates ↔ uri ∈ workspace.fileUris ∨ uri ∈ workspace.extraUris :=
  List.mem_append

/-- A candidate that is not open is one of the files. -/
theorem Tidy.mem_fileUris
    (tidy : workspace.Tidy)
    (listed : uri ∈ workspace.source.candidates)
    (closed : workspace.opened.lookup uri.render = none) :
    uri ∈ workspace.fileUris := by
  refine (mem_candidates_iff.mp listed).resolve_right ?_
  intro extra
  obtain ⟨document, isOpen, -, parsed⟩ := mem_extraUris_iff.mp extra
  obtain ⟨own, isOwn, same⟩ := tidy document.1 (List.mem_map_of_mem isOpen)
  rw [isOwn, Option.some.injEq] at parsed
  subst parsed
  have absent := List.lookup_eq_none_iff.mp closed document isOpen
  rw [same, bne_self_eq_false] at absent
  cases absent

/-- Every open document is a candidate. -/
theorem Tidy.exists_candidate
    (tidy : workspace.Tidy)
    {written : Text}
    (isOpen : written ∈ workspace.opened.map (·.1)) :
    ∃ candidate ∈ workspace.source.candidates, candidate.render = written := by
  by_cases known : written ∈ workspace.fileUris.map Uri.render
  · obtain ⟨file, isFile, same⟩ := List.mem_map.mp known
    exact ⟨file, mem_candidates_iff.mpr (.inl isFile), same⟩
  · obtain ⟨own, isOwn, same⟩ := tidy written isOpen
    obtain ⟨document, isDocument, rfl⟩ := List.mem_map.mp isOpen
    have extra := mem_extraUris_iff.mpr ⟨document, isDocument, known, isOwn⟩
    exact ⟨own, mem_candidates_iff.mpr (.inr extra), same⟩

/--
A URI that is written like a candidate reads the same, if it is in normal form
or a candidate itself.
-/
theorem Tidy.read_eq
    (tidy : workspace.Tidy)
    {candidate : Uri}
    (listed : candidate ∈ workspace.source.candidates)
    (known : uri.IsNormal ∨ uri ∈ workspace.source.candidates)
    (same : uri.render = candidate.render) :
    workspace.read uri = workspace.read candidate := by
  cases found : workspace.opened.lookup candidate.render with
  | some text =>
      rw [read_of_open found, read_of_open (same ▸ found)]
  | none =>
      obtain ⟨path, -, rfl⟩ := List.mem_map.mp (tidy.mem_fileUris listed found)
      rcases known with normal | isListed
      · rw [Uri.eq_ofFilePath_of_render normal same]
      · obtain ⟨otherPath, -, rfl⟩ :=
          List.mem_map.mp (tidy.mem_fileUris isListed (same ▸ found))
        rw [Uri.ofFilePath_eq_of_render same]

end Reading

section Views

variable {workspace : Workspace}

theorem tidy_onDisk
    (workspace : Workspace) :
    workspace.onDisk.Tidy := by
  intro uri isOpen
  cases isOpen

/-- A scan finds what a candidate reads. -/
theorem Tidy.scannedText?_render
    (tidy : workspace.Tidy)
    {candidate : Uri}
    (listed : candidate ∈ workspace.source.candidates) :
    workspace.source.scannedText? candidate.render = (workspace.read candidate).toOption :=
  DocumentSource.scannedText?_render listed fun _ isListed same =>
    tidy.read_eq listed (.inr isListed) same

/-- A scan sees an open document as it is open, and any other one as without open documents. -/
theorem Tidy.scannedText?_eq
    (tidy : workspace.Tidy)
    (uri : Text) :
    workspace.source.scannedText? uri =
      (workspace.opened.lookup uri).or (workspace.onDisk.source.scannedText? uri) := by
  cases found : workspace.opened.lookup uri with
  | some text =>
      have isOpen := List.mem_map_of_mem (f := Prod.fst) (mem_of_lookup_eq_some found)
      obtain ⟨candidate, listed, rfl⟩ := tidy.exists_candidate isOpen
      rw [tidy.scannedText?_render listed, read_of_open found]
      rfl
  | none =>
      rw [Option.none_or]
      by_cases known : uri ∈ workspace.fileUris.map Uri.render
      · obtain ⟨file, isFile, rfl⟩ := List.mem_map.mp known
        have listed : file ∈ workspace.source.candidates := mem_candidates_iff.mpr (.inl isFile)
        have onDiskListed : file ∈ workspace.onDisk.source.candidates :=
          mem_candidates_iff.mpr (.inl isFile)
        rw [tidy.scannedText?_render listed,
          workspace.tidy_onDisk.scannedText?_render onDiskListed, read_of_closed found]
      · have unlisted : uri ∉ workspace.source.candidates.map Uri.render := by
          intro member
          obtain ⟨candidate, listed, rfl⟩ := List.mem_map.mp member
          exact known (List.mem_map_of_mem (tidy.mem_fileUris listed found))
        have onDiskUnlisted : uri ∉ workspace.onDisk.source.candidates.map Uri.render := by
          intro member
          obtain ⟨candidate, listed, rfl⟩ := List.mem_map.mp member
          exact known (List.mem_map_of_mem (workspace.tidy_onDisk.mem_fileUris listed rfl))
        rw [DocumentSource.scannedText?_eq_none unlisted,
          DocumentSource.scannedText?_eq_none onDiskUnlisted]

/-- So does a single look at a document. -/
theorem text?_eq
    {uri : Text}
    (written : Uri.Written uri)
    (workspace : Workspace) :
    workspace.source.text? uri =
      (workspace.opened.lookup uri).or (workspace.onDisk.source.text? uri) := by
  obtain ⟨own, isOwn, rfl⟩ := written
  rw [DocumentSource.text?, DocumentSource.text?, isOwn, Option.bind_some, Option.bind_some]
  change (workspace.read own).toOption = _
  cases found : workspace.opened.lookup own.render with
  | some text =>
      rw [read_of_open found]
      rfl
  | none =>
      rw [read_of_closed found, Option.none_or]
      rfl

/-- A candidate is seen by both in the same way. -/
theorem Tidy.text?_eq_scannedText?
    (tidy : workspace.Tidy)
    {uri : Text}
    (written : Uri.Written uri)
    (listed : uri ∈ workspace.source.candidates.map Uri.render) :
    workspace.source.text? uri = workspace.source.scannedText? uri := by
  obtain ⟨own, isOwn, rfl⟩ := written
  obtain ⟨candidate, isListed, same⟩ := List.mem_map.mp listed
  rw [← same, tidy.scannedText?_render isListed, same, DocumentSource.text?, isOwn,
    Option.bind_some]
  exact congrArg Except.toOption (tidy.read_eq isListed (.inl isOwn) same.symm)

end Views

end Workspace

end RoutineServer
