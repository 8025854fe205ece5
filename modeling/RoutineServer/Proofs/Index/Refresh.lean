import RoutineServer.Index.Refresh
import RoutineServer.Proofs.Index.Consistency

namespace RoutineServer

/-!
# What a refresh brings in

A refresh of single documents reads each of them and leaves the others alone. A
refresh of everything knows the documents that a scan of the source finds, and
no others.
-/

namespace DocumentSource

/-- The text of a document, given its written URI, if it can be read. -/
def text? (source : DocumentSource) (uri : Text) : Option Text :=
  (Uri.parse? uri).bind fun parsed => (source.read parsed).toOption

/-- The documents that a scan finds, under their written URIs. -/
def scanned (source : DocumentSource) : List (Text × Text) :=
  (source.documents none).map fun document => (document.1.render, document.2)

/-- The text that a scan finds for a document; of several ones, the last. -/
def scannedText? (source : DocumentSource) (uri : Text) : Option Text :=
  source.scanned.reverse.lookup uri

end DocumentSource

namespace RoutineIndex

theorem lookup_invalidate_self
    (index : RoutineIndex)
    (uri : Text) :
    (index.invalidate uri).files.lookup uri = none := by
  rw [invalidate_files, lookup_filter_self]

theorem lookup_invalidate_of_ne
    (index : RoutineIndex)
    {uri other : Text}
    (apart : other ≠ uri) :
    (index.invalidate uri).files.lookup other = index.files.lookup other := by
  rw [invalidate_files, lookup_filter_of_ne apart]

theorem lookup_update_self
    (index : RoutineIndex)
    (uri text : Text) :
    (index.update uri text).files.lookup uri = some (Summary.ofText uri text) := by
  rw [update_files, List.lookup_append, lookup_filter_self]
  simp

theorem lookup_update_of_ne
    (index : RoutineIndex)
    {uri other : Text}
    (apart : other ≠ uri)
    (text : Text) :
    (index.update uri text).files.lookup other = index.files.lookup other := by
  rw [update_files, List.lookup_append, lookup_filter_of_ne apart, lookup_cons_of_ne apart,
    List.lookup_nil, Option.or_none]

section Refresh

variable (index : RoutineIndex) (source : DocumentSource)

theorem refreshDocument_eq
    (uri : Text) :
    index.refreshDocument source uri =
      match source.text? uri with
      | some text => index.update uri text
      | none => index.invalidate uri := by
  rw [refreshDocument, DocumentSource.text?]
  cases Uri.parse? uri with
  | none =>
      rfl
  | some parsed =>
      simp only [Option.map_some, Option.bind_some]
      cases source.read parsed with
      | ok text => rfl
      | error error => rfl

theorem lookup_refreshDocument_self
    (uri : Text) :
    (index.refreshDocument source uri).files.lookup uri =
      (source.text? uri).map (Summary.ofText uri) := by
  rw [refreshDocument_eq]
  cases source.text? uri with
  | none => exact lookup_invalidate_self index uri
  | some text => exact lookup_update_self index uri text

theorem lookup_refreshDocument_of_ne
    {uri other : Text}
    (apart : other ≠ uri) :
    (index.refreshDocument source uri).files.lookup other = index.files.lookup other := by
  rw [refreshDocument_eq]
  cases source.text? uri with
  | none => exact lookup_invalidate_of_ne index apart
  | some text => exact lookup_update_of_ne index apart text

/-- Each of the documents is as it can be read, and all others are as before. -/
theorem lookup_refreshDocuments
    (uris : List Text)
    (uri : Text) :
    (uris.foldl (fun index uri => index.refreshDocument source uri) index).files.lookup uri =
      if uri ∈ uris then (source.text? uri).map (Summary.ofText uri)
      else index.files.lookup uri := by
  induction uris generalizing index with
  | nil =>
      rfl
  | cons first rest inductionHypothesis =>
      rw [List.foldl_cons, inductionHypothesis]
      by_cases later : uri ∈ rest
      · rw [if_pos later, if_pos (List.mem_cons_of_mem _ later)]
      · rw [if_neg later]
        by_cases here : uri = first
        · subst here
          rw [lookup_refreshDocument_self, if_pos List.mem_cons_self]
        · rw [lookup_refreshDocument_of_ne index source here, if_neg (by simp [here, later])]

theorem ready_refreshDocuments
    (uris : List Text) :
    (uris.foldl (fun index uri => index.refreshDocument source uri) index).ready = index.ready := by
  induction uris generalizing index with
  | nil =>
      rfl
  | cons first rest inductionHypothesis =>
      rw [List.foldl_cons, inductionHypothesis, refreshDocument_eq]
      cases source.text? first with
      | none => exact invalidate_ready index first
      | some text => exact update_ready index first text

theorem lookup_updateAll
    (documents : List (Text × Text))
    (uri : Text) :
    (documents.foldl (fun index document => index.update document.1 document.2)
        index).files.lookup uri =
      ((documents.reverse.lookup uri).map (Summary.ofText uri)).or (index.files.lookup uri) := by
  induction documents generalizing index with
  | nil =>
      rfl
  | cons first rest inductionHypothesis =>
      rw [List.foldl_cons, inductionHypothesis, List.reverse_cons, List.lookup_append]
      by_cases here : uri = first.1
      · subst here
        rw [lookup_update_self, List.lookup_cons_self]
        cases rest.reverse.lookup first.1 with
        | none => rfl
        | some text => rfl
      · rw [lookup_update_of_ne index here, lookup_cons_of_ne here, List.lookup_nil,
          Option.or_none]

theorem lookup_ofSource
    (uri : Text) :
    (ofSource source).files.lookup uri = (source.scannedText? uri).map (Summary.ofText uri) := by
  have filled := lookup_updateAll empty source.scanned uri
  rw [show empty.files.lookup uri = none from rfl, Option.or_none] at filled
  exact filled

end Refresh

end RoutineIndex

end RoutineServer
