import RoutineServer.Index.Summary
import RoutineServer.Text.Order

namespace RoutineServer

/-!
# The index of routines

The index holds the routines of many documents and finds them by name, letter
case ignored. If several documents declare a name, the one that has been in the
index longest since its last update answers. The index is ready once it has
been built from all documents.
-/

/-- The routines of the documents of a workspace. -/
structure RoutineIndex where
  /-- The routines of each document, under its URI. -/
  files : List (Text × List Summary)
  /-- The documents that declare a name, under the name in lower case. -/
  byName : List (Text × List Text)
  ready : Bool
  deriving Repr, DecidableEq

namespace RoutineIndex

/-- An index without documents that is not ready. -/
def empty : RoutineIndex :=
  ⟨[], [], false⟩

/-- The number of documents. -/
def fileCount (index : RoutineIndex) : Nat :=
  index.files.length

/-- The routine that a key stands for. -/
def lookupKey? (index : RoutineIndex) (key : Text) : Option Summary := do
  let uris ← index.byName.lookup key
  let uri ← uris.head?
  let summaries ← index.files.lookup uri
  summaries.find? (·.key == key)

/-- The routine that a name stands for. -/
def lookup? (index : RoutineIndex) (name : Text) : Option Summary :=
  index.lookupKey? (Text.lower name)

/-- The names of all routines, one spelling each, sorted by their lower case. -/
def names (index : RoutineIndex) : List Text :=
  let spellings := index.byName.filterMap fun entry => (index.lookup? entry.1).map (·.name)
  spellings.mergeSort fun left right => Text.atMost (Text.lower left) (Text.lower right)

/-- Strike a document from the entry of a key; an entry without documents goes. -/
def strike (uri key : Text) (byName : List (Text × List Text)) : List (Text × List Text) :=
  byName.filterMap fun entry =>
    if entry.1 == key then
      let uris := entry.2.filter (· != uri)
      if uris.isEmpty then none else some (key, uris)
    else
      some entry

/-- Add a document to the entry of a key, after those that declare it already. -/
def enter (uri key : Text) (byName : List (Text × List Text)) : List (Text × List Text) :=
  match byName.lookup key with
  | none => byName ++ [(key, [uri])]
  | some uris =>
      if uris.contains uri then byName
      else byName.map fun entry => if entry.1 == key then (key, uris ++ [uri]) else entry

/-- Forget a document. -/
def invalidate (index : RoutineIndex) (uri : Text) : RoutineIndex :=
  match index.files.lookup uri with
  | none => index
  | some summaries => {
      files := index.files.filter (·.1 != uri)
      byName := summaries.foldl (fun byName summary => strike uri summary.key byName) index.byName
      ready := index.ready
    }

/-- Replace what is known of a document by its text. -/
def update (index : RoutineIndex) (uri text : Text) : RoutineIndex :=
  let cleared := index.invalidate uri
  let summaries := Summary.ofText uri text
  {
    files := cleared.files ++ [(uri, summaries)]
    byName := summaries.foldl (fun byName summary => enter uri summary.key byName) cleared.byName
    ready := cleared.ready
  }

/-- Start over with the given documents. -/
def rebuild (documents : List (Text × Text)) : RoutineIndex :=
  let filled := documents.foldl (fun index document => index.update document.1 document.2) empty
  { filled with ready := true }

end RoutineIndex

end RoutineServer
