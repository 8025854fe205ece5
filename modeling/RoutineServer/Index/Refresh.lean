import RoutineServer.Index.Basic
import RoutineServer.Service.Documents

namespace RoutineServer

/-!
# Refreshing the index

Changes are not brought into the index at once. A request to refresh it is
merged into the pending work, and a sleeper is sent to bed. When a sleeper wakes
up and no other one has been sent after it, it takes all pending work and does
it on the documents as they are then; otherwise it does nothing.
-/

/-- What is to be refreshed. -/
inductive RefreshRequest where
  | everything
  | document (uri : Text)
  deriving Repr, DecidableEq

/-- The work that waits for a sleeper. -/
structure PendingWork where
  everything : Bool
  documents : List Text
  deriving Repr, DecidableEq

namespace PendingWork

/-- No work. -/
def empty : PendingWork :=
  ⟨false, []⟩

/-- Add a request to the work. -/
def merge (work : PendingWork) : RefreshRequest → PendingWork
  | .everything => { work with everything := true }
  | .document uri =>
      if work.documents.contains uri then work
      else { work with documents := work.documents ++ [uri] }

end PendingWork

/-- A refresh that will run at a time, unless a later one is sent. -/
structure Sleeper where
  generation : Nat
  due : Nat
  deriving Repr, DecidableEq

/-- The pending work and the sleepers; the last one sent has the latest generation. -/
structure RefreshQueue where
  pending : PendingWork
  generation : Nat
  sleepers : List Sleeper
  deriving Repr, DecidableEq

namespace RefreshQueue

/-- No work and no sleepers. -/
def empty : RefreshQueue :=
  ⟨.empty, 0, []⟩

/-- The first step of scheduling: add a request to the pending work. -/
def merge (queue : RefreshQueue) (request : RefreshRequest) : RefreshQueue :=
  { queue with pending := queue.pending.merge request }

/-- The second step of scheduling: send a sleeper that is now the latest one. -/
def launch (queue : RefreshQueue) (due : Nat) : RefreshQueue :=
  { queue with
    generation := queue.generation + 1
    sleepers := queue.sleepers ++ [⟨queue.generation + 1, due⟩] }

/-- Schedule a refresh. -/
def schedule (queue : RefreshQueue) (request : RefreshRequest) (due : Nat) : RefreshQueue :=
  (queue.merge request).launch due

/-- Wake a sleeper: the latest one takes the pending work, any other one nothing. -/
def wake (queue : RefreshQueue) (sleeper : Sleeper) : RefreshQueue × Option PendingWork :=
  let sleepers := queue.sleepers.erase sleeper
  if sleeper.generation == queue.generation then
    ({ queue with pending := .empty, sleepers := sleepers }, some queue.pending)
  else
    ({ queue with sleepers := sleepers }, none)

/-- The sleepers that are due at a time, in the order in which they wake up. -/
def dueAt (queue : RefreshQueue) (time : Nat) : List Sleeper :=
  (queue.sleepers.filter (·.due ≤ time)).mergeSort (·.due ≤ ·.due)

end RefreshQueue

namespace RoutineIndex

/-- Start over with all documents of a source. -/
def ofSource (source : DocumentSource) : RoutineIndex :=
  rebuild ((source.documents none).map fun document => (document.1.render, document.2))

/-- Bring one document up to date; one that cannot be read is forgotten. -/
def refreshDocument (index : RoutineIndex) (source : DocumentSource) (uri : Text) : RoutineIndex :=
  match (Uri.parse? uri).map source.read with
  | some (.ok text) => index.update uri text
  | _ => index.invalidate uri

/-- Do pending work on the documents as they are. -/
def refresh (index : RoutineIndex) (source : DocumentSource) (work : PendingWork) : RoutineIndex :=
  if work.everything then ofSource source
  else work.documents.foldl (fun index uri => index.refreshDocument source uri) index

end RoutineIndex

end RoutineServer
