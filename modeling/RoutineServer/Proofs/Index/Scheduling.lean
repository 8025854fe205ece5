import RoutineServer.Proofs.Index.Refresh

namespace RoutineServer

/-!
# Interleaved refreshes

To schedule a refresh takes two steps, and between them other calls may take
theirs and sleepers may wake up, in any order. Still no request is lost: while
work is pending, a call has not sent its sleeper yet, or the latest sleeper is
in bed and will take the work. Once all calls are done and all sleepers are up,
each request has been served from documents that were read after it was made.
-/

namespace PendingWork

/-- Whether some work brings up to date what a request asks for. -/
def covers (work : PendingWork) : RefreshRequest → Bool
  | .everything => work.everything
  | .document uri => work.everything || work.documents.contains uri

theorem not_covers_empty
    (request : RefreshRequest) :
    empty.covers request = false := by
  cases request with
  | everything => rfl
  | document uri => rfl

/-- What is merged is covered, and stays so. -/
theorem covers_merge_self
    (work : PendingWork)
    (request : RefreshRequest) :
    (work.merge request).covers request = true := by
  cases request with
  | everything =>
      rfl
  | document uri =>
      rw [merge]
      split
      case isTrue listed =>
        rw [covers, listed, Bool.or_true]
      case isFalse =>
        simp [covers]

theorem covers_merge
    {work : PendingWork}
    {request : RefreshRequest}
    (covered : work.covers request = true)
    (other : RefreshRequest) :
    (work.merge other).covers request = true := by
  cases other with
  | everything =>
      cases request with
      | everything => rfl
      | document uri => rfl
  | document added =>
      rw [merge]
      split
      case isTrue =>
        exact covered
      case isFalse =>
        cases request with
        | everything =>
            exact covered
        | document uri =>
            rw [covers, Bool.or_eq_true, List.contains_iff_mem] at covered ⊢
            exact covered.imp id (List.mem_append_left _)

end PendingWork

namespace RoutineIndex

/-- What a request asks for is in the index as a source has it. -/
def UpToDate (index : RoutineIndex) (source : DocumentSource) : RefreshRequest → Prop
  | .everything => index = ofSource source
  | .document uri =>
      index = ofSource source ∨
        index.files.lookup uri = (source.text? uri).map (Summary.ofText uri)

/-- Work that covers a request brings in what it asks for. -/
theorem upToDate_refresh
    {work : PendingWork}
    {request : RefreshRequest}
    (covered : work.covers request = true)
    (index : RoutineIndex)
    (source : DocumentSource) :
    (index.refresh source work).UpToDate source request := by
  rw [refresh]
  split
  case isTrue =>
    cases request with
    | everything => exact rfl
    | document uri => exact .inl rfl
  case isFalse partly =>
    cases request with
    | everything =>
        exact (partly covered).elim
    | document uri =>
        rw [PendingWork.covers, Bool.or_eq_true, List.contains_iff_mem] at covered
        refine .inr ?_
        rw [lookup_refreshDocuments, if_pos (covered.resolve_left partly)]

end RoutineIndex

/-- What happens while refreshes are scheduled. -/
inductive RefreshEvent where
  /-- A call adds its request to the pending work. -/
  | merged (request : RefreshRequest)
  /-- A call that has done so sends its sleeper. -/
  | launched (request : RefreshRequest) (due : Nat)
  /-- The latest sleeper wakes up and does the work on the documents as they are now. -/
  | refreshed (source : DocumentSource) (work : PendingWork)
  /-- Another sleeper wakes up. -/
  | passed (sleeper : Sleeper)

/-- The queue and the index, and the requests of the calls that are between their steps. -/
structure Scheduling where
  calls : List RefreshRequest
  queue : RefreshQueue
  index : RoutineIndex

namespace Scheduling

/-- Nothing has been scheduled. -/
def start : Scheduling :=
  ⟨[], .empty, .empty⟩

/-- One step of a call or of a sleeper. -/
inductive Step : Scheduling → RefreshEvent → Scheduling → Prop where
  | merge
      (calls : List RefreshRequest)
      (queue : RefreshQueue)
      (index : RoutineIndex)
      (request : RefreshRequest) :
      Step ⟨calls, queue, index⟩ (.merged request) ⟨request :: calls, queue.merge request, index⟩
  | launch
      {calls : List RefreshRequest}
      (queue : RefreshQueue)
      (index : RoutineIndex)
      {request : RefreshRequest}
      (due : Nat)
      (called : request ∈ calls) :
      Step ⟨calls, queue, index⟩ (.launched request due)
        ⟨calls.erase request, queue.launch due, index⟩
  | refresh
      (calls : List RefreshRequest)
      {queue woken : RefreshQueue}
      (index : RoutineIndex)
      {sleeper : Sleeper}
      {work : PendingWork}
      (source : DocumentSource)
      (asleep : sleeper ∈ queue.sleepers)
      (wakes : queue.wake sleeper = (woken, some work)) :
      Step ⟨calls, queue, index⟩ (.refreshed source work)
        ⟨calls, woken, index.refresh source work⟩
  | pass
      (calls : List RefreshRequest)
      {queue woken : RefreshQueue}
      (index : RoutineIndex)
      {sleeper : Sleeper}
      (asleep : sleeper ∈ queue.sleepers)
      (wakes : queue.wake sleeper = (woken, none)) :
      Step ⟨calls, queue, index⟩ (.passed sleeper) ⟨calls, woken, index⟩

/-- The events up to a moment, and the state they have led to. -/
inductive Run : List RefreshEvent → Scheduling → Prop where
  | start : Run [] start
  | step
      {events : List RefreshEvent}
      {before after : Scheduling}
      {event : RefreshEvent}
      (run : Run events before)
      (step : Step before event after) :
      Run (events ++ [event]) after

/-- Pending work is taken care of: by a call that will send a sleeper, or by the latest sleeper. -/
def Guarded (scheduling : Scheduling) : Prop :=
  scheduling.queue.pending = .empty ∨ scheduling.calls ≠ [] ∨
    ∃ sleeper ∈ scheduling.queue.sleepers, sleeper.generation = scheduling.queue.generation

end Scheduling

namespace RefreshQueue

variable {queue woken : RefreshQueue} {sleeper : Sleeper}

/-- A sleeper that works takes all there is to do. -/
theorem wake_eq_some
    {work : PendingWork}
    (wakes : queue.wake sleeper = (woken, some work)) :
    work = queue.pending ∧ woken.pending = .empty := by
  rw [wake] at wakes
  split at wakes
  case isTrue =>
    cases wakes
    exact ⟨rfl, rfl⟩
  case isFalse =>
    cases wakes

/-- A sleeper that does not is not the latest, and nothing changes but that it is up. -/
theorem wake_eq_none
    (wakes : queue.wake sleeper = (woken, none)) :
    sleeper.generation ≠ queue.generation ∧
      woken = { queue with sleepers := queue.sleepers.erase sleeper } := by
  rw [wake] at wakes
  split at wakes
  case isTrue =>
    cases wakes
  case isFalse late =>
    cases wakes
    exact ⟨by simpa using late, rfl⟩

end RefreshQueue

namespace Scheduling

variable {before after scheduling : Scheduling} {event : RefreshEvent} {events : List RefreshEvent}

/-- No step leaves pending work to nobody. -/
theorem Guarded.step
    (guarded : Guarded before)
    (step : Step before event after) :
    Guarded after := by
  cases step with
  | merge calls queue index request =>
      exact .inr (.inl (List.cons_ne_nil _ _))
  | launch queue index due called =>
      exact .inr (.inr ⟨_, List.mem_append_right _ List.mem_cons_self, rfl⟩)
  | refresh calls index source asleep wakes =>
      exact .inl (RefreshQueue.wake_eq_some wakes).2
  | pass calls index asleep wakes =>
      -- the latest sleeper is not the one that wakes up, so it stays in bed
      obtain ⟨late, rfl⟩ := RefreshQueue.wake_eq_none wakes
      refine guarded.imp id (.imp id ?_)
      rintro ⟨latest, inBed, isLatest⟩
      refine ⟨latest, (List.mem_erase_of_ne ?_).mpr inBed, isLatest⟩
      rintro rfl
      exact late isLatest

theorem Run.guarded
    (run : Run events scheduling) :
    Guarded scheduling := by
  induction run with
  | start =>
      exact .inl rfl
  | step run step inductionHypothesis =>
      exact inductionHypothesis.step step

/-- With no call between its steps and no sleeper in bed, no work is left. -/
theorem Guarded.pending_eq_empty
    (guarded : Guarded scheduling)
    (noCalls : scheduling.calls = [])
    (noSleepers : scheduling.queue.sleepers = []) :
    scheduling.queue.pending = .empty := by
  refine guarded.resolve_right ?_
  rintro (calling | ⟨sleeper, inBed, -⟩)
  · exact calling noCalls
  · rw [noSleepers] at inBed
    cases inBed

/--
A request was covered by a refresh, which brought up to date what it asked for,
and it has not been made again since the documents were read.
-/
def Served (events : List RefreshEvent) (request : RefreshRequest) : Prop :=
  ∃ earlier source work later before after,
    events = earlier ++ .refreshed source work :: later ∧ .merged request ∉ later ∧
      work.covers request = true ∧ Run earlier before ∧
      Step before (.refreshed source work) after ∧ after.index.UpToDate source request

theorem Served.append
    {request : RefreshRequest}
    (served : Served events request)
    (other : event ≠ .merged request) :
    Served (events ++ [event]) request := by
  obtain ⟨earlier, source, work, later, before, after, rfl, unasked, refreshed⟩ := served
  refine ⟨earlier, source, work, later ++ [event], before, after, by simp, ?_, refreshed⟩
  rw [List.mem_append, List.mem_singleton, not_or]
  exact ⟨unasked, other.symm⟩

theorem Run.served
    (run : Run events before)
    {source : DocumentSource}
    {work : PendingWork}
    (step : Step before (.refreshed source work) after)
    {request : RefreshRequest}
    (covered : work.covers request = true) :
    Served (events ++ [.refreshed source work]) request := by
  refine ⟨events, source, work, [], before, after, rfl, List.not_mem_nil, covered, run, step, ?_⟩
  cases step with
  | refresh calls index source asleep wakes =>
      exact RoutineIndex.upToDate_refresh covered index source

/-- Each request that was made is pending or has been served. -/
theorem Run.covered
    (run : Run events scheduling)
    {request : RefreshRequest}
    (asked : .merged request ∈ events) :
    scheduling.queue.pending.covers request = true ∨ Served events request := by
  induction run with
  | start =>
      cases asked
  | @step events before after event run step inductionHypothesis =>
      -- a request that is made now has to be served anew, whatever was done before
      by_cases now : event = .merged request
      · subst now
        cases step with
        | merge calls queue index request =>
            exact .inl (PendingWork.covers_merge_self _ _)
      · have earlier : .merged request ∈ events := by
          simpa [Ne.symm now] using asked
        have known := inductionHypothesis earlier
        cases step with
        | merge calls queue index other =>
            exact known.imp (PendingWork.covers_merge · other) (Served.append · now)
        | launch queue index due called =>
            exact known.imp id (Served.append · now)
        | pass calls index asleep wakes =>
            obtain ⟨-, rfl⟩ := RefreshQueue.wake_eq_none wakes
            exact known.imp id (Served.append · now)
        | refresh calls index source asleep wakes =>
            obtain ⟨rfl, -⟩ := RefreshQueue.wake_eq_some wakes
            rcases known with pending | served
            · exact .inr (run.served (.refresh calls index source asleep wakes) pending)
            · exact .inr (served.append now)

/--
While work is pending, a call is between its steps or the latest sleeper is in
bed. Once no call is, and no sleeper is in bed, each request that was made has
been covered by a refresh after it was made last.
-/
theorem Run.no_request_lost
    (run : Run events scheduling) :
    (scheduling.queue.pending ≠ .empty →
        scheduling.calls ≠ [] ∨
          ∃ sleeper ∈ scheduling.queue.sleepers,
            sleeper.generation = scheduling.queue.generation) ∧
      (scheduling.calls = [] → scheduling.queue.sleepers = [] →
        ∀ request, .merged request ∈ events → Served events request) := by
  refine ⟨run.guarded.resolve_left, ?_⟩
  intro noCalls noSleepers request asked
  refine (run.covered asked).resolve_left ?_
  rw [run.guarded.pending_eq_empty noCalls noSleepers, PendingWork.not_covers_empty]
  exact Bool.false_ne_true

/--
Two calls overlap: the sleeper of the second one does the work of both before
the first one has sent its own. A third call asks for the first document again,
and the sleeper of the first call finds that it is not the latest.
-/
def overlapping : List RefreshEvent :=
  [
    .merged (.document "a".toList),
    .merged (.document "b".toList),
    .launched (.document "b".toList) 1,
    .refreshed (.ofList []) ⟨false, ["a".toList, "b".toList]⟩,
    .launched (.document "a".toList) 2,
    .merged (.document "a".toList),
    .launched (.document "a".toList) 3,
    .passed ⟨2, 2⟩,
    .refreshed (.ofList []) ⟨false, ["a".toList]⟩
  ]

theorem run_overlapping :
    ∃ index, Run overlapping ⟨[], ⟨.empty, 3, []⟩, index⟩ := by
  have firstMerged := Run.start.step (.merge _ _ _ (.document "a".toList))
  have secondMerged := firstMerged.step (.merge _ _ _ (.document "b".toList))
  have secondLaunched := secondMerged.step (.launch _ _ 1 List.mem_cons_self)
  have bothDone := secondLaunched.step (.refresh _ _ (.ofList []) List.mem_cons_self rfl)
  have firstLaunched := bothDone.step (.launch _ _ 2 List.mem_cons_self)
  have thirdMerged := firstLaunched.step (.merge _ _ _ (.document "a".toList))
  have thirdLaunched := thirdMerged.step (.launch _ _ 3 List.mem_cons_self)
  have firstPassed := thirdLaunched.step (.pass _ _ List.mem_cons_self rfl)
  exact ⟨_, firstPassed.step (.refresh _ _ (.ofList []) List.mem_cons_self rfl)⟩

theorem Run.no_request_lost_overlapping :
    ∃ index, Run overlapping ⟨[], ⟨.empty, 3, []⟩, index⟩ ∧
      Served overlapping (.document "a".toList) ∧ Served overlapping (.document "b".toList) := by
  obtain ⟨index, run⟩ := run_overlapping
  have served := run.no_request_lost.2 rfl rfl
  refine ⟨index, run, served _ ?_, served _ ?_⟩
  · simp [overlapping]
  · simp [overlapping]

end Scheduling

end RoutineServer
