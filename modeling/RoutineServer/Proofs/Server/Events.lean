import Mathlib.Data.List.Perm.Subperm
import RoutineServer.Proofs.Index.Scheduling
import RoutineServer.Proofs.Workspace.Scan
import RoutineServer.Server.Notification

namespace RoutineServer

/-!
# Runs of a server

Between two answers a server is told things, sleepers wake up in any order and
see the files as they are then, and time passes. A notification changes the open
documents and the queue and nothing else. The queue and the index go through
steps of interleaved scheduling.
-/

namespace PendingWork

section Merge

variable {work : PendingWork}

theorem covers_foldl_merge
    {request : RefreshRequest}
    (covered : work.covers request = true)
    (requests : List RefreshRequest) :
    (requests.foldl merge work).covers request = true := by
  induction requests generalizing work with
  | nil => exact covered
  | cons other rest inductionHypothesis => exact inductionHypothesis (covers_merge covered other)

theorem covers_foldl_merge_of_mem
    {request : RefreshRequest}
    {requests : List RefreshRequest}
    (member : request ∈ requests)
    (work : PendingWork) :
    (requests.foldl merge work).covers request = true := by
  induction requests generalizing work with
  | nil =>
      cases member
  | cons first rest inductionHypothesis =>
      rcases List.mem_cons.mp member with rfl | later
      · exact covers_foldl_merge (covers_merge_self work request) rest
      · exact inductionHypothesis later (work.merge first)

theorem mem_documents_foldl_merge
    {uri : Text}
    {requests : List RefreshRequest}
    (member : uri ∈ (requests.foldl merge work).documents) :
    uri ∈ work.documents ∨ .document uri ∈ requests := by
  induction requests generalizing work with
  | nil =>
      exact .inl member
  | cons first rest inductionHypothesis =>
      rcases inductionHypothesis member with before | later
      · cases first with
        | everything =>
            exact .inl before
        | document added =>
            rw [merge] at before
            split at before
            case isTrue =>
              exact .inl before
            case isFalse =>
              rcases List.mem_append.mp before with old | new
              · exact .inl old
              · rw [List.mem_singleton.mp new]
                exact .inr List.mem_cons_self
      · exact .inr (List.mem_cons_of_mem _ later)

end Merge

end PendingWork

theorem RefreshQueue.pending_foldl_schedule
    (requests : List RefreshRequest)
    (due : Nat)
    (queue : RefreshQueue) :
    (requests.foldl (fun queue request => queue.schedule request due) queue).pending =
      requests.foldl PendingWork.merge queue.pending := by
  induction requests generalizing queue with
  | nil => rfl
  | cons request rest inductionHypothesis => exact inductionHypothesis (queue.schedule request due)

namespace Notification

/-- The refreshes that a notification asks for. -/
def requests : Notification → List RefreshRequest
  | .ready => [.everything]
  | .opened uri _ => [.document uri.render]
  | .changed uri texts => if texts.isEmpty then [] else [.document uri.render]
  | .closed uri => [.document uri.render]
  | .filesChanged uris => uris.map fun uri => .document uri.render
  | .stopped => []
  | .exited => []
  | .other => []

/-- The open documents, one of them with a new text. -/
def remembered (opened : List (Text × Text)) (uri text : Text) : List (Text × Text) :=
  opened.filter (·.1 != uri) ++ [(uri, text)]

/-- The open documents after a notification. -/
def overlay (opened : List (Text × Text)) : Notification → List (Text × Text)
  | .opened uri text => remembered opened uri.render text
  | .changed uri texts =>
      match texts.getLast? with
      | some text => remembered opened uri.render text
      | none => opened
  | .closed uri => opened.filter (·.1 != uri.render)
  | _ => opened

/-- The documents that a notification is about have URIs in normal form, and the server goes on. -/
def Ordinary : Notification → Prop
  | .ready => True
  | .opened uri _ => uri.IsNormal
  | .changed uri _ => uri.IsNormal
  | .closed uri => uri.IsNormal
  | .filesChanged uris => ∀ uri ∈ uris, uri.IsNormal
  | .stopped => False
  | .exited => False
  | .other => True

/-- Whether the refreshes that a notification asks for reach a document. -/
def announces (notification : Notification) (uri : Text) : Bool :=
  notification.requests.any fun request => request == .everything || request == .document uri

section Overlay

variable {notification : Notification} {uri : Text} {opened : List (Text × Text)}

theorem announces_of_mem
    (member : .document uri ∈ notification.requests) :
    notification.announces uri = true :=
  List.any_eq_true.mpr ⟨_, member, by simp⟩

/-- A document that is announced is covered by the work that is pending then. -/
theorem covers_of_announces
    (announced : notification.announces uri = true)
    (work : PendingWork) :
    (notification.requests.foldl PendingWork.merge work).covers (.document uri) = true := by
  obtain ⟨request, member, reaches⟩ := List.any_eq_true.mp announced
  have covered := PendingWork.covers_foldl_merge_of_mem member work
  simp only [Bool.or_eq_true, beq_iff_eq] at reaches
  rcases reaches with rfl | rfl
  · rw [PendingWork.covers] at covered
    rw [PendingWork.covers, covered, Bool.true_or]
  · exact covered

/-- An ordinary notification asks for documents by their normal form. -/
theorem written_of_mem
    (ordinary : notification.Ordinary)
    (member : .document uri ∈ notification.requests) :
    Uri.Written uri := by
  cases notification with
  | opened other text =>
      cases List.mem_singleton.mp member
      exact ordinary.written
  | closed other =>
      cases List.mem_singleton.mp member
      exact ordinary.written
  | changed other texts =>
      rw [requests] at member
      split at member
      case isTrue =>
        cases member
      case isFalse =>
        cases List.mem_singleton.mp member
        exact ordinary.written
  | filesChanged uris =>
      obtain ⟨other, isTold, same⟩ := List.mem_map.mp member
      cases same
      exact (ordinary other isTold).written
  | ready => simp [requests] at member
  | stopped => cases member
  | exited => cases member
  | other => cases member

theorem lookup_remembered_of_ne
    {other : Text}
    (apart : uri ≠ other)
    (opened : List (Text × Text))
    (text : Text) :
    (remembered opened other text).lookup uri = opened.lookup uri := by
  rw [remembered, List.lookup_append, lookup_filter_of_ne apart, lookup_cons_of_ne apart,
    List.lookup_nil, Option.or_none]

theorem mem_of_mem_remembered
    {other text : Text}
    (isOpen : uri ∈ (remembered opened other text).map (·.1)) :
    uri ∈ opened.map (·.1) ∨ uri = other := by
  rw [remembered, List.map_append, List.mem_append, List.map_singleton, List.mem_singleton]
    at isOpen
  exact isOpen.imp (List.filter_sublist.map _).mem id

/-- A document that is not announced stays open with its text, or closed. -/
theorem lookup_overlay
    (unannounced : notification.announces uri = false)
    (opened : List (Text × Text)) :
    (notification.overlay opened).lookup uri = opened.lookup uri := by
  have apart :
      ∀ other : Uri, .document other.render ∈ notification.requests → uri ≠ other.render := by
    rintro other member rfl
    rw [announces_of_mem member] at unannounced
    cases unannounced
  cases notification with
  | opened other text =>
      exact lookup_remembered_of_ne (apart other List.mem_cons_self) opened text
  | closed other =>
      exact lookup_filter_of_ne (apart other List.mem_cons_self) opened
  | changed other texts =>
      cases texts with
      | nil =>
          rfl
      | cons first rest =>
          rw [overlay, List.getLast?_cons]
          exact lookup_remembered_of_ne (apart other List.mem_cons_self) opened _
  | ready => rfl
  | filesChanged uris => rfl
  | stopped => rfl
  | exited => rfl
  | other => rfl

/-- What is open after a notification was open before, or the notification asks to refresh it. -/
theorem mem_of_mem_overlay
    (isOpen : uri ∈ (notification.overlay opened).map (·.1)) :
    uri ∈ opened.map (·.1) ∨ .document uri ∈ notification.requests := by
  cases notification with
  | opened other text =>
      refine (mem_of_mem_remembered isOpen).imp id ?_
      rintro rfl
      exact List.mem_cons_self
  | closed other =>
      exact .inl ((List.filter_sublist.map _).mem isOpen)
  | changed other texts =>
      cases texts with
      | nil =>
          exact .inl isOpen
      | cons first rest =>
          rw [overlay, List.getLast?_cons] at isOpen
          refine (mem_of_mem_remembered isOpen).imp id ?_
          rintro rfl
          exact List.mem_cons_self
  | ready => exact .inl isOpen
  | filesChanged uris => exact .inl isOpen
  | stopped => exact .inl isOpen
  | exited => exact .inl isOpen
  | other => exact .inl isOpen

end Overlay

end Notification

/-- What happens to a server. -/
inductive ServerEvent where
  | told (notification : Notification)
  /-- A sleeper wakes up while the files are as given. -/
  | woke (files : FileTree) (sleeper : Sleeper)
  | waited (milliseconds : Nat)

namespace Server

/-- A server after an event. A sleeper that is not in bed cannot wake up. -/
def react (server : Server) : ServerEvent → Server
  | .told notification => (server.notify notification).1
  | .woke files sleeper =>
      if sleeper ∈ server.queue.sleepers then server.wake files sleeper else server
  | .waited milliseconds => { server with now := server.now + milliseconds }

/-- A server after some events. -/
def after (server : Server) (events : List ServerEvent) : Server :=
  events.foldl react server

/-- The work that is done at an event. -/
def workAt (server : Server) : ServerEvent → Option PendingWork
  | .woke _ sleeper =>
      if sleeper ∈ server.queue.sleepers then (server.queue.wake sleeper).2 else none
  | _ => none

/-- The refreshes during some events, in order. -/
def refreshes : Server → List ServerEvent → List PendingWork
  | _, [] => []
  | server, event :: rest => (server.workAt event).toList ++ (server.react event).refreshes rest

section Scheduling

variable {server : Server}

theorem schedule_eq
    (enabled : server.settings.cache.enabled = true)
    (request : RefreshRequest) :
    server.schedule request =
      { server with
        queue := server.queue.schedule request (server.now + server.settings.cache.debounceMs) } :=
  if_pos enabled

theorem foldl_schedule_eq
    (enabled : server.settings.cache.enabled = true)
    (requests : List RefreshRequest) :
    requests.foldl schedule server =
      { server with
        queue := requests.foldl
          (fun queue request =>
            queue.schedule request (server.now + server.settings.cache.debounceMs))
          server.queue } := by
  induction requests generalizing server with
  | nil =>
      rfl
  | cons request rest inductionHypothesis =>
      rw [List.foldl_cons, schedule_eq enabled]
      exact inductionHypothesis enabled

/-- A notification changes the open documents, and schedules what it asks for. -/
theorem notify_eq
    (running : server.phase = .running)
    {notification : Notification}
    (ordinary : notification.Ordinary) :
    (server.notify notification).1 =
      notification.requests.foldl schedule
        { server with opened := notification.overlay server.opened } := by
  rw [notify, if_pos (by rw [running]; rfl)]
  cases notification with
  | ready => rfl
  | opened uri text => rfl
  | closed uri => rfl
  | other => rfl
  | stopped => cases ordinary
  | exited => cases ordinary
  | changed uri texts =>
      cases texts with
      | nil =>
          rfl
      | cons first rest =>
          rw [observe, Notification.overlay, List.getLast?_cons]
          rfl
  | filesChanged uris =>
      rw [observe, Notification.requests, List.foldl_map]
      rfl

end Scheduling

/-- The queue and the index have come about by interleaved scheduling. -/
def Scheduled (server : Server) : Prop :=
  ∃ events, Scheduling.Run events ⟨[], server.queue, server.index⟩

namespace Scheduled

variable {server : Server}

theorem schedule
    (scheduled : server.Scheduled)
    (request : RefreshRequest) :
    (server.schedule request).Scheduled := by
  by_cases enabled : server.settings.cache.enabled = true
  · obtain ⟨events, run⟩ := scheduled
    have merged := run.step (.merge _ _ _ request)
    have launched :=
      merged.step (.launch _ _ (server.now + server.settings.cache.debounceMs) List.mem_cons_self)
    rw [List.erase_cons_head] at launched
    rw [schedule_eq enabled]
    exact ⟨_, launched⟩
  · rw [Server.schedule, if_neg enabled]
    exact scheduled

theorem foldl_schedule
    (scheduled : server.Scheduled)
    (requests : List RefreshRequest) :
    (requests.foldl Server.schedule server).Scheduled := by
  induction requests generalizing server with
  | nil => exact scheduled
  | cons request rest inductionHypothesis => exact inductionHypothesis (scheduled.schedule request)

theorem wake
    (scheduled : server.Scheduled)
    {sleeper : Sleeper}
    (asleep : sleeper ∈ server.queue.sleepers)
    (files : FileTree) :
    (server.wake files sleeper).Scheduled := by
  obtain ⟨events, run⟩ := scheduled
  rw [Server.wake]
  split
  case h_1 woken wakes =>
    exact ⟨_, run.step (.pass _ _ asleep wakes)⟩
  case h_2 woken work wakes =>
    exact ⟨_, run.step (.refresh _ _ (server.source files) asleep wakes)⟩

/-- When all sleepers are up, no work is left. -/
theorem pending_eq_empty
    (scheduled : server.Scheduled)
    (quiet : server.queue.sleepers = []) :
    server.queue.pending = .empty := by
  obtain ⟨events, run⟩ := scheduled
  exact run.guarded.pending_eq_empty rfl quiet

end Scheduled

section Elapse

theorem sleepers_wake
    (files : FileTree)
    (server : Server)
    (sleeper : Sleeper) :
    (server.wake files sleeper).queue.sleepers = server.queue.sleepers.erase sleeper := by
  rw [wake, RefreshQueue.wake]
  split
  case h_1 found =>
    split at found
    case isTrue => cases found
    case isFalse => cases found; rfl
  case h_2 found =>
    split at found
    case isTrue => cases found; rfl
    case isFalse => cases found

theorem foldl_wake_eq_after
    (server : Server)
    {sleepers : List Sleeper}
    (inBed : sleepers.Subperm server.queue.sleepers)
    (files : FileTree) :
    sleepers.foldl (wake files) server = server.after (sleepers.map (.woke files)) := by
  induction sleepers generalizing server with
  | nil =>
      rfl
  | cons sleeper rest inductionHypothesis =>
      have here : server.react (.woke files sleeper) = server.wake files sleeper :=
        if_pos (inBed.subset List.mem_cons_self)
      have later := inBed.erase sleeper
      rw [List.erase_cons_head, ← sleepers_wake files] at later
      rw [List.foldl_cons, inductionHypothesis _ later, List.map_cons, after, after,
        List.foldl_cons, here]

/-- To let time pass is a run: the sleepers that are due wake up one after another. -/
theorem elapse_eq_after
    (server : Server)
    (files : FileTree)
    (milliseconds : Nat) :
    server.elapse files milliseconds =
      server.after (.waited milliseconds ::
        (server.queue.dueAt (server.now + milliseconds)).map (.woke files)) := by
  have inBed :
      (server.queue.dueAt (server.now + milliseconds)).Subperm server.queue.sleepers :=
    (List.mergeSort_perm _ _).subperm.trans List.filter_sublist.subperm
  exact foldl_wake_eq_after { server with now := server.now + milliseconds } inBed files

end Elapse

end Server

end RoutineServer
