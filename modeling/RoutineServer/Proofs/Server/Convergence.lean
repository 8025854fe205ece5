import RoutineServer.Proofs.Server.Events
import RoutineServer.Server.Request

namespace RoutineServer

/-!
# Convergence of the index

When all refreshes have been made and the files have not changed unannounced, a
ready index shows the documents as they are. It need not be what a scan of the
workspace would give: a document that was refreshed alone is in the index if it
can be read, whether it is among the candidates of the workspace or not. The
two agree exactly if all such documents are candidates.
-/

namespace PendingWork

/-- The documents that were refreshed alone since all were, after some more work. -/
def aloneAfter (alone : List Text) (work : PendingWork) : List Text :=
  if work.everything then [] else alone ++ work.documents

/-- The documents that were refreshed alone since the last refresh of everything. -/
def alone (works : List PendingWork) : List Text :=
  works.foldl aloneAfter []

theorem mem_aloneAfter
    {uri : Text}
    {alone : List Text}
    {work : PendingWork}
    (member : uri ∈ aloneAfter alone work) :
    uri ∈ alone ∨ uri ∈ work.documents := by
  rw [aloneAfter] at member
  split at member
  case isTrue => cases member
  case isFalse => exact List.mem_append.mp member

end PendingWork

namespace ServerEvent

/-- A client has asked for a refresh of a document. -/
def Mentioned (events : List ServerEvent) (uri : Text) : Prop :=
  ∃ notification, .told notification ∈ events ∧ .document uri ∈ notification.requests

/-- A client has asked for a refresh that reaches a document. -/
def Announced (events : List ServerEvent) (uri : Text) : Prop :=
  ∃ notification, .told notification ∈ events ∧ notification.announces uri = true

variable {events : List ServerEvent} {event : ServerEvent} {uri : Text}

theorem Mentioned.append
    (mentioned : Mentioned events uri)
    (event : ServerEvent) :
    Mentioned (events ++ [event]) uri := by
  obtain ⟨notification, isTold, asked⟩ := mentioned
  exact ⟨notification, List.mem_append_left _ isTold, asked⟩

theorem mentioned_append_iff :
    Mentioned (events ++ [event]) uri ↔
      Mentioned events uri ∨
        ∃ notification, event = .told notification ∧ .document uri ∈ notification.requests := by
  constructor
  · rintro ⟨notification, isTold, asked⟩
    rcases List.mem_append.mp isTold with before | now
    · exact .inl ⟨notification, before, asked⟩
    · exact .inr ⟨notification, (List.mem_singleton.mp now).symm, asked⟩
  · rintro (before | ⟨notification, rfl, asked⟩)
    · exact before.append event
    · exact ⟨notification, List.mem_append_right _ List.mem_cons_self, asked⟩

/-- What the next event does not announce is announced after it. -/
theorem Announced.tail
    (announced : Announced (event :: events) uri)
    (unannounced : ∀ notification, event = .told notification →
      notification.announces uri = false) :
    Announced events uri := by
  obtain ⟨notification, isTold, announces⟩ := announced
  refine ⟨notification, (List.mem_cons.mp isTold).resolve_left ?_, announces⟩
  intro here
  rw [unannounced notification here.symm] at announces
  cases announces

end ServerEvent

namespace Server

open ServerEvent (Mentioned Announced)

/-- The documents as they are on disk, none of them open. -/
def onDisk (server : Server) (files : FileTree) : DocumentSource :=
  (server.workspace files).onDisk.source

/--
A document is the same in two states of the files for a scan and, if a client
has asked for it, for a single look too.
-/
structure SameOnDisk
    (server : Server)
    (past : List ServerEvent)
    (seen files : FileTree)
    (uri : Text) :
    Prop where
  scanned : (server.onDisk seen).scannedText? uri = (server.onDisk files).scannedText? uri
  text : Mentioned past uri → (server.onDisk seen).text? uri = (server.onDisk files).text? uri

/-- The text that the index should know of a document: one that was refreshed alone is read. -/
def shown (server : Server) (files : FileTree) (alone : List Text) (uri : Text) : Option Text :=
  if uri ∈ alone then (server.source files).text? uri
  else (server.source files).scannedText? uri

/-- What a run leaves as it is, and where the documents come from that are refreshed alone. -/
structure Sound
    (start : Server)
    (past : List ServerEvent)
    (server : Server)
    (alone : List Text) :
    Prop where
  running : server.phase = .running
  root : server.root = start.root
  settings : server.settings = start.settings
  opened : ∀ uri ∈ server.opened.map (·.1), Uri.Written uri
  pending : ∀ uri ∈ server.queue.pending.documents, Mentioned past uri
  alone : ∀ uri ∈ alone, Mentioned past uri
  written : ∀ uri, Mentioned past uri → Uri.Written uri
  scheduled : server.Scheduled

/--
A document is in the index as it should be, or a refresh of it is pending, or it
will be announced.
-/
def Current
    (files : FileTree)
    (server : Server)
    (alone : List Text)
    (coming : List ServerEvent)
    (uri : Text) :
    Prop :=
  server.queue.pending.covers (.document uri) = true ∨ Announced coming uri ∨
    (server.index.ready = true →
      server.index.files.lookup uri =
        (server.shown files alone uri).map (Summary.ofText uri))

section Shown

variable {start server : Server} {past : List ServerEvent} {alone : List Text}

theorem Sound.tidy
    (sound : Sound start past server alone)
    (files : FileTree) :
    (server.workspace files).Tidy :=
  sound.opened

/-- What should be known of a document depends on its own text in the editor and on the files. -/
theorem Sound.shown_eq
    (sound : Sound start past server alone)
    (files : FileTree)
    (uri : Text) :
    server.shown files alone uri =
      (server.opened.lookup uri).or
        (if uri ∈ alone then (server.onDisk files).text? uri
          else (server.onDisk files).scannedText? uri) := by
  rw [shown]
  split
  case isTrue isAlone =>
    exact Workspace.text?_eq (sound.written uri (sound.alone uri isAlone)) (server.workspace files)
  case isFalse =>
    exact (sound.tidy files).scannedText?_eq uri

theorem Sound.shown_eq_of_same
    (sound : Sound start past server alone)
    {seen files : FileTree}
    {uri : Text}
    (same : start.SameOnDisk past seen files uri) :
    server.shown seen alone uri = server.shown files alone uri := by
  obtain ⟨scanned, text⟩ := same
  rw [onDisk, onDisk, workspace, workspace, ← sound.root, ← sound.settings] at scanned text
  rw [sound.shown_eq, sound.shown_eq]
  split
  case isTrue isAlone => exact congrArg _ (text (sound.alone uri isAlone))
  case isFalse => exact congrArg _ scanned

end Shown

section Told

variable {start server : Server} {past : List ServerEvent} {alone : List Text}
  {notification : Notification}

theorem Sound.react_told_eq
    (sound : Sound start past server alone)
    (enabled : start.settings.cache.enabled = true)
    (ordinary : notification.Ordinary) :
    server.react (.told notification) =
      { server with
        opened := notification.overlay server.opened
        queue := notification.requests.foldl
          (fun queue request =>
            queue.schedule request (server.now + server.settings.cache.debounceMs))
          server.queue } := by
  rw [react, notify_eq sound.running ordinary, foldl_schedule_eq]
  rw [sound.settings, enabled]

/-- A notification asks for the documents that it brings up, and speaks of them properly. -/
theorem Sound.told
    (sound : Sound start past server alone)
    (enabled : start.settings.cache.enabled = true)
    (ordinary : notification.Ordinary) :
    Sound start (past ++ [.told notification]) (server.react (.told notification)) alone := by
  have scheduled : (server.react (.told notification)).Scheduled := by
    have edited :
        Scheduled { server with opened := notification.overlay server.opened } :=
      sound.scheduled
    rw [react, notify_eq sound.running ordinary]
    exact edited.foldl_schedule notification.requests
  rw [sound.react_told_eq enabled ordinary] at scheduled ⊢
  exact {
    running := sound.running
    root := sound.root
    settings := sound.settings
    opened := by
      intro uri isOpen
      rcases Notification.mem_of_mem_overlay isOpen with before | asked
      · exact sound.opened uri before
      · exact Notification.written_of_mem ordinary asked
    pending := by
      intro uri isPending
      rw [RefreshQueue.pending_foldl_schedule] at isPending
      rw [ServerEvent.mentioned_append_iff]
      refine (PendingWork.mem_documents_foldl_merge isPending).imp (sound.pending uri) ?_
      exact fun asked => ⟨notification, rfl, asked⟩
    alone := fun uri isAlone => (sound.alone uri isAlone).append _
    written := by
      intro uri mentioned
      rcases ServerEvent.mentioned_append_iff.mp mentioned with before | ⟨_, same, asked⟩
      · exact sound.written uri before
      · cases same
        exact Notification.written_of_mem ordinary asked
    scheduled := scheduled
  }

/-- Whatever a notification changes, it asks to refresh. -/
theorem Current.told
    {files : FileTree}
    {coming : List ServerEvent}
    {uri : Text}
    (current : Current files server alone (.told notification :: coming) uri)
    (sound : Sound start past server alone)
    (enabled : start.settings.cache.enabled = true)
    (ordinary : notification.Ordinary) :
    Current files (server.react (.told notification)) alone coming uri := by
  have nextSound := sound.told enabled ordinary
  have pending :
      (server.react (.told notification)).queue.pending =
        notification.requests.foldl PendingWork.merge server.queue.pending := by
    rw [sound.react_told_eq enabled ordinary, RefreshQueue.pending_foldl_schedule]
  by_cases announced : notification.announces uri = true
  · refine .inl ?_
    rw [pending]
    exact Notification.covers_of_announces announced _
  · rw [Bool.not_eq_true] at announced
    rcases current with covered | later | known
    · refine .inl ?_
      rw [pending]
      exact PendingWork.covers_foldl_merge covered _
    · refine .inr (.inl (later.tail ?_))
      rintro _ ⟨⟩
      exact announced
    · refine .inr (.inr ?_)
      rw [nextSound.shown_eq]
      rw [sound.shown_eq] at known
      rw [sound.react_told_eq enabled ordinary]
      intro ready
      rw [known ready, Notification.lookup_overlay announced]
      rfl

end Told

section Woke

variable {start server : Server} {past : List ServerEvent} {alone : List Text}
  {sleeper : Sleeper} {seen : FileTree}

/--
What a sleeper can do: nothing to the index if it is not in bed or not the
latest, or else all pending work.
-/
theorem react_woke_cases
    (server : Server)
    (seen : FileTree)
    (sleeper : Sleeper) :
    (server.workAt (.woke seen sleeper) = none ∧
        ∃ sleepers,
          server.react (.woke seen sleeper) =
            { server with queue := { server.queue with sleepers := sleepers } }) ∨
      (server.workAt (.woke seen sleeper) = some server.queue.pending ∧
        ∃ sleepers,
          server.react (.woke seen sleeper) =
            { server with
              queue := { server.queue with pending := .empty, sleepers := sleepers }
              index := server.index.refresh (server.source seen) server.queue.pending }) := by
  rw [workAt, react]
  split
  case isFalse =>
    exact .inl ⟨rfl, server.queue.sleepers, rfl⟩
  case isTrue =>
    rw [wake, RefreshQueue.wake]
    by_cases latest : (sleeper.generation == server.queue.generation) = true
    · refine .inr ⟨?_, server.queue.sleepers.erase sleeper, ?_⟩
      · simp only [latest, ↓reduceIte]
      · simp only [latest, ↓reduceIte]
    · refine .inl ⟨?_, server.queue.sleepers.erase sleeper, ?_⟩
      · simp only [latest, Bool.false_eq_true, ↓reduceIte]
      · simp only [latest, Bool.false_eq_true, ↓reduceIte]

theorem Sound.woke
    (sound : Sound start past server alone)
    (seen : FileTree)
    (sleeper : Sleeper) :
    Sound start past (server.react (.woke seen sleeper))
      ((server.workAt (.woke seen sleeper)).toList.foldl PendingWork.aloneAfter alone) := by
  have scheduled : (server.react (.woke seen sleeper)).Scheduled := by
    rw [react]
    split
    case isTrue asleep => exact sound.scheduled.wake asleep seen
    case isFalse => exact sound.scheduled
  rcases react_woke_cases server seen sleeper with
    ⟨noWork, sleepers, isNext⟩ | ⟨isWork, sleepers, isNext⟩
  · rw [noWork]
    rw [isNext] at scheduled ⊢
    exact { sound with scheduled := scheduled }
  · rw [isWork]
    rw [isNext] at scheduled ⊢
    exact { sound with
      pending := by
        intro uri isPending
        cases isPending
      alone := by
        intro uri isAlone
        exact (PendingWork.mem_aloneAfter isAlone).elim (sound.alone uri) (sound.pending uri)
      scheduled := scheduled }

theorem Sound.append
    (sound : Sound start past server alone)
    {event : ServerEvent}
    (quiet : ∀ notification, event ≠ .told notification) :
    Sound start (past ++ [event]) server alone :=
  { sound with
    pending := fun uri isPending => (sound.pending uri isPending).append event
    alone := fun uri isAlone => (sound.alone uri isAlone).append event
    written := by
      intro uri mentioned
      rcases ServerEvent.mentioned_append_iff.mp mentioned with before | ⟨notification, same, -⟩
      · exact sound.written uri before
      · exact (quiet notification same).elim }

/-- A refresh that reaches a document brings it into the index as it is seen then. -/
theorem lookup_refresh_of_covers
    {work : PendingWork}
    {uri : Text}
    (covered : work.covers (.document uri) = true)
    (index : RoutineIndex)
    (server : Server)
    (seen : FileTree)
    (alone : List Text) :
    (index.refresh (server.source seen) work).files.lookup uri =
      (server.shown seen (PendingWork.aloneAfter alone work) uri).map (Summary.ofText uri) := by
  rw [RoutineIndex.refresh, shown, PendingWork.aloneAfter]
  by_cases everything : work.everything = true
  · rw [if_pos everything, if_pos everything, if_neg List.not_mem_nil, RoutineIndex.lookup_ofSource]
  · rw [PendingWork.covers, Bool.or_eq_true, List.contains_iff_mem] at covered
    have listed := covered.resolve_left everything
    rw [if_neg everything, if_neg everything, if_pos (List.mem_append_right _ listed),
      RoutineIndex.lookup_refreshDocuments, if_pos listed]

/-- A refresh that does not reach a document leaves it alone. -/
theorem refresh_of_not_covers
    {work : PendingWork}
    {uri : Text}
    (uncovered : work.covers (.document uri) = false)
    (index : RoutineIndex)
    (source : DocumentSource)
    (alone : List Text) :
    (index.refresh source work).files.lookup uri = index.files.lookup uri ∧
      (index.refresh source work).ready = index.ready ∧
      (uri ∈ PendingWork.aloneAfter alone work ↔ uri ∈ alone) := by
  rw [PendingWork.covers, Bool.or_eq_false_iff] at uncovered
  obtain ⟨partly, unlisted⟩ := uncovered
  rw [List.contains_eq_mem, decide_eq_false_iff_not] at unlisted
  rw [RoutineIndex.refresh, PendingWork.aloneAfter, partly]
  refine ⟨?_, RoutineIndex.ready_refreshDocuments index source work.documents, ?_⟩
  · exact (RoutineIndex.lookup_refreshDocuments index source work.documents uri).trans
      (if_neg unlisted)
  · exact List.mem_append.trans (or_iff_left unlisted)

/--
A document that a sleeper sees as it is in the end is current from then on; one
that it sees otherwise will be announced.
-/
theorem Current.woke
    {files : FileTree}
    {coming : List ServerEvent}
    {uri : Text}
    (current : Current files server alone (.woke seen sleeper :: coming) uri)
    (sound : Sound start past server alone)
    (seesIt : start.SameOnDisk past seen files uri ∨ Announced coming uri) :
    Current files (server.react (.woke seen sleeper))
      ((server.workAt (.woke seen sleeper)).toList.foldl PendingWork.aloneAfter alone) coming
      uri := by
  have later : Announced (.woke seen sleeper :: coming) uri → Announced coming uri :=
    fun announced => announced.tail nofun
  have nextSound := sound.woke seen sleeper
  rcases react_woke_cases server seen sleeper with
    ⟨noWork, sleepers, isNext⟩ | ⟨isWork, sleepers, isNext⟩
  · rw [noWork, isNext]
    exact current.imp id (.imp later id)
  · rw [isWork, isNext] at nextSound ⊢
    refine .inr ?_
    -- either the document is read now, or neither it nor the way it is known changes
    by_cases covered : server.queue.pending.covers (.document uri) = true
    · refine seesIt.symm.imp id ?_
      intro same ready
      refine (lookup_refresh_of_covers covered server.index server seen alone).trans ?_
      exact congrArg _ (nextSound.shown_eq_of_same same)
    · rcases current with pending | announced | known
      · exact (covered pending).elim
      · exact .inl (later announced)
      · rw [Bool.not_eq_true] at covered
        obtain ⟨sameRoutines, sameReady, sameAlone⟩ :=
          refresh_of_not_covers covered server.index (server.source seen) alone
        refine .inr ?_
        intro ready
        refine sameRoutines.trans ((known (sameReady.symm.trans ready)).trans ?_)
        rw [shown, shown]
        simp only [Option.toList_some, List.foldl_cons, List.foldl_nil, sameAlone]
        rfl

end Woke

/-- A server that has answered the first request. -/
def Started (server : Server) : Prop :=
  ∃ host folders root, server = (fresh.request host (.start folders root)).1

theorem Started.sound
    {start : Server}
    (started : start.Started) :
    Sound start [] start [] ∧ start.index.ready = false := by
  obtain ⟨host, folders, root, rfl⟩ := started
  refine ⟨?_, rfl⟩
  exact {
    running := rfl
    root := rfl
    settings := rfl
    opened := nofun
    pending := nofun
    alone := nofun
    written := nofun
    scheduled := ⟨[], .start⟩
  }

/--
A run of a started server that keeps an index: clients speak of documents by
URIs in normal form, and whenever a sleeper sees a document otherwise than it is
in the end, the document is announced after that.
-/
structure Regular (start : Server) (events : List ServerEvent) (files : FileTree) : Prop where
  started : start.Started
  enabled : start.settings.cache.enabled = true
  ordinary : ∀ notification, .told notification ∈ events → notification.Ordinary
  announced : ∀ past seen sleeper coming, events = past ++ .woke seen sleeper :: coming →
    ∀ uri, start.SameOnDisk past seen files uri ∨ Announced coming uri

/-- Along a run every document stays current. -/
theorem Regular.current_after
    {start : Server}
    {events : List ServerEvent}
    {files : FileTree}
    (regular : Regular start events files)
    {past coming : List ServerEvent}
    (split : events = past ++ coming)
    {server : Server}
    {alone : List Text}
    (sound : Sound start past server alone)
    (current : ∀ uri, Current files server alone coming uri) :
    Sound start events (server.after coming)
        ((server.refreshes coming).foldl PendingWork.aloneAfter alone) ∧
      ∀ uri, Current files (server.after coming)
        ((server.refreshes coming).foldl PendingWork.aloneAfter alone) [] uri := by
  -- what lies behind tells who was asked for, what is to come tells what may still be stale
  induction coming generalizing past server alone with
  | nil =>
      rw [List.append_nil] at split
      exact ⟨split ▸ sound, current⟩
  | cons event rest inductionHypothesis =>
      have nextSplit : events = past ++ [event] ++ rest := by
        rw [split, List.append_assoc, List.singleton_append]
      rw [refreshes, List.foldl_append]
      cases event with
      | told notification =>
          have ordinary := regular.ordinary notification (by simp [split])
          exact inductionHypothesis nextSplit (sound.told regular.enabled ordinary) fun uri =>
            (current uri).told sound regular.enabled ordinary
      | woke seen sleeper =>
          exact inductionHypothesis nextSplit ((sound.woke seen sleeper).append nofun) fun uri =>
            (current uri).woke sound (regular.announced past seen sleeper rest split uri)
      | waited milliseconds =>
          have waited : Sound start past (server.react (.waited milliseconds)) alone :=
            { sound with }
          refine inductionHypothesis nextSplit (waited.append nofun) fun uri => ?_
          exact (current uri).imp id (.imp (·.tail nofun) id)

section Regular

variable {start : Server} {events : List ServerEvent} {files : FileTree}

theorem Regular.settled
    (regular : Regular start events files) :
    Sound start events (start.after events) (PendingWork.alone (start.refreshes events)) ∧
      ∀ uri, Current files (start.after events) (PendingWork.alone (start.refreshes events)) []
        uri := by
  obtain ⟨sound, notReady⟩ := regular.started.sound
  refine regular.current_after rfl sound fun uri => .inr (.inr ?_)
  rw [notReady]
  exact nofun

/-- With all sleepers up, nothing is pending and nothing is to come, so the index is up to date. -/
theorem Regular.lookup_index
    (regular : Regular start events files)
    (quiet : (start.after events).queue.sleepers = [])
    (ready : (start.after events).index.ready = true)
    (uri : Text) :
    (start.after events).index.files.lookup uri =
      if uri ∈ PendingWork.alone (start.refreshes events) then
        (((start.after events).source files).text? uri).map (Summary.ofText uri)
      else
        (RoutineIndex.ofSource ((start.after events).source files)).files.lookup uri := by
  obtain ⟨sound, current⟩ := regular.settled
  rcases current uri with pending | ⟨notification, isTold, -⟩ | known
  · rw [sound.scheduled.pending_eq_empty quiet, PendingWork.not_covers_empty] at pending
    cases pending
  · cases isTold
  · rw [known ready, shown, RoutineIndex.lookup_ofSource]
    split
    case isTrue => rfl
    case isFalse => rfl

/--
When all sleepers are up after a regular run, a ready index knows each document
that was refreshed alone since the last refresh of everything as it can be read,
and all others as a scan of the workspace finds them. So it is what a scan would
give if and only if each of those documents that can be read is a candidate.
-/
theorem Regular.index_eq_scan_iff
    (regular : Regular start events files)
    (quiet : (start.after events).queue.sleepers = [])
    (ready : (start.after events).index.ready = true) :
    (∀ uri, (start.after events).index.files.lookup uri =
        if uri ∈ PendingWork.alone (start.refreshes events) then
          (((start.after events).source files).text? uri).map (Summary.ofText uri)
        else
          (RoutineIndex.ofSource ((start.after events).source files)).files.lookup uri) ∧
      ((∀ uri, (start.after events).index.files.lookup uri =
          (RoutineIndex.ofSource ((start.after events).source files)).files.lookup uri) ↔
        ∀ uri ∈ PendingWork.alone (start.refreshes events),
          (((start.after events).source files).text? uri).isSome = true →
            uri ∈ ((start.after events).source files).candidates.map Uri.render) := by
  have known := regular.lookup_index quiet ready
  refine ⟨known, ?_, ?_⟩
  · intro agrees uri isAlone readable
    by_contra unlisted
    have absent := agrees uri
    rw [known, if_pos isAlone, RoutineIndex.lookup_ofSource,
      DocumentSource.scannedText?_eq_none unlisted, Option.map_none,
      Option.map_eq_none_iff] at absent
    rw [absent] at readable
    cases readable
  · intro listed uri
    rw [known]
    split
    case isFalse => rfl
    case isTrue isAlone =>
      have sound := regular.settled.1
      rw [RoutineIndex.lookup_ofSource]
      by_cases candidate : uri ∈ ((start.after events).source files).candidates.map Uri.render
      · have written := sound.written uri (sound.alone uri isAlone)
        exact congrArg _ ((sound.tidy files).text?_eq_scannedText? written candidate)
      · have unreadable : ((start.after events).source files).text? uri = none := by
          rw [← Option.not_isSome_iff_eq_none]
          exact fun readable => candidate (listed uri isAlone readable)
        rw [unreadable, DocumentSource.scannedText?_eq_none candidate]

end Regular

/-- A directory with a file of a given content, and another file that the settings leave out. -/
def projectFiles (content : String) : FileTree :=
  (FileTree.empty.writeFile ["w".toList, "a.sql".toList] (Text.utf8 content.toList)).writeFile
    ["w".toList, "node_modules".toList, "b.sql".toList]
    (Text.utf8 "create function g() as 'x';".toList)

def projectUri : Uri :=
  .ofFilePath ["w".toList, "a.sql".toList]

def vendoredUri : Uri :=
  .ofFilePath ["w".toList, "node_modules".toList, "b.sql".toList]

/-- A server for the directory. -/
def projectServer : Server :=
  (fresh.request ⟨projectFiles "", none, none⟩
    (.start [] (some (.ofFilePath ["w".toList])))).1

/-- The files before and after a change that the client announces. -/
def filesBefore : FileTree :=
  projectFiles "create function f() as 'x';"

def filesAfter : FileTree :=
  projectFiles "create function h() as 'x';"

/--
The index is built before the file changes. Then a document without a file is
opened and the change is announced; of the two sleepers only the last one works.
-/
def changeRun : List ServerEvent :=
  [
    .told .ready,
    .woke filesBefore ⟨1, 500⟩,
    .told (.opened ⟨"untitled".toList, none, "n".toList, none, none⟩
      "create function k() as 'x';".toList),
    .told (.filesChanged [projectUri]),
    .woke filesAfter ⟨2, 500⟩,
    .woke filesAfter ⟨3, 500⟩
  ]

theorem scanned_projectFiles :
    (projectServer.onDisk filesBefore).scanned =
        [(projectUri.render, "create function f() as 'x';".toList)] ∧
      (projectServer.onDisk filesAfter).scanned =
        [(projectUri.render, "create function h() as 'x';".toList)] := by
  decide +kernel

/-- A scan sees a change of the one file and of nothing else. -/
theorem sameOnDisk_projectFiles
    {uri : Text}
    (apart : uri ≠ projectUri.render) :
    projectServer.SameOnDisk [.told .ready] filesBefore filesAfter uri := by
  constructor
  · rw [DocumentSource.scannedText?, DocumentSource.scannedText?, scanned_projectFiles.1,
      scanned_projectFiles.2, List.reverse_singleton, List.reverse_singleton,
      lookup_cons_of_ne apart, lookup_cons_of_ne apart]
  · rintro ⟨notification, isTold, asked⟩
    cases List.mem_singleton.mp isTold
    cases List.mem_singleton.mp asked

theorem regular_changeRun : Regular projectServer changeRun filesAfter where
  started := ⟨_, _, _, rfl⟩
  enabled := by decide +kernel
  ordinary := by
    intro notification isTold
    simp only [changeRun, List.mem_cons, ServerEvent.told.injEq, reduceCtorEq, List.not_mem_nil,
      or_false, false_or] at isTold
    rcases isTold with rfl | rfl | rfl
    · exact True.intro
    · change Uri.IsNormal _
      decide +kernel
    · change ∀ uri ∈ [projectUri], uri.IsNormal
      decide +kernel
  announced := by
    intro past seen sleeper coming split uri
    simp only [changeRun, List.cons_eq_append_iff, List.cons.injEq, reduceCtorEq,
      ServerEvent.woke.injEq, false_and, and_false, false_or, List.nil_eq,
      List.append_eq_nil_iff, exists_const, or_false] at split
    obtain ⟨_, rfl, ⟨rfl, ⟨rfl, -⟩, rfl⟩ | ⟨_, -, _, -, _, -, last⟩⟩ := split
    · by_cases here : uri = projectUri.render
      · subst here
        exact .inr ⟨.filesChanged [projectUri], by simp, by decide +kernel⟩
      · exact .inl (sameOnDisk_projectFiles here)
    · have isAfter : seen = filesAfter := by
        rcases last with ⟨-, ⟨same, -⟩, -⟩ | ⟨_, -, -, ⟨same, -⟩, -⟩
        · exact same
        · exact same
      subst isAfter
      exact .inl ⟨rfl, fun _ => rfl⟩

theorem Regular.index_eq_scan_iff_changeRun :
    (projectServer.after changeRun).index.files.lookup projectUri.render =
        some (Summary.ofText projectUri.render "create function h() as 'x';".toList) ∧
      ∀ uri, (projectServer.after changeRun).index.files.lookup uri =
        (RoutineIndex.ofSource
          ((projectServer.after changeRun).source filesAfter)).files.lookup uri := by
  have converged :=
    regular_changeRun.index_eq_scan_iff (by decide +kernel) (by decide +kernel)
  refine ⟨?_, converged.2.mpr (by decide +kernel)⟩
  rw [converged.1]
  decide +kernel

/-- A change of the file that the settings leave out is announced. -/
def vendoredRun : List ServerEvent :=
  [
    .told .ready,
    .woke filesAfter ⟨1, 500⟩,
    .told (.filesChanged [vendoredUri]),
    .woke filesAfter ⟨2, 500⟩
  ]

theorem regular_vendoredRun : Regular projectServer vendoredRun filesAfter where
  started := ⟨_, _, _, rfl⟩
  enabled := by decide +kernel
  ordinary := by
    intro notification isTold
    simp only [vendoredRun, List.mem_cons, ServerEvent.told.injEq, reduceCtorEq, List.not_mem_nil,
      or_false, false_or] at isTold
    rcases isTold with rfl | rfl
    · exact True.intro
    · change ∀ uri ∈ [vendoredUri], uri.IsNormal
      decide +kernel
  announced := by
    intro past seen sleeper coming split uri
    have isSeen : .woke seen sleeper ∈ vendoredRun := by
      rw [split]
      exact List.mem_append_right _ List.mem_cons_self
    have isAfter : seen = filesAfter := by
      simp only [vendoredRun, List.mem_cons, ServerEvent.woke.injEq, reduceCtorEq,
        List.not_mem_nil, or_false, false_or] at isSeen
      exact isSeen.elim (·.1) (·.1)
    subst isAfter
    exact .inl ⟨rfl, fun _ => rfl⟩

/-- The index then holds a document that no scan finds. -/
theorem index_ne_scan_vendoredRun :
    Regular projectServer vendoredRun filesAfter ∧
      (projectServer.after vendoredRun).queue.sleepers = [] ∧
      (projectServer.after vendoredRun).index.ready = true ∧
      ¬ ∀ uri, (projectServer.after vendoredRun).index.files.lookup uri =
        (RoutineIndex.ofSource
          ((projectServer.after vendoredRun).source filesAfter)).files.lookup uri := by
  refine ⟨regular_vendoredRun, by decide +kernel, by decide +kernel, ?_⟩
  intro agrees
  have same := congrArg Option.isSome (agrees vendoredUri.render)
  revert same
  decide +kernel

end Server

end RoutineServer
