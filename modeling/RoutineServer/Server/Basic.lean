import RoutineServer.Command.Basic
import RoutineServer.Index.Refresh
import RoutineServer.Service.Completion
import RoutineServer.Settings.Load
import RoutineServer.Workspace

namespace RoutineServer

/-!
# The server

The server remembers the open documents, its settings and an index of all
routines. The index is refreshed some time after a change; until it has been
built once, requests read the documents themselves.
-/

/-- How far the conversation with the client has come. -/
inductive Phase where
  | waiting
  | running
  | stopped
  | exited
  deriving Repr, DecidableEq

/-- The machine that a server runs on: its files, and where settings may lie. -/
structure Host where
  files : FileTree
  /-- The file with settings that was asked for. -/
  explicitSettings : Option WrittenPath
  /-- The user's own file with settings. -/
  userSettings : Option WrittenPath

/-- A running server. -/
structure Server where
  phase : Phase
  settings : Settings
  root : Option WrittenPath
  /-- The texts of open documents under their URIs. -/
  opened : List (Text × Text)
  index : RoutineIndex
  queue : RefreshQueue
  /-- The time in milliseconds. -/
  now : Nat
  deriving Repr, DecidableEq

namespace Server

/-- A server that nobody has talked to. -/
def fresh : Server :=
  ⟨.waiting, .default, none, [], .empty, .empty, 0⟩

/-- The text of an open document. -/
def text? (server : Server) (uri : Text) : Option Text :=
  server.opened.lookup uri

/-- Remember the text of an open document. -/
def remember (server : Server) (uri text : Text) : Server :=
  { server with opened := server.opened.filter (·.1 != uri) ++ [(uri, text)] }

/-- Forget an open document. -/
def forget (server : Server) (uri : Text) : Server :=
  { server with opened := server.opened.filter (·.1 != uri) }

/-- The workspace at this moment. -/
def workspace (server : Server) (files : FileTree) : Workspace :=
  ⟨files, server.root, server.settings.workspace, server.opened⟩

/-- The documents of the workspace at this moment. -/
def source (server : Server) (files : FileTree) : DocumentSource :=
  (server.workspace files).source

/-- Settle on a root, and on the settings that apply there. -/
def settle (server : Server) (host : Host) (root : Option WrittenPath) : Server :=
  { server with
    settings := .load host.files host.explicitSettings root host.userSettings
    root := root }

/-- Schedule a refresh of the index, if it is kept at all. -/
def schedule (server : Server) (request : RefreshRequest) : Server :=
  if server.settings.cache.enabled then
    { server with
      queue := server.queue.schedule request (server.now + server.settings.cache.debounceMs) }
  else
    server

/-- Schedule a refresh of one document. -/
def scheduleDocument (server : Server) (uri : Uri) : Server :=
  server.schedule (.document uri.render)

/-- Wake a sleeper, and let it do its work. -/
def wake (files : FileTree) (server : Server) (sleeper : Sleeper) : Server :=
  match server.queue.wake sleeper with
  | (queue, none) => { server with queue := queue }
  | (queue, some work) =>
      { server with queue := queue, index := server.index.refresh (server.source files) work }

/-- Let time pass, and wake the sleepers that are due. -/
def elapse (server : Server) (files : FileTree) (milliseconds : Nat) : Server :=
  let now := server.now + milliseconds
  (server.queue.dueAt now).foldl (wake files) { server with now := now }

/-- Build the index from all documents right now. -/
def rebuildIndex (server : Server) (files : FileTree) : Server :=
  { server with index := .ofSource (server.source files) }

/-- The routine that a name stands for, if the index has been built. -/
def indexed? (server : Server) (name : Text) : Option Summary :=
  if server.index.ready then server.index.lookup? name else none

/-- The routines of other documents: as the index knows them, or else as they are read now. -/
def routinesElsewhere (server : Server) (files : FileTree) (uri : Uri) : List Summary :=
  if server.index.ready then Completion.indexed server.index uri
  else Completion.scanned (server.source files) uri

/-- The completion list of a document. -/
def completionItems (server : Server) (files : FileTree) (uri : Uri) (text : Text) :
    List CompletionItem :=
  Completion.items server.settings.keywords uri text (server.routinesElsewhere files uri)

/-- The changes that a command asks for. -/
def commandChanges (server : Server) (files : FileTree) (name : Text) (arguments : List Json) :
    Except CommandError Changes :=
  Command.changes (server.source files) name arguments

end Server

end RoutineServer
