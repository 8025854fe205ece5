import RoutineServer.Server.Basic
import RoutineServer.Server.Message

namespace RoutineServer

/-!
# What clients tell the server

Open documents are remembered with their texts, and each change schedules a
refresh of the index. Notifications count only while the server is running,
except for the last one.
-/

namespace Server

/-- What is logged when the client is ready. -/
def readyMessage (server : Server) : Text :=
  match server.root with
  | some root => "pgsql-lsp initialized for ".toList ++ root.shown
  | none => "pgsql-lsp initialized!".toList

/-- Take note of what a running server is told. -/
def observe (server : Server) : Notification → Server × List ClientMessage
  | .ready => (server.schedule .everything, [.watchFiles, .log server.readyMessage])
  | .opened uri text =>
      ((server.remember uri.render text).scheduleDocument uri,
        [.log ("Opened file: ".toList ++ uri.render)])
  | .changed uri texts =>
      match texts.getLast? with
      | some text => ((server.remember uri.render text).scheduleDocument uri, [])
      | none => (server, [])
  | .closed uri =>
      ((server.forget uri.render).scheduleDocument uri,
        [.log ("Closed file: ".toList ++ uri.render)])
  | .filesChanged uris => (uris.foldl scheduleDocument server, [])
  | .stopped => ({ server with phase := .stopped }, [])
  | .exited => ({ server with phase := .exited }, [])
  | .other => (server, [])

/-- Take note of a notification, if this is the time for it. -/
def notify (server : Server) (notification : Notification) : Server × List ClientMessage :=
  if server.phase == .running || notification == .exited then server.observe notification
  else (server, [])

end Server

end RoutineServer
