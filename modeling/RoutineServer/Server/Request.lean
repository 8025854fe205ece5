import RoutineServer.Server.Basic
import RoutineServer.Server.Message

namespace RoutineServer

/-!
# What clients ask the server

A request about a document is answered from the text that is open in the
editor; a document that is not open has no answer.
-/

namespace Server

/-- The root of a workspace: its first folder, or else its root, if that is a directory path. -/
def rootOf? (folders : List Uri) (root : Option Uri) : Option WrittenPath :=
  (folders.head?.or root).bind Uri.filePath?

/-- Answer a request about an open document. -/
def aboutDocument (server : Server) (uri : Uri) (answer : Text → Reply) : Reply :=
  match server.text? uri.render with
  | some text => answer text
  | none => .answered .nothing

/-- An answer, or nothing. -/
def found (answer : α → Answer) : Option α → Reply
  | some value => .answered (answer value)
  | none => .answered .nothing

/-- An answer of the rename feature, or its error. -/
def renamed (answer : α → Answer) : Except RenameError α → Reply
  | .ok value => .answered (answer value)
  | .error error => .failed (.rename error)

/-- Whether nothing is offered at a position. -/
def isQuiet (text : Text) (position : Position) : Bool :=
  (Text.offsetOf? text position).any (Completion.isSuppressed text)

/-- The completion list at a place. An index that has not been built is scheduled to be. -/
def complete (server : Server) (files : FileTree) (place : Place) : Server × Reply :=
  match server.text? place.uri.render with
  | none => (server, .answered .nothing)
  | some text =>
      if isQuiet text place.position then
        (server, .answered .nothing)
      else
        let reply := .answered (.completion (server.completionItems files place.uri text))
        (if server.index.ready then server else server.schedule .everything, reply)

/-- Answer a request while running. -/
def answer (server : Server) (files : FileTree) : Request → Server × Reply
  | .start _ _ => (server, .failed .invalidRequest)
  | .stop => ({ server with phase := .stopped }, .answered .nothing)
  | .outline uri =>
      (server, server.aboutDocument uri fun text => .answered (.outline (Navigation.outline text)))
  | .hover place =>
      (server, server.aboutDocument place.uri fun text =>
        found .hover (Hover.answer? (server.source files) place.uri text place.position))
  | .definition place =>
      (server, server.aboutDocument place.uri fun text =>
        found .location
          (Navigation.definition? (server.source files) place.uri text place.position))
  | .references place includeDeclaration =>
      (server, server.aboutDocument place.uri fun text =>
        let locations := Navigation.references (server.source files) place.uri text place.position
          includeDeclaration
        .answered (if locations.isEmpty then .nothing else .locations locations))
  | .prepareRename place =>
      (server, server.aboutDocument place.uri fun text =>
        renamed .placeholder (Rename.prepare text place.position))
  | .rename place newName =>
      (server, server.aboutDocument place.uri fun text =>
        renamed (.changes ·.changes)
          (Rename.rename (server.source files) place.uri text place.position newName))
  | .completion place => server.complete files place
  | .signature place =>
      (server, server.aboutDocument place.uri fun text =>
        found .signature (Signature.answer? (server.source files) place.uri text place.position))
  | .command name arguments =>
      match server.commandChanges files name arguments with
      | .ok changes => (server, .ask changes)
      | .error error => (server, .failed (.command error))
  | .malformed => (server, .failed .invalidParameters)
  | .unsupported => (server, .failed .methodNotFound)
  | .unknown => (server, .failed .methodNotFound)

/--
Settle a request. Before the first one no other is answered, and after the last
one none at all; a method that the protocol does not know is refused at any time.
-/
def request (server : Server) (host : Host) (request : Request) : Server × Reply :=
  match server.phase, request with
  | .exited, _ => (server, .gone)
  | _, .unknown => (server, .failed .methodNotFound)
  | .waiting, .start folders root =>
      ({ server.settle host (rootOf? folders root) with phase := .running }, .answered .started)
  | .waiting, _ => (server, .failed .notStarted)
  | .running, request => server.answer host.files request
  | .stopped, _ => (server, .failed .invalidRequest)

end Server

end RoutineServer
