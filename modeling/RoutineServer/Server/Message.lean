import RoutineServer.Command.Error
import RoutineServer.Json.Basic
import RoutineServer.Service.Completion
import RoutineServer.Service.Rename
import RoutineServer.Service.Signature

namespace RoutineServer

/-!
# Messages

What the client asks and tells the server, and what the server answers and asks
in turn.
-/

/-- A position in a document. -/
structure Place where
  uri : Uri
  position : Position
  deriving Repr, DecidableEq

/-- What a client asks for. -/
inductive Request where
  /-- The first request, with the folders of the workspace and its root. -/
  | start (folders : List Uri) (root : Option Uri)
  | stop
  | outline (uri : Uri)
  | hover (place : Place)
  | definition (place : Place)
  | references (place : Place) (includeDeclaration : Bool)
  | prepareRename (place : Place)
  | rename (place : Place) (newName : Text)
  | completion (place : Place)
  | signature (place : Place)
  | command (name : Text) (arguments : List Json)
  /-- A request that cannot be read. -/
  | malformed
  /-- A method of the protocol that this server does not offer. -/
  | unsupported
  /-- A method that the protocol does not know. -/
  | unknown
  deriving Repr

/-- What a client tells. -/
inductive Notification where
  /-- The client is ready for requests of the server. -/
  | ready
  | opened (uri : Uri) (text : Text)
  /-- The whole text of a document after each of some changes. -/
  | changed (uri : Uri) (texts : List Text)
  | closed (uri : Uri)
  | filesChanged (uris : List Uri)
  /-- The request to stop, sent as a notification. -/
  | stopped
  | exited
  | other
  deriving Repr, DecidableEq

/-- What a request is answered. -/
inductive Answer where
  | started
  | nothing
  | outline (symbols : List Navigation.Symbol)
  | hover (answer : Hover.Answer)
  | location (location : Location)
  | locations (locations : List Location)
  | placeholder (placeholder : Rename.Placeholder)
  | changes (changes : Changes)
  | completion (items : List CompletionItem)
  | signature (signature : Signature)
  /-- Whether the client has made the changes of a command. -/
  | applied (applied : Bool)
  deriving Repr, DecidableEq

/-- Why a request fails. -/
inductive RequestError where
  | notStarted
  | invalidRequest
  | methodNotFound
  | invalidParameters
  | rename (error : RenameError)
  | command (error : CommandError)
  deriving Repr, DecidableEq

namespace RequestError

/-- The number of an error in the protocol. -/
def code : RequestError → Int
  | .notStarted => -32002
  | .invalidRequest => -32600
  | .methodNotFound => -32601
  | .invalidParameters => -32602
  | .rename _ => -32602
  | .command _ => -32602

/-- The text of an error. -/
def message : RequestError → Text
  | .notStarted => "Server not initialized".toList
  | .invalidRequest => "Invalid request".toList
  | .methodNotFound => "Method not found".toList
  | .invalidParameters => "Invalid params".toList
  | .rename error => error.message
  | .command error => error.message

end RequestError

/-- How a request is settled. -/
inductive Reply where
  | answered (answer : Answer)
  | failed (error : RequestError)
  /-- The client is asked to make changes; what it says is the answer. -/
  | ask (changes : Changes)
  /-- The server is gone. -/
  | gone
  deriving Repr, DecidableEq

/-- What the server tells and asks the client on its own. -/
inductive ClientMessage where
  | log (message : Text)
  /-- The request to tell about changes of files. -/
  | watchFiles
  deriving Repr, DecidableEq

end RoutineServer
