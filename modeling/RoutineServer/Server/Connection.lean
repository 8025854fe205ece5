import RoutineServer.Server.Decode
import RoutineServer.Server.Encode
import RoutineServer.Server.Notification
import RoutineServer.Server.Request

namespace RoutineServer

/-!
# Connections

A connection carries messages in both directions. Requests and their answers
are tied together by identifiers. A command that changes documents is answered
only when the client has said whether it made the changes.
-/

/-- A connection with a client. -/
structure Connection where
  server : Server
  /-- The identifier of the next request to the client. -/
  nextId : Nat
  /-- The requests to make changes, each with the client's request that waits for it. -/
  asked : List (Nat × Json)

namespace Connection

/-- A connection on which nothing has been said. -/
def fresh : Connection :=
  ⟨.fresh, 0, []⟩

/-- A message with the entries that all messages have. -/
def message (entries : List (String × Json)) : Json :=
  .record (("jsonrpc", .literal "2.0") :: entries)

/-- An answer to a request of the client. -/
def result (id : Json) (answer : Answer) : Json :=
  message [("result", answer.toJson), ("id", id)]

/-- The failure of a request of the client. -/
def failure (id : Json) (error : RequestError) : Json :=
  message [("error", error.toJson), ("id", id)]

/-- A request to the client. -/
def ask (connection : Connection) (method : String) (parameters : Json) : Connection × Json :=
  ({ connection with nextId := connection.nextId + 1 },
    message [("method", .literal method), ("params", parameters), ("id", .nat connection.nextId)])

/-- Settle a request of the client. -/
def onRequest
    (connection : Connection)
    (host : Host)
    (id : Json)
    (request : Request) :
    Connection × List Json :=
  let (server, reply) := connection.server.request host request
  let connection := { connection with server := server }
  match reply with
  | .answered answer => (connection, [result id answer])
  | .failed error => (connection, [failure id error])
  | .gone => (connection, [])
  | .ask changes =>
      let waiting := (connection.nextId, id) :: connection.asked
      let (connection, request) :=
        connection.ask Server.applyMethod (Server.applyParameters changes)
      ({ connection with asked := waiting }, [request])

/-- Send messages of the server. -/
def send : Connection → List ClientMessage → Connection × List Json
  | connection, [] => (connection, [])
  | connection, next :: rest =>
      let (connection, sent) :=
        match next with
        | .log _ =>
            (connection,
              message [("method", .literal next.method), ("params", next.parameters)])
        | .watchFiles => connection.ask next.method next.parameters
      let (connection, others) := connection.send rest
      (connection, sent :: others)

/-- Take note of what the client tells. -/
def onNotification (connection : Connection) (notification : Notification) :
    Connection × List Json :=
  let (server, messages) := connection.server.notify notification
  { connection with server := server }.send messages

/-- Take an answer of the client; the request that waited for it can be answered now. -/
def onAnswer (connection : Connection) (id : Nat) (answer : Json) : Connection × List Json :=
  match connection.asked.lookup id with
  | none => (connection, [])
  | some waiting =>
      let applied := ((answer.get? "result").map Server.readApplied).getD false
      ({ connection with asked := connection.asked.filter (·.1 != id) },
        [result waiting (.applied applied)])

/-- Take a message of the client: a request, a notification or an answer. -/
def receive (connection : Connection) (host : Host) (received : Json) : Connection × List Json :=
  let parameters := (received.get? "params").getD .null
  match (received.get? "method").bind Json.text?, received.present? "id" with
  | some method, some id =>
      connection.onRequest host id (Server.readRequest (String.ofList method) parameters)
  | some method, none =>
      connection.onNotification (Server.readNotification (String.ofList method) parameters)
  | none, some (.integer id) => connection.onAnswer id.toNat received
  | none, _ => (connection, [])

end Connection

end RoutineServer
