import RoutineServer.Json.Decode
import RoutineServer.Server.Message

namespace RoutineServer

/-!
# Reading messages

A message is the name of a method and its parameters.
-/

namespace Server

/-- The methods of the protocol that this server does not offer. -/
def unsupportedMethods : List String :=
  [
    "textDocument/willSaveWaitUntil",
    "textDocument/declaration",
    "textDocument/typeDefinition",
    "textDocument/implementation",
    "textDocument/prepareCallHierarchy",
    "callHierarchy/incomingCalls",
    "callHierarchy/outgoingCalls",
    "textDocument/prepareTypeHierarchy",
    "typeHierarchy/supertypes",
    "typeHierarchy/subtypes",
    "textDocument/documentHighlight",
    "textDocument/documentLink",
    "documentLink/resolve",
    "textDocument/codeLens",
    "codeLens/resolve",
    "textDocument/foldingRange",
    "textDocument/selectionRange",
    "textDocument/semanticTokens/full",
    "textDocument/semanticTokens/full/delta",
    "textDocument/semanticTokens/range",
    "textDocument/inlineValue",
    "textDocument/inlayHint",
    "inlayHint/resolve",
    "textDocument/moniker",
    "completionItem/resolve",
    "textDocument/diagnostic",
    "workspace/diagnostic",
    "textDocument/codeAction",
    "codeAction/resolve",
    "textDocument/documentColor",
    "textDocument/colorPresentation",
    "textDocument/formatting",
    "textDocument/rangeFormatting",
    "textDocument/onTypeFormatting",
    "textDocument/linkedEditingRange",
    "workspace/symbol",
    "workspaceSymbol/resolve",
    "workspace/willCreateFiles",
    "workspace/willRenameFiles",
    "workspace/willDeleteFiles"
  ]

/-- The document that parameters are about. -/
def document? (parameters : Json) : Option Uri := do
  (← (← parameters.get? "textDocument").get? "uri").uri?

/-- The position in a document that parameters are about. -/
def place? (parameters : Json) : Option Place := do
  some ⟨← document? parameters, ← (← parameters.get? "position").position?⟩

/-- The parameters of the first request. -/
def startRequest? (parameters : Json) : Option Request := do
  let folder? (json : Json) : Option Uri := do (← json.get? "uri").uri?
  let folders ← Json.optional? (Json.list? folder?) (parameters.get? "workspaceFolders")
  let root ← Json.optional? Json.uri? (parameters.get? "rootUri")
  some (.start (folders.getD []) root)

/-- The parameters of a request for the places where a name is mentioned. -/
def referencesRequest? (parameters : Json) : Option Request := do
  let context ← parameters.get? "context"
  some (.references (← place? parameters) (← (← context.get? "includeDeclaration").bool?))

/-- The parameters of a request to rename something. -/
def renameRequest? (parameters : Json) : Option Request := do
  some (.rename (← place? parameters) (← (← parameters.get? "newName").text?))

/-- The parameters of a request to run a command. -/
def commandRequest? (parameters : Json) : Option Request := do
  let name ← (← parameters.get? "command").text?
  let arguments ← ((parameters.get? "arguments").getD (.array [])).list? some
  some (.command name arguments)

/-- Read a request. -/
def readRequest (method : String) (parameters : Json) : Request :=
  let about (request : Place → Request) : Option Request := (place? parameters).map request
  let known (request : Option Request) : Request := request.getD .malformed
  match method with
  | "initialize" => known (startRequest? parameters)
  | "shutdown" => .stop
  | "textDocument/documentSymbol" => known ((document? parameters).map .outline)
  | "textDocument/hover" => known (about .hover)
  | "textDocument/definition" => known (about .definition)
  | "textDocument/references" => known (referencesRequest? parameters)
  | "textDocument/prepareRename" => known (about .prepareRename)
  | "textDocument/rename" => known (renameRequest? parameters)
  | "textDocument/completion" => known (about .completion)
  | "textDocument/signatureHelp" => known (about .signature)
  | "workspace/executeCommand" => known (commandRequest? parameters)
  | other => if unsupportedMethods.contains other then .unsupported else .unknown

/-- A document that has been opened, with its text. -/
def openedDocument? (parameters : Json) : Option Notification := do
  let document ← parameters.get? "textDocument"
  some (.opened (← (← document.get? "uri").uri?) (← (← document.get? "text").text?))

/-- The changes of a document. -/
def changedDocument? (parameters : Json) : Option Notification := do
  let change? (json : Json) : Option Text := do (← json.get? "text").text?
  some (.changed (← document? parameters)
    (← (← parameters.get? "contentChanges").list? change?))

/-- The files that have changed. -/
def changedFiles? (parameters : Json) : Option Notification := do
  let change? (json : Json) : Option Uri := do (← json.get? "uri").uri?
  some (.filesChanged (← (← parameters.get? "changes").list? change?))

/-- Read a notification; one that cannot be read does nothing. -/
def readNotification (method : String) (parameters : Json) : Notification :=
  let known (notification : Option Notification) : Notification := notification.getD .other
  match method with
  | "initialized" => .ready
  | "textDocument/didOpen" => known (openedDocument? parameters)
  | "textDocument/didChange" => known (changedDocument? parameters)
  | "textDocument/didClose" => known ((document? parameters).map .closed)
  | "workspace/didChangeWatchedFiles" => known (changedFiles? parameters)
  | "shutdown" => .stopped
  | "exit" => .exited
  | _ => .other

/-- What a client says to changes that it was asked to make; no clear yes is a no. -/
def readApplied (answer : Json) : Bool :=
  let read? : Option Bool := do
    match ← answer.fields? ["applied".toList, "failureReason".toList, "failedChange".toList] with
    | [applied, reason, change] =>
        let applied ← (← applied).bool?
        let _ ← Json.optional? Json.text? reason
        let _ ← Json.optional? Json.count? change
        some applied
    | _ => none
  read?.getD false

end Server

end RoutineServer
