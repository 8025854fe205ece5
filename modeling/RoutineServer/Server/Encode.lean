import RoutineServer.Command.Basic
import RoutineServer.Server.Message

namespace RoutineServer

/-!
# Writing messages

The JSON form of what the server answers and asks. Missing fields are left out.
-/

namespace Position

/-- The JSON form. -/
def toJson (position : Position) : Json :=
  .record [("line", .nat position.line), ("character", .nat position.character)]

end Position

namespace Range

/-- The JSON form. -/
def toJson (range : Range) : Json :=
  .record [("start", range.start.toJson), ("end", range.stop.toJson)]

end Range

namespace Location

/-- The JSON form. -/
def toJson (location : Location) : Json :=
  .record [("uri", .string location.uri.render), ("range", location.range.toJson)]

end Location

namespace TextEdit

/-- The JSON form. -/
def toJson (edit : TextEdit) : Json :=
  .record [("range", edit.range.toJson), ("newText", .string edit.newText)]

end TextEdit

namespace Changes

/-- The JSON form: the edits of each document under its URI. -/
def toJson (changes : Changes) : Json :=
  .object (changes.map fun entry => (entry.1.render, .list TextEdit.toJson entry.2))

end Changes

namespace Json

/-- A text in Markdown. -/
def markdown (value : Text) : Json :=
  .record [("kind", .literal "markdown"), ("value", .string value)]

end Json

namespace CompletionItem

/-- The JSON form. -/
def toJson : CompletionItem → Json
  | .keyword label =>
      .record [("label", .string label), ("kind", .nat 14), ("detail", .string keywordDetail)]
  | .routine label card =>
      .record [("label", .string label), ("kind", .nat 3), ("detail", .string routineDetail),
        ("documentation", .markdown card)]

end CompletionItem

namespace Navigation.Symbol

/-- The JSON form. -/
def toJson (symbol : Symbol) : Json :=
  .record [("name", .string symbol.name), ("detail", .string symbol.kind.name), ("kind", .nat 12),
    ("range", symbol.range.toJson), ("selectionRange", symbol.selection.toJson)]

end Navigation.Symbol

namespace Hover.Answer

/-- The JSON form. -/
def toJson (answer : Hover.Answer) : Json :=
  .record [("contents", .markdown answer.card), ("range", answer.range.toJson)]

end Hover.Answer

namespace Rename.Placeholder

/-- The JSON form. -/
def toJson (placeholder : Placeholder) : Json :=
  .record [("range", placeholder.range.toJson), ("placeholder", .string placeholder.word)]

end Rename.Placeholder

namespace Signature

/-- The JSON form: the only signature, and its active parameter. -/
def toJson (signature : Signature) : Json :=
  let parameter (label : Text) : Json := .record [("label", .string label)]
  let information : Json :=
    .record [("label", .string signature.label),
      ("parameters", .list parameter signature.parameters),
      ("activeParameter", .nat signature.active)]
  .record [("signatures", .array [information]), ("activeSignature", .nat 0),
    ("activeParameter", .nat signature.active)]

end Signature

namespace Server

/-- What the server can do. -/
def capabilities : Json :=
  .record [
    ("textDocumentSync", .nat 1),
    ("documentSymbolProvider", .bool true),
    ("hoverProvider", .bool true),
    ("definitionProvider", .bool true),
    ("referencesProvider", .bool true),
    ("renameProvider", .record [("prepareProvider", .bool true)]),
    ("completionProvider", .record [("resolveProvider", .bool false)]),
    ("signatureHelpProvider",
      .record [("triggerCharacters", .array [.literal "(", .literal ","])]),
    ("executeCommandProvider", .record [("commands", .list .string Command.all)])]

/-- The answer to the first request. -/
def introduction : Json :=
  .record [("capabilities", capabilities),
    ("serverInfo", .record [("name", .literal "pgsql-lsp"), ("version", .literal "0.3.0")])]

/-- The parameters of the request to tell about changes of files. -/
def watchParameters : Json :=
  let watcher : Json := .record [("globPattern", .literal "**/*.\x7bsql,SQL\x7d")]
  .record [("registrations", .array [.record [
    ("id", .literal "pgsql-lsp-watch-sql"),
    ("method", .literal "workspace/didChangeWatchedFiles"),
    ("registerOptions", .record [("watchers", .array [watcher])])]])]

end Server

namespace Answer

/-- The JSON form. -/
def toJson : Answer → Json
  | .started => Server.introduction
  | .nothing => .null
  | .outline symbols => .list Navigation.Symbol.toJson symbols
  | .hover value => value.toJson
  | .location value => value.toJson
  | .locations values => .list Location.toJson values
  | .placeholder value => value.toJson
  | .changes value => .record [("changes", value.toJson)]
  | .completion items => .list CompletionItem.toJson items
  | .signature value => value.toJson
  | .applied value => .record [("applied", .bool value)]

end Answer

namespace RequestError

/-- The JSON form. -/
def toJson (error : RequestError) : Json :=
  .record [("code", .integer error.code), ("message", .string error.message)]

end RequestError

namespace ClientMessage

/-- The method of a message. -/
def method : ClientMessage → String
  | .log _ => "window/logMessage"
  | .watchFiles => "client/registerCapability"

/-- The parameters of a message. -/
def parameters : ClientMessage → Json
  | .log message => .record [("type", .nat 3), ("message", .string message)]
  | .watchFiles => Server.watchParameters

end ClientMessage

namespace Server

/-- The method of the request to make changes. -/
def applyMethod : String :=
  "workspace/applyEdit"

/-- The parameters of the request to make changes. -/
def applyParameters (changes : Changes) : Json :=
  .record [("edit", .record [("changes", changes.toJson)])]

end Server

end RoutineServer
