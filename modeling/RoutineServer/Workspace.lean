import RoutineServer.Files.Walk

namespace RoutineServer

/-!
# Workspaces

A workspace is what a request sees: the files on disk below the root, and the
documents that are open in the editor, whose texts win over those on disk.
-/

/-- The files and the open documents at one moment. -/
structure Workspace where
  files : FileTree
  root : Option WrittenPath
  settings : WorkspaceSettings
  /-- The texts of open documents under their URIs. -/
  opened : List (Text × Text)

namespace Workspace

/-- The files of the workspace. A root that is a file is the only one. -/
def sqlFiles (workspace : Workspace) : List Path :=
  match workspace.root with
  | none => []
  | some root =>
      match workspace.files.resolve root with
      | .ok (path, .directory) => Walk.files workspace.files workspace.settings path
      | .ok (path, .file _) => [path]
      | .error _ => []

/-- The URIs of the files of the workspace. -/
def fileUris (workspace : Workspace) : List Uri :=
  workspace.sqlFiles.map Uri.ofFilePath

/-- The open documents that are not among the files, in the order of their URIs. -/
def extraUris (workspace : Workspace) : List Uri :=
  let known := workspace.fileUris.map Uri.render
  let extra := (workspace.opened.filter (!known.contains ·.1)).filterMap (Uri.parse? ·.1)
  extra.mergeSort fun left right => Text.atMost left.render right.render

/-- The text of a document: as it is open in the editor, or else as it is on disk. -/
def read (workspace : Workspace) (uri : Uri) : Except OpenError Text :=
  match workspace.opened.lookup uri.render with
  | some text => .ok text
  | none =>
      match uri.filePath? with
      | some path => workspace.files.readText path
      | none => .error .invalidInput

/-- The documents that take part in requests across the workspace. -/
def source (workspace : Workspace) : DocumentSource where
  candidates := workspace.fileUris ++ workspace.extraUris
  read := workspace.read

end Workspace

end RoutineServer
