import RoutineServer.Json.Reader
import RoutineServer.Json.Writer
import RoutineServer.Server.Connection

namespace RoutineServer

/-!
# The program

The server talks over standard input and output. Each message is a text with
its length in front. Before a message is taken, the files that it may be about
are read from disk; time passes between messages.
-/

namespace Main

/-- What the program was started with. -/
structure Options where
  /-- The file with settings that was asked for. -/
  settings : Option String
  deriving Repr, DecidableEq

/-- What the command line asks for. -/
inductive Invocation where
  | serve (options : Options)
  | help
  | version
  | refused (argument : String)
  deriving Repr, DecidableEq

/-- Read the command line. -/
def readArguments : Options → List String → Invocation
  | options, [] => .serve options
  | options, argument :: rest =>
      if argument == "--help" || argument == "-h" then .help
      else if argument == "--version" || argument == "-V" then .version
      else if argument.startsWith "--config=" then
        readArguments { options with settings := some ((argument.drop 9).toString) } rest
      else if argument.startsWith "--log-level=" then
        readArguments options rest
      else if argument == "--config" || argument == "--log-level" then
        match rest with
        | [] => .refused argument
        | value :: rest =>
            let settings := if argument == "--config" then some value else options.settings
            readArguments { options with settings := settings } rest
      else
        .refused argument

/-- The text that explains the command line. -/
def usage : String :=
  "Language server for PostgreSQL functions and procedures\n\n" ++
  "Usage: pgsql-lsp [OPTIONS]\n\n" ++
  "Options:\n" ++
  "      --log-level <LOG_LEVEL>  Accepted and ignored: nothing is logged\n" ++
  "      --config <CONFIG>        Configuration file, overriding the workspace and user config files\n" ++
  "  -h, --help                   Print help\n" ++
  "  -V, --version                Print version"

/-- A path from the root, given one that may start at the current directory. -/
def absolute (path : String) : IO String := do
  if path.startsWith "/" then return path
  else return (← IO.currentDir).toString ++ "/" ++ path

/-- The segments of a path on disk. -/
def writtenPath (path : String) : WrittenPath :=
  ((path.splitOn "/").filter (· != "")).map (Text.utf8 ·.toList)

/-- A path on disk. -/
def diskPath (path : Path) : String :=
  "/" ++ String.intercalate "/" (path.map String.ofList)

/-- The names of a written path, if they are text. -/
def names? (path : WrittenPath) : Option Path :=
  (path.filter (!·.isEmpty)).mapM Text.ofUtf8?

/-- Read one file from disk, if it is there. -/
def loadFile (tree : FileTree) (path : Path) : IO FileTree := do
  try
    let content ← IO.FS.readBinFile (diskPath path)
    return tree.writeFile path content.toList
  catch _ =>
    return tree

/-- Read what a directory says about ignored files. -/
def loadIgnoreFiles (tree : FileTree) (directory : Path) : IO FileTree := do
  let mut tree := tree
  for file in [".ignore", ".gitignore", ".git/info/exclude"] do
    tree ← loadFile tree (directory ++ (file.splitOn "/").map String.toList)
  let repository : IO.FS.DirEntry := ⟨diskPath directory, ".git"⟩
  if ← repository.path.pathExists then
    tree := tree.putDirectory (directory ++ [".git".toList])
  return tree

/-- Read the files of a directory and of those below it that are not left out. -/
partial def loadDirectory
    (rules : List IgnoreRule)
    (root : Path)
    (tree : FileTree)
    (directory : Path) :
    IO FileTree := do
  let here : IO.FS.DirEntry := ⟨diskPath directory, "."⟩
  let mut tree ← loadIgnoreFiles (tree.putDirectories directory) directory
  for entry in ← here.path.readDir do
    let path := directory ++ [entry.fileName.toList]
    match (← entry.path.symlinkMetadata).type with
    | .dir =>
        unless Walk.isLeftOut tree rules root path true do
          tree ← loadDirectory rules root tree path
    | .file =>
        unless Walk.isLeftOut tree rules root path false do
          tree ← loadFile tree path
    | _ => pure ()
  return tree

/-- Read a workspace from disk. -/
def loadWorkspace (server : Server) (tree : FileTree) : IO FileTree := do
  match server.root.bind names? with
  | none => return tree
  | some root =>
      let mut tree := tree
      for directory in Walk.directoriesAbove root do
        tree ← loadIgnoreFiles (tree.putDirectories directory) directory
      try
        loadDirectory (Walk.chosen server.settings.workspace) root tree root
      catch _ =>
        loadFile tree root

/-- The files that texts name. -/
def namedFiles (texts : List Text) : List Path :=
  texts.filterMap fun text => ((Uri.parse? text).bind Uri.filePath?).bind names?

/-- Where the user keeps settings. -/
def userSettings? : IO (Option WrittenPath) := do
  let below (directory : String) : Option WrittenPath :=
    some (writtenPath (directory ++ "/pgsql-lsp/config.toml"))
  match ← IO.getEnv "XDG_CONFIG_HOME", ← IO.getEnv "HOME" with
  | some directory, home =>
      if directory.startsWith "/" then return below directory
      else return home.bind fun home => below (home ++ "/.config")
  | none, some home => return below (home ++ "/.config")
  | none, none => return none

/-- Read what a message may be about: settings, the workspace, and the files it names. -/
def loadHost (options : Options) (server : Server) (message : Json) : IO Host := do
  let explicit := (← options.settings.mapM absolute).map writtenPath
  let user ← userSettings?
  let named := namedFiles (message.texts ++ server.queue.pending.documents)
  let folders := named.map (· ++ [Settings.rootFileName])
  let mut tree ← loadWorkspace server .empty
  for path in named ++ folders ++ (explicit.toList ++ user.toList).filterMap names? do
    tree ← loadFile tree path
  return ⟨tree, explicit, user⟩

/-- The length that the lines in front of a message tell; `none` at the end of the input. -/
partial def readLength (input : IO.FS.Stream) (length : Nat) : IO (Option Nat) := do
  let line ← input.getLine
  if line.isEmpty then
    return none
  else if line.trimAscii.isEmpty then
    return some length
  else
    match line.splitOn ":" with
    | [name, value] =>
        let isLength := name.trimAscii.toString.toLower == "content-length"
        readLength input (if isLength then value.trimAscii.toString.toNat?.getD length else length)
    | _ => readLength input length

/-- Read so many bytes. -/
partial def readBytes (input : IO.FS.Stream) (length : Nat) (read : ByteArray) : IO ByteArray := do
  if length ≤ read.size then
    return read
  let more ← input.read (length - read.size).toUSize
  if more.isEmpty then return read else readBytes input length (read ++ more)

/-- Write a message with its length in front. -/
def write (output : IO.FS.Stream) (message : Json) : IO Unit := do
  let body := (String.ofList message.render).toUTF8
  output.write s!"Content-Length: {body.size}\r\n\r\n".toUTF8
  output.write body
  output.flush

/-- Take messages until the client leaves. -/
partial def serve
    (options : Options)
    (input output : IO.FS.Stream)
    (connection : Connection) :
    IO Unit := do
  let some length ← readLength input 0 | return
  let body ← readBytes input length .empty
  match (Text.ofUtf8? body.toList).bind Json.parse? with
  | none => serve options input output connection
  | some message =>
      let host ← loadHost options connection.server message
      let now ← IO.monoMsNow
      let server := connection.server.elapse host.files (now - connection.server.now)
      let (connection, messages) := { connection with server := server }.receive host message
      messages.forM (write output)
      unless connection.server.phase == .exited do
        serve options input output connection

end Main

end RoutineServer

open RoutineServer in
/-- Run the server, or explain the command line. -/
def main (arguments : List String) : IO UInt32 := do
  match Main.readArguments ⟨none⟩ arguments with
  | .help =>
      IO.println Main.usage
      return 0
  | .version =>
      IO.println "pgsql-lsp 0.3.0"
      return 0
  | .refused argument =>
      IO.eprintln s!"error: unexpected argument '{argument}' found"
      return 2
  | .serve options =>
      Main.serve options (← IO.getStdin) (← IO.getStdout) .fresh
      return 0
