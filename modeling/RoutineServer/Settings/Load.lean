import RoutineServer.Files.Tree
import RoutineServer.Settings.Basic

namespace RoutineServer

/-!
# Finding the settings

Settings come from the file that was asked for, or else from the file at the
root of the workspace, or else from the user's own file. The first of them that
is there counts; if it cannot be used, the defaults do.
-/

namespace Settings

/-- The name of the file with settings at the root of a workspace. -/
def rootFileName : Text :=
  ".pgsql-lsp.toml".toList

/-- Whether a written path leads to a file. -/
def isFile (files : FileTree) (path : WrittenPath) : Bool :=
  match files.resolve path with
  | .ok (_, .file _) => true
  | _ => false

/-- The file with the settings; one that was asked for need not be there. -/
def locate? (files : FileTree) (explicit root user : Option WrittenPath) : Option WrittenPath :=
  explicit.or
    (((root.map (· ++ [Text.utf8 rootFileName])).filter (isFile files)).or
      (user.filter (isFile files)))

/-- The settings that apply. -/
def load (files : FileTree) (explicit root user : Option WrittenPath) : Settings :=
  match locate? files explicit root user with
  | none => default
  | some path =>
      match files.readText path with
      | .ok text => (parse? text).getD default
      | .error _ => default

end Settings

end RoutineServer
