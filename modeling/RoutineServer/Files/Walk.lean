import RoutineServer.Files.Ignore
import RoutineServer.Files.Tree
import RoutineServer.Settings.Basic
import RoutineServer.Text.Order

namespace RoutineServer

/-!
# Walking a directory

The files of a workspace are those below its root that nothing leaves out. The
globs of the settings decide first. Where they say nothing, the ignore files of
the directories above decide, the nearest one first, and hidden names are left
out unless an ignore file keeps them. What is in a directory that is left out is
left out too.
-/

namespace Walk

/-- The bytes of a path with slashes between the names. -/
def joined : Path → List UInt8
  | [] => []
  | [name] => Text.utf8 name
  | name :: rest => Text.utf8 name ++ Glob.slash :: joined rest

/-- The rules that settings stand for: each glob to include, then each one to exclude, negated. -/
def chosen (settings : WorkspaceSettings) : List IgnoreRule :=
  (settings.included ++ settings.excluded.map ('!' :: ·)).filterMap (IgnoreRule.ofLine? false)

/--
What the globs of the settings say about a path below the root. If there are
globs to include, a file that matches no glob is left out.
-/
def chosenVerdict? (rules : List IgnoreRule) (path : Path) (isDirectory : Bool) : Option Verdict :=
  match IgnoreRule.lastMatch? rules (joined path) isDirectory with
  | some rule => some (if rule.negated then .ignore else .keep)
  | none => if rules.any (!·.negated) && !isDirectory then some .ignore else none

/-- The directories above a path, the nearest first. -/
def directoriesAbove (path : Path) : List Path :=
  (List.range path.length).reverse.map path.take

/-- Whether a directory is the top of a repository. -/
def isRepository (tree : FileTree) (directory : Path) : Bool :=
  (tree.node? (directory ++ [".git".toList])).isSome

/-- The directories up to the nearest top of a repository, or none if there is no such top. -/
def inRepository (tree : FileTree) (directories : List Path) : List Path :=
  if directories.any (isRepository tree) then
    let inside := directories.takeWhile (!isRepository tree ·)
    directories.take (inside.length + 1)
  else
    []

/-- What the nearest ignore file of a kind that knows a path says about it. -/
def fileVerdict?
    (tree : FileTree)
    (file : Path)
    (directories : List Path)
    (path : Path)
    (isDirectory : Bool) :
    Option Verdict :=
  directories.findSome? fun directory => do
    let content ← tree.content? (directory ++ file)
    IgnoreRule.verdict? (IgnoreRule.ofFile content) (joined (path.drop directory.length)) isDirectory

/-- What the ignore files say about a path; those of a repository count only inside one. -/
def ignoreVerdict? (tree : FileTree) (path : Path) (isDirectory : Bool) : Option Verdict :=
  let above := directoriesAbove path
  let inside := inRepository tree above
  (fileVerdict? tree [".ignore".toList] above path isDirectory).or
    ((fileVerdict? tree [".gitignore".toList] inside path isDirectory).or
      (fileVerdict? tree [".git".toList, "info".toList, "exclude".toList] inside path isDirectory))

/-- Whether a path has a hidden name. -/
def isHidden (path : Path) : Bool :=
  path.getLast?.any (·.head? == some '.')

/-- Whether a path below the root is left out for its own sake. -/
def isLeftOut
    (tree : FileTree)
    (rules : List IgnoreRule)
    (root path : Path)
    (isDirectory : Bool) :
    Bool :=
  match (chosenVerdict? rules (path.drop root.length) isDirectory).or
      (ignoreVerdict? tree path isDirectory) with
  | some verdict => verdict == .ignore
  | none => isHidden path

/-- Whether neither a file below the root nor a directory on the way to it is left out. -/
def isReached (tree : FileTree) (rules : List IgnoreRule) (root path : Path) : Bool :=
  (List.range path.length).all fun count =>
    count < root.length ||
      !isLeftOut tree rules root (path.take (count + 1)) (count + 1 < path.length)

/-- The files below a directory that are not left out, in the order of their names. -/
def files (tree : FileTree) (settings : WorkspaceSettings) (root : Path) : List Path :=
  let rules := chosen settings
  let reached := tree.filePaths.filter fun path =>
    root.isPrefixOf path && root.length < path.length && isReached tree rules root path
  reached.mergeSort Text.listAtMost

end Walk

end RoutineServer
