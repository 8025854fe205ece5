import RoutineServer.Service.Documents
import RoutineServer.Text.Utf8

namespace RoutineServer

/-!
# Files

A file tree holds the files and directories below the root of a file system.
Paths inside the tree are lists of names. A path that comes from outside is a
list of segments, which are bytes and may be empty, and has to be resolved.
-/

/-- The names on the way from the root to a file or a directory. -/
abbrev Path := List Text

/-- The segments between the slashes of a written path. -/
abbrev WrittenPath := List (List UInt8)

/-- A path as users see it. -/
def WrittenPath.shown (path : WrittenPath) : Text :=
  path.flatMap fun segment => '/' :: Text.ofUtf8Shown segment

/-- What a path leads to. -/
inductive Node where
  | file (content : List UInt8)
  | directory
  deriving Repr, DecidableEq

/-- Files and directories, one at a path. The root itself is not listed. -/
structure FileTree where
  nodes : List (Path × Node)
  distinct : (nodes.map (·.1)).Nodup

namespace FileTree

/-- No files and no directories. -/
def empty : FileTree :=
  ⟨[], .nil⟩

/-- What a path leads to, if it leads anywhere. -/
def node? (tree : FileTree) (path : Path) : Option Node :=
  if path.isEmpty then some .directory else tree.nodes.lookup path

/-- Whether a path leads to a file. -/
def isFile (tree : FileTree) (path : Path) : Bool :=
  match tree.node? path with
  | some (.file _) => true
  | _ => false

/-- The content of the file at a path. -/
def content? (tree : FileTree) (path : Path) : Option (List UInt8) :=
  match tree.node? path with
  | some (.file content) => some content
  | _ => none

/-- The paths of all files. -/
def filePaths (tree : FileTree) : List Path :=
  tree.nodes.filterMap fun
    | (path, .file _) => some path
    | (_, .directory) => none

/-- Take away what a path leads to. -/
def remove (tree : FileTree) (path : Path) : FileTree where
  nodes := tree.nodes.filter (·.1 != path)
  distinct := tree.distinct.sublist ((List.filter_sublist).map _)

/-- No node is left at a path that was taken away. -/
theorem not_mem_remove (tree : FileTree) (path : Path) :
    path ∉ (tree.remove path).nodes.map (·.1) := by
  simp [remove]

/-- Put a file or a directory at a path. -/
def put (tree : FileTree) (path : Path) (node : Node) : FileTree where
  nodes := (tree.remove path).nodes ++ [(path, node)]
  distinct := by
    have absent := tree.not_mem_remove path
    have distinct := (tree.remove path).distinct
    rw [List.map_append, List.nodup_append]
    refine ⟨distinct, by simp, ?_⟩
    intro left leftMember right rightMember same
    simp at rightMember
    subst rightMember
    subst same
    exact absent leftMember

/-- Put a directory at a path where nothing is yet. -/
def putDirectory (tree : FileTree) (path : Path) : FileTree :=
  if (tree.node? path).isSome then tree else tree.put path .directory

/-- Put directories at all places on the way to a path, the path included. -/
def putDirectories (tree : FileTree) (path : Path) : FileTree :=
  (List.range path.length).foldl (fun tree count => tree.putDirectory (path.take (count + 1))) tree

/-- Write a file, with the directories on the way to it. -/
def writeFile (tree : FileTree) (path : Path) (content : List UInt8) : FileTree :=
  (tree.putDirectories path.dropLast).put path (.file content)

/-- Delete a file, if there is one. -/
def removeFile (tree : FileTree) (path : Path) : FileTree :=
  if tree.isFile path then tree.remove path else tree

/--
Follow the segments of a written path from a place in the tree. An empty segment
and a dot stay in a directory, two dots leave it.
-/
def follow (tree : FileTree) : Path → Node → WrittenPath → Except OpenError (Path × Node)
  | path, node, [] => .ok (path, node)
  | _, .file _, _ :: _ => .error .notADirectory
  | path, .directory, segment :: rest =>
      if segment.isEmpty || segment == Text.utf8 ".".toList then
        follow tree path .directory rest
      else if segment == Text.utf8 "..".toList then
        follow tree path.dropLast .directory rest
      else
        match Text.ofUtf8? segment with
        | none => .error .notFound
        | some name =>
            match tree.node? (path ++ [name]) with
            | none => .error .notFound
            | some node => follow tree (path ++ [name]) node rest

/-- What a written path leads to. A NUL byte stands in no path. -/
def resolve (tree : FileTree) (path : WrittenPath) : Except OpenError (Path × Node) :=
  if path.any (·.contains 0) then .error .invalidInput
  else tree.follow [] .directory path

/-- The text of a file. -/
def readText (tree : FileTree) (path : WrittenPath) : Except OpenError Text :=
  match tree.resolve path with
  | .error error => .error error
  | .ok (_, .directory) => .error .isADirectory
  | .ok (_, .file content) =>
      match Text.ofUtf8? content with
      | some text => .ok text
      | none => .error .invalidData

end FileTree

end RoutineServer
