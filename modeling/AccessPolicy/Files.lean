import AccessPolicy.Error
import AccessPolicy.Table
import AccessPolicy.Text.Split

/-! # Files

The engine sees the files of its surroundings through their paths: a path leads
to a file with its content, to a directory with the names in it, or nowhere. That
is all it knows of them.

Set apart at the end are trees of directories, which the engine never looks at.
They are surroundings that can be held as a value: a session in a directory of its
own is played on one, without a disk.
-/

namespace AccessPolicy

/-- What a path leads to. -/
inductive Place where
  | file (content : List UInt8)
  | directory (names : List String)

/-- Where every path leads. -/
abbrev Files : Type :=
  String → Except FileFault Place

namespace Files

/-- Whether a name in a path leads nowhere else. -/
def isHere (name : String) : Bool :=
  name == "" || name == "."

def names (path : String) : List String :=
  (Text.splitOn '/' path.toList).map String.ofList

def read (files : Files) (path : String) : Except FileFault (List UInt8) :=
  match files path with
  | .ok (.file content) => .ok content
  | .ok (.directory _) => .error .isDirectory
  | .error fault => .error fault

def exists? (files : Files) (path : String) : Bool :=
  (files path).isOk

def isFile (files : Files) (path : String) : Bool :=
  match files path with
  | .ok (.file _) => true
  | _ => false

def join (directory name : String) : String :=
  if directory.toList.getLast? = some '/' then directory ++ name else directory ++ "/" ++ name

/-- The paths of the files in a directory, in ascending order of their names, or
`none` if the path leads to no directory. -/
def filesIn? (files : Files) (directory : String) : Option (List String) :=
  match files directory with
  | .ok (.directory names) =>
    let ordered := (Table.orderedEntries (names.map (·, ()))).map (·.1)
    some ((ordered.map (join directory)).filter files.isFile)
  | _ => none

end Files

/-! ## Surroundings held as a value

A tree stands for a directory in which a session is played. Files are written in it
and removed from it between the commands, and `FileTree.view` is what the engine
sees of it, with its root as the working directory and paths followed name by name.
Nothing that the engine does depends on trees.
-/

/-- A file, or a directory with what the names in it stand for. -/
inductive FileTree where
  | file (content : List UInt8)
  | directory (entries : List (String × FileTree))
deriving Inhabited

namespace FileTree

/-- A position reached by following a path. -/
inductive Position where
  /-- A node of the tree below its ancestors, the nearest first. -/
  | inside (ancestors : List FileTree) (node : FileTree)
  /-- A directory that the tree is somewhere below. -/
  | outside

open Files (isHere names)

/-- Follows one name of a path. -/
def Position.follow : Position → String → Except FileFault Position
  | .outside, name => if isHere name || name == ".." then .ok .outside else .error .notFound
  | .inside _ (.file _), _ => .error .notDirectory
  | .inside ancestors (.directory entries), name =>
    if isHere name then .ok (.inside ancestors (.directory entries))
    else if name = ".." then
      match ancestors with
      | [] => .ok .outside
      | parent :: earlier => .ok (.inside earlier parent)
    else
      match entries.lookup name with
      | some node => .ok (.inside (.directory entries :: ancestors) node)
      | none => .error .notFound

/-- The position that a path leads to from the root of the tree. -/
def locate (tree : FileTree) (path : String) : Except FileFault Position :=
  if path.toList.contains '\x00' then .error .invalidPath
  else if path = "" then .error .notFound
  else
    let start := if path.toList.head? = some '/' then .outside else .inside [] tree
    (names path).foldlM Position.follow start

/-- What the paths lead to when the tree is the working directory. -/
def view (tree : FileTree) : Files := fun path =>
  match tree.locate path with
  | .error fault => .error fault
  | .ok .outside => .ok (.directory [])
  | .ok (.inside _ (.file content)) => .ok (.file content)
  | .ok (.inside _ (.directory entries)) => .ok (.directory (entries.map (·.1)))

/-- Changes the node at the end of some names, making the directories on the
way. -/
def alter (change : Option FileTree → Option FileTree) : List String → FileTree → FileTree
  | [], tree => (change (some tree)).getD (.directory [])
  | [name], .directory entries =>
    match change (entries.lookup name) with
    | some node => .directory (Table.putEntry name node entries)
    | none => .directory (entries.filter (·.1 != name))
  | name :: rest, .directory entries =>
    let node := (entries.lookup name).getD (.directory [])
    .directory (Table.putEntry name (alter change rest node) entries)
  | name :: rest, .file _ =>
    .directory [(name, alter change rest (.directory []))]

def ensureDirectory (tree : FileTree) (names : List String) : FileTree :=
  tree.alter (fun node =>
    match node with
    | some (.directory entries) => some (.directory entries)
    | _ => some (.directory [])) names

/-- The names that lead down to where one more name of a path leads, given those that
lead down to where it is followed from; `none` outside of the tree. -/
def goOn : Option (List String) → String → Option (List String)
  | none, _ => none
  | some down, name =>
    if isHere name then some down
    else if name = ".." then (if down = [] then none else some down.dropLast)
    else some (down ++ [name])

/-- The names that lead down to where some names lead. -/
def down? (names : List String) : Option (List String) :=
  names.foldl goOn (some [])

/-- Follows one more name and makes the directory it leads to. -/
def makeNext (state : FileTree × Option (List String)) (name : String) :
    FileTree × Option (List String) :=
  let down := goOn state.2 name
  ((down.map state.1.ensureDirectory).getD state.1, down)

def makeAlong (tree : FileTree) (names : List String) : FileTree :=
  (names.foldl makeNext (tree, some [])).1

/-- The tree with a directory at a path, and with those on the way to it. -/
def makeDirectory (tree : FileTree) (path : String) : FileTree :=
  tree.makeAlong (names path)

/-- The tree with a file at a path, and with the directories on the way to it. -/
def write (tree : FileTree) (path : String) (content : List UInt8) : FileTree :=
  match down? (names path) with
  | some down => (tree.makeAlong (names path).dropLast).alter (fun _ => some (.file content)) down
  | none => tree

def remove (tree : FileTree) (path : String) : FileTree :=
  match tree.locate path, down? (names path) with
  | .ok (.inside _ _), some down => tree.alter (fun _ => none) down
  | _, _ => tree

end FileTree

end AccessPolicy
