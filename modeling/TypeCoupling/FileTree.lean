import TypeCoupling.Path
import Std.Data.HashMap

/-!
# File trees

A snapshot of directories and files, and the place in it that relative paths start from. A path is
followed piece by piece: every piece but the last has to lead to a directory.
-/

namespace TypeCoupling

/-- The names from the root of a file tree down to a place. -/
abbrev Place := List String

inductive FileNode where
  | directory
  | file (content : ByteArray)

def FileNode.isDirectory : FileNode → Bool
  | directory => true
  | file _ => false

structure FileTree where
  /-- The working directory. -/
  home : Place
  nodes : Std.HashMap Place FileNode

namespace FileTree

/-- What is at a place. The root is always a directory. -/
def node? (t : FileTree) (place : Place) : Option FileNode :=
  if place.isEmpty then some .directory else t.nodes[place]?

def isDirectoryAt (t : FileTree) (place : Place) : Bool := (t.node? place).any (·.isDirectory)

/-- One piece further down from a place, which has to be a directory. -/
def enter? (t : FileTree) (place : Place) (piece : String) : Option Place :=
  if !t.isDirectoryAt place then none
  else if Path.isVoid piece then some place
  else if piece == ".." then some place.dropLast
  else some (place ++ [piece])

/-- The place a path leads to, whether or not something is there. -/
def locate? (t : FileTree) (path : String) : Option Place :=
  match Path.pieces path with
  | [""] => none
  | "" :: pieces => pieces.foldlM t.enter? []
  | pieces => pieces.foldlM t.enter? t.home

def get? (t : FileTree) (path : String) : Option FileNode := (t.locate? path).bind t.node?

def contains (t : FileTree) (path : String) : Bool := (t.get? path).isSome

def isDirectory (t : FileTree) (path : String) : Bool := (t.get? path).any (·.isDirectory)

def contentAt? (t : FileTree) (place : Place) : Option ByteArray :=
  match t.node? place with
  | some (.file content) => some content
  | _ => none

def read? (t : FileTree) (path : String) : Option ByteArray := (t.locate? path).bind t.contentAt?

def isFile (t : FileTree) (path : String) : Bool := (t.read? path).isSome

/-- The text of a file; none also for a file that is not UTF-8. -/
def readText? (t : FileTree) (path : String) : Option String :=
  (t.read? path).bind String.fromUTF8?

def put (t : FileTree) (place : Place) (node : FileNode) : FileTree :=
  { t with nodes := t.nodes.insert place node }

/-- Writes a file; none if the path is that of a directory or its parent is not there. -/
def write? (t : FileTree) (path : String) (text : String) : Option FileTree := do
  let place ← t.locate? path
  if t.isDirectoryAt place then none else some (t.put place (.file text.toUTF8))

/-- The places from the root down to a place. -/
def pathTo : Place → List Place
  | [] => [[]]
  | n :: ns => [] :: (pathTo ns).map (n :: ·)

def addDirectory (t : FileTree) (place : Place) : FileTree :=
  (pathTo place).foldl (fun t p => t.put p .directory) t

def addFile (t : FileTree) (place : Place) (content : ByteArray) : FileTree :=
  (t.addDirectory place.dropLast).put place (.file content)

def empty (home : Place) : FileTree := addDirectory ⟨home, ∅⟩ home

/-- What follows the start `dir` of a place. -/
def relativeTo? : (dir place : Place) → Option Place
  | [], p => some p
  | d :: ds, n :: ns => if d == n then relativeTo? ds ns else none
  | _ :: _, [] => none

/-- The files below a directory, by the names that lead to them from there. -/
def filesBelow (t : FileTree) (dir : Place) : List Place :=
  t.nodes.toList.filterMap fun (place, node) =>
    match node with
    | .directory => none
    | .file _ => relativeTo? dir place

end FileTree

end TypeCoupling
