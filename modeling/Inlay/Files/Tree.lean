import Inlay.Files.Path

/-!
A file system as data: which directories and files there are, and what the files hold.

A path is followed component by component: every component on the way must be a directory, `.`
stays where it is and `..` goes up.
-/

namespace Inlay

/-- What a file holds: text, or bytes that are no text. -/
inductive FileContent where
  | text (value : String)
  | binary
deriving Repr, DecidableEq, Inhabited

inductive FileNode where
  | directory
  | file (content : FileContent)
deriving Repr, DecidableEq, Inhabited

/-- A place: the names of directories from the root on, and a last name. -/
abbrev Place := List String

/-- Files and directories by their place, and the directory that relative paths start from.  The
root is a directory. -/
structure FileTree where
  nodes : List (Place × FileNode)
  workingDirectory : Place
deriving Repr, Inhabited

namespace FileTree

def nodeAt? (t : FileTree) (place : Place) : Option FileNode :=
  if place = [] then some .directory
  else (t.nodes.find? fun entry => entry.1 = place).map (·.2)

def isDirectoryAt (t : FileTree) (place : Place) : Bool := t.nodeAt? place = some .directory

/-- Walks from a directory through the parts of a path.  A part is only entered from a
directory. -/
def walk (t : FileTree) (place : Place) : List String → Option Place
  | [] => some place
  | part :: rest =>
    if !t.isDirectoryAt place then none
    else if part = "" || part = "." then walk t place rest
    else if part = ".." then walk t place.dropLast rest
    else walk t (place ++ [part]) rest

/-- The place that a path names, if every directory on the way exists.  The empty path names
nothing. -/
def placeOf? (t : FileTree) (path : String) : Option Place :=
  if path = "" then none
  else t.walk (if Path.isAbsolute path then [] else t.workingDirectory) (Path.parts path)

/-- The place behind one more component of a path. -/
def enter (place : Place) (component : String) : Place :=
  if component = ".." then place.dropLast
  else if component = "." then place
  else place ++ [component]

/-- The places on the way along a path, from where it starts to where it ends. -/
def placesAlong (t : FileTree) (path : String) : List Place :=
  let start := if Path.isAbsolute path then [] else t.workingDirectory
  let components := Path.components path
  (List.range (components.length + 1)).map fun n => (components.take n).foldl enter start

def node? (t : FileTree) (path : String) : Option FileNode := (t.placeOf? path).bind t.nodeAt?

def isFile (t : FileTree) (path : String) : Bool :=
  match t.node? path with
  | some (.file _) => true
  | _ => false

def read? (t : FileTree) (path : String) : Option String :=
  match t.node? path with
  | some (.file (.text value)) => some value
  | _ => none

def put (t : FileTree) (place : Place) (node : FileNode) : FileTree :=
  { t with nodes := (place, node) :: t.nodes.filter fun entry => entry.1 ≠ place }

/-- Puts a directory at a place and at the places above it. -/
def makeDirectories (t : FileTree) (place : Place) : FileTree :=
  (List.range (place.length + 1)).foldl
    (fun t n => if t.isDirectoryAt (place.take n) then t else t.put (place.take n) .directory) t

/-- Puts a node at a path, and directories on the way to it. -/
def putAlong (t : FileTree) (path : String) (node : FileNode) : FileTree :=
  let places := t.placesAlong path
  (places.dropLast.foldl makeDirectories t).put (places.getLastD t.workingDirectory) node

/-- Writes a text to the file at a path, if its directory exists and the path is not one. -/
def write? (t : FileTree) (path : String) (text : String) : Option FileTree := do
  let place ← t.placeOf? path
  if place = [] || !t.isDirectoryAt place.dropLast || t.isDirectoryAt place then none
  else some (t.put place (.file (.text text)))

/-- The first of several names that is a file in the nearest of several directories. -/
def nearest? (t : FileTree) (directories names : List String) : Option String :=
  directories.findSome? fun directory =>
    (names.map (Path.join directory)).find? t.isFile

end FileTree
end Inlay
