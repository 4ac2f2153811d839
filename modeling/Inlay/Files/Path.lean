import Inlay.Text.Lines

/-!
Paths as text.  A path is a sequence of components between slashes, absolute when it starts with
one.  Empty components, and components `.` other than a first one, do not count.

Parents are purely lexical: the parent of a path is its text up to the end of the component
before the last one.
-/

namespace Inlay
namespace Path

/-- The parts of a path between its slashes. -/
def parts (path : String) : List String :=
  (Text.pieces '/' path.toList).map String.ofList

def isAbsolute (path : String) : Bool := path.startsWith "/"

/-- Whether the part at an index is a component. -/
def isComponent (index : Nat) (part : String) : Bool :=
  part ≠ "" && (part ≠ "." || index = 0)

def componentIndices (path : String) : List Nat :=
  (((parts path).zipIdx).filter fun (part, index) => isComponent index part).map (·.2)

def components (path : String) : List String :=
  (((parts path).zipIdx).filter fun (part, index) => isComponent index part).map (·.1)

/-- The text of a path up to the end of the part at an index. -/
def upTo (path : String) (index : Nat) : String :=
  "/".intercalate ((parts path).take (index + 1))

/-- The path of the directory that holds the last component.  A path without components has
none. -/
def parent? (path : String) : Option String :=
  match (componentIndices path).reverse with
  | [] => none
  | [_] => some (if isAbsolute path then "/" else "")
  | _ :: before :: _ => some (upTo path before)

/-- The path and its parents, the nearest first, at most `fuel` of them. -/
def ancestorsWithin : Nat → String → List String
  | 0, path => [path]
  | fuel + 1, path =>
    match parent? path with
    | none => [path]
    | some parent => path :: ancestorsWithin fuel parent

/-- The path and its parents, the nearest first. -/
def ancestors (path : String) : List String :=
  ancestorsWithin (componentIndices path).length path

/-- The last component, unless it names a directory relative to others. -/
def fileName? (path : String) : Option String :=
  match (components path).getLast? with
  | some name => if name = "." || name = ".." then none else some name
  | none => none

def join (path name : String) : String :=
  if path = "" then name
  else if path.endsWith "/" then path ++ name
  else path ++ "/" ++ name

end Path
end Inlay
