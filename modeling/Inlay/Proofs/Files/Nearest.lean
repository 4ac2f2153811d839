import Inlay.Files.Tree
import Inlay.Proofs.Files.Ancestors

/-!
# The nearest file

A search for some names goes up from a path, and in each directory through the names in their order.
`NearestFile` says where it ends: in the first directory on the way that holds one of the names as a
file, at the first name that it holds.  Only files count; a directory of that name is passed.
`nearest?_eq_some_iff` and `nearest?_eq_none_iff` say that the search ends there, and what it
finds hangs on nothing that lies above (`NearestFile.congr`).
-/

namespace Inlay

/-- A name in a directory is behind a slash, unless the path of the directory ends with one. -/
theorem Path.join_eq_append {directory : String} (hdirectory : directory ≠ "")
    (hslash : ¬ ['/'] <:+ directory.toList) (name : String) :
    Path.join directory name = directory ++ "/" ++ name := by
  have hends : directory.endsWith "/" = false := by
    rw [Bool.eq_false_iff, ne_eq, String.endsWith_eq_endsWith_toSlice,
      String.Slice.endsWith_string_iff, String.copy_toSlice]
    exact hslash
  rw [Path.join, if_neg hdirectory, hends]
  rfl

namespace FileTree

open Inlay.Path (Climb)

variable {files other : FileTree} {start directory name path : String} {names passed : List String}

/-- A directory holds a file of a name. -/
def HoldsFile (files : FileTree) (directory name : String) : Prop :=
  ∃ content, files.node? (Path.join directory name) = some (.file content)

/-- The file of a name in a directory is the first that one comes to, going up from a path past
others: none of these holds any of the names, and the directory holds none in front of this one. -/
structure NearestFile (files : FileTree) (start : String) (names passed : List String)
    (directory name : String) : Prop where
  climb : Climb start passed directory
  passed : ∀ below ∈ passed, ∀ name ∈ names, ¬ files.HoldsFile below name
  preferred : ∃ before behind, names = before ++ name :: behind ∧
    ∀ preferred ∈ before, ¬ files.HoldsFile directory preferred
  holds : files.HoldsFile directory name

/-- At or above a path no directory holds a file of one of the names. -/
def HoldsNone (files : FileTree) (start : String) (names : List String) : Prop :=
  ∀ passed directory, Climb start passed directory →
    ∀ name ∈ names, ¬ files.HoldsFile directory name

/-! ## The search -/

theorem isFile_iff :
    files.isFile path = true ↔ ∃ content, files.node? path = some (.file content) := by
  unfold isFile
  split <;> simp_all

theorem isFile_join_iff : files.isFile (Path.join directory name) = true ↔
    files.HoldsFile directory name := isFile_iff

theorem find?_join_eq_some_iff :
    (names.map (Path.join directory)).find? files.isFile = some path ↔
      ∃ name, Path.join directory name = path ∧ files.HoldsFile directory name ∧
        ∃ before behind, names = before ++ name :: behind ∧
          ∀ preferred ∈ before, ¬ files.HoldsFile directory preferred := by
  rw [List.find?_map, Option.map_eq_some_iff]
  refine exists_congr fun name => ?_
  rw [List.find?_eq_some_iff_append, and_comm]
  simp only [Function.comp_apply, isFile_join_iff, Bool.not_eq_true', ← Bool.not_eq_true]

theorem find?_join_eq_none_iff :
    (names.map (Path.join directory)).find? files.isFile = none ↔
      ∀ name ∈ names, ¬ files.HoldsFile directory name := by
  simp only [List.find?_map, Option.map_eq_none_iff, List.find?_eq_none, Function.comp_apply,
    isFile_join_iff]

theorem nearest?_eq_some_iff :
    files.nearest? (Path.ancestors start) names = some path ↔
      ∃ passed directory name, files.NearestFile start names passed directory name ∧
        Path.join directory name = path := by
  simp only [nearest?, List.findSome?_eq_some_iff, find?_join_eq_some_iff, find?_join_eq_none_iff]
  constructor
  · rintro ⟨passed, directory, rest, hway, ⟨name, hpath, hholds, hpreferred⟩, hpassed⟩
    exact ⟨passed, directory, name,
      ⟨Path.climb_iff.2 ⟨rest, hway⟩, hpassed, hpreferred, hholds⟩, hpath⟩
  · rintro ⟨passed, directory, name, hnearest, hpath⟩
    obtain ⟨rest, hway⟩ := Path.climb_iff.1 hnearest.climb
    exact ⟨passed, directory, rest, hway, ⟨name, hpath, hnearest.holds, hnearest.preferred⟩,
      hnearest.passed⟩

theorem nearest?_eq_none_iff :
    files.nearest? (Path.ancestors start) names = none ↔ files.HoldsNone start names := by
  simp only [nearest?, List.findSome?_eq_none_iff, find?_join_eq_none_iff]
  constructor
  · intro h passed directory hclimb
    obtain ⟨rest, hway⟩ := Path.climb_iff.1 hclimb
    exact h directory (hway ▸ List.mem_append_right passed List.mem_cons_self)
  · intro h directory hmem
    obtain ⟨passed, rest, hway⟩ := List.append_of_mem hmem
    exact h passed directory (Path.climb_iff.2 ⟨rest, hway⟩)

/-! ## What the search looks at -/

/-- Two file trees have the same files of some names in a directory and in those passed on the
way. -/
def AgreeUpTo (files other : FileTree) (names passed : List String) (directory : String) : Prop :=
  ∀ place ∈ directory :: passed, ∀ name ∈ names,
    other.node? (Path.join place name) = files.node? (Path.join place name)

theorem NearestFile.mem (h : files.NearestFile start names passed directory name) :
    name ∈ names := by
  obtain ⟨before, behind, rfl, -⟩ := h.preferred
  exact List.mem_append_right before List.mem_cons_self

/-- What lies above the nearest file makes no difference. -/
theorem NearestFile.congr (h : files.NearestFile start names passed directory name)
    (hsame : AgreeUpTo files other names passed directory) :
    other.NearestFile start names passed directory name := by
  have hholds : ∀ place ∈ directory :: passed, ∀ name ∈ names,
      (other.HoldsFile place name ↔ files.HoldsFile place name) := by
    intro place hplace name hname
    rw [HoldsFile, hsame place hplace name hname, HoldsFile]
  have hmem := h.mem
  obtain ⟨before, behind, rfl, hbefore⟩ := h.preferred
  refine ⟨h.climb, ?_, ⟨before, behind, rfl, ?_⟩, ?_⟩
  · intro below hbelow name hname
    rw [hholds below (List.mem_cons_of_mem _ hbelow) name hname]
    exact h.passed below hbelow name hname
  · intro preferred hpreferred
    rw [hholds directory List.mem_cons_self preferred (List.mem_append_left _ hpreferred)]
    exact hbefore preferred hpreferred
  · rw [hholds directory List.mem_cons_self name hmem]
    exact h.holds

theorem read?_congr (h : other.node? path = files.node? path) :
    other.read? path = files.read? path := by
  rw [read?, h, read?]

end FileTree
end Inlay
