import Inlay.Files.Tree

/-!
# Writing a file

A text can be written to a path that names a place in a directory, as long as this place is no
directory itself (`IsWritable`).  Afterwards the path reads as the text and every path to another
place names what it named before (`written_of_isWritable`): a file in the place of another one, or
of nothing, makes no directory and removes none, so that every path still leads to the same place
(`placeOf?_put_file`).
-/

namespace Inlay
namespace FileTree

variable {files : FileTree} {path : String} {place : Place}

/-- A path names a place in a directory, and this place is no directory itself. -/
def IsWritable (files : FileTree) (path : String) : Prop :=
  ∃ place, files.placeOf? path = some place ∧ files.isDirectoryAt place.dropLast ∧
    ¬ files.isDirectoryAt place

/-- The second of two trees is the first one with a text written to a path: what other places hold
is as before. -/
structure Written (files : FileTree) (path text : String) (after : FileTree) : Prop where
  read : after.read? path = some text
  places : ∀ other, after.placeOf? other = files.placeOf? other
  others : ∀ other, files.placeOf? other ≠ files.placeOf? path →
    after.node? other = files.node? other

/-! ## Places -/

/-- The root is a directory. -/
theorem ne_nil_of_not_isDirectoryAt (h : ¬ files.isDirectoryAt place) : place ≠ [] := by
  rintro rfl
  exact h rfl

theorem nodeAt?_put (node : FileNode) (hplace : place ≠ []) (other : Place) :
    (files.put place node).nodeAt? other =
      if other = place then some node else files.nodeAt? other := by
  by_cases hother : other = []
  · subst hother
    rw [if_neg hplace.symm, nodeAt?, if_pos rfl, nodeAt?, if_pos rfl]
  rw [nodeAt?, if_neg hother, put]
  by_cases heq : other = place
  · subst heq
    simp
  · have hkept :
        (files.nodes.filter fun entry => entry.1 ≠ place).find? (fun entry => entry.1 = other) =
          files.nodes.find? fun entry => entry.1 = other := by
      rw [List.find?_filter]
      congr 1
      funext entry
      by_cases hentry : entry.1 = other <;> simp [hentry, heq]
    rw [if_neg heq, List.find?_cons_of_neg (by simpa using Ne.symm heq), hkept, nodeAt?,
      if_neg hother]

/-- A file where there is no directory makes none and removes none. -/
theorem isDirectoryAt_put_file (content : FileContent) (h : ¬ files.isDirectoryAt place)
    (other : Place) :
    (files.put place (.file content)).isDirectoryAt other = files.isDirectoryAt other := by
  rw [isDirectoryAt, nodeAt?_put _ (ne_nil_of_not_isDirectoryAt h)]
  by_cases hother : other = place
  · subst hother
    simpa using h
  · rw [if_neg hother, isDirectoryAt]

theorem walk_put_file (content : FileContent) (h : ¬ files.isDirectoryAt place) (start : Place)
    (parts : List String) :
    (files.put place (.file content)).walk start parts = files.walk start parts := by
  induction parts generalizing start with
  | nil => rfl
  | cons part parts ih => simp only [walk, isDirectoryAt_put_file content h, ih]

theorem placeOf?_put_file (content : FileContent) (h : ¬ files.isDirectoryAt place)
    (path : String) :
    (files.put place (.file content)).placeOf? path = files.placeOf? path := by
  rw [placeOf?, walk_put_file content h]
  rfl

/-! ## Texts -/

theorem write?_of_placeOf? (text : String) (hplace : files.placeOf? path = some place)
    (hparent : files.isDirectoryAt place.dropLast) (h : ¬ files.isDirectoryAt place) :
    files.write? path text = some (files.put place (.file (.text text))) := by
  have hne := ne_nil_of_not_isDirectoryAt h
  simp [write?, hplace, hne, hparent, h]

theorem written_put (text : String) (hplace : files.placeOf? path = some place)
    (h : ¬ files.isDirectoryAt place) :
    files.Written path text (files.put place (.file (.text text))) := by
  have hne := ne_nil_of_not_isDirectoryAt h
  have hplaces := placeOf?_put_file (.text text) h
  refine ⟨?_, hplaces, ?_⟩
  · rw [read?, node?, hplaces, hplace, Option.bind_some, nodeAt?_put _ hne, if_pos rfl]
  · intro other hother
    rw [node?, hplaces, node?]
    cases hplaced : files.placeOf? other with
    | none => rfl
    | some elsewhere =>
      have hdistinct : elsewhere ≠ place := by
        rintro rfl
        exact hother (hplaced.trans hplace.symm)
      rw [Option.bind_some, Option.bind_some, nodeAt?_put _ hne, if_neg hdistinct]

theorem written_of_isWritable (h : files.IsWritable path) (text : String) :
    ∃ after, files.write? path text = some after ∧ files.Written path text after := by
  obtain ⟨place, hplace, hparent, hfree⟩ := h
  exact ⟨_, write?_of_placeOf? text hplace hparent hfree, written_put text hplace hfree⟩

end FileTree
end Inlay
