import Inlay.Json.Value
import Inlay.Proofs.Entries

/-!
# What merged options say

Options that are no object, and options that are not there, have no entries, so a merge always puts
a list of entries in (`merge_eq`).  Under every key a merged object therefore has what the options
on top say of it, and what it had before if they say nothing (`get?_merge`).
-/

namespace Inlay
namespace Json

variable {target : Fields}

/-- What options say of a key.  Of the entries of an object the last one counts. -/
def said (options : Option Json) (key : String) : Option Json :=
  Entries.lastUnder key (fieldsOrEmpty options)

theorem merge_eq (target : Fields) (options : Option Json) :
    merge target (options.getD .null) = Entries.insertAll target (fieldsOrEmpty options) := by
  cases options with
  | none => rfl
  | some value => cases value <;> rfl

theorem get?_merge (target : Fields) (options : Option Json) (key : String) :
    Entries.get? key (merge target (options.getD .null)) =
      (said options key).or (Entries.get? key target) := by
  rw [merge_eq, Entries.get?_insertAll, Entries.get?_insertAll_nil]
  rfl

theorem increasing_merge (h : Entries.Increasing target) (options : Option Json) :
    Entries.Increasing (merge target (options.getD .null)) := by
  rw [merge_eq]
  exact h.insertAll (fieldsOrEmpty options)

end Json
end Inlay
