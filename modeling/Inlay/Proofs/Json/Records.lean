import Inlay.Json.Record
import Inlay.Proofs.Entries
import Inlay.Proofs.Json.Values
import Inlay.Proofs.Outcome

/-!
# Records are read back

The object that a record is written as is read back as its members (`record?_present`): they stand
under names of the record, each under its own (`Named`), so none is ignored and none occurs twice.
A field is then looked up in the members by its name, and the field readers undo the writers.
-/

namespace Inlay
namespace Json

/-! ## Members -/

/-- The fields that an object with these members gives. -/
def recordOf (members : List (Option (String × Json))) : Record :=
  (members.filterMap id).map fun field => (field.1, field.2.tree)

/-- Members that stand, where they are present, under the names of a list in its order. -/
def Named (names : List String) (members : List (Option (String × Json))) : Prop :=
  List.Forall₂ (fun name member => ∀ field ∈ member, field.1 = name) names members

@[simp] theorem named_nil : Named [] [] := .nil

@[simp] theorem named_member {names : List String} {members : List (Option (String × Json))}
    (name : String) (value : Json) :
    Named (name :: names) (member name value :: members) ↔ Named names members := by
  rw [Named, List.forall₂_cons]
  exact and_iff_right fun field hfield => by cases hfield; rfl

@[simp] theorem named_memberIfSome {α : Type} {names : List String}
    {members : List (Option (String × Json))} (name : String) (write : α → Json)
    (value : Option α) :
    Named (name :: names) (memberIfSome name write value :: members) ↔ Named names members := by
  rw [Named, List.forall₂_cons]
  refine and_iff_right fun field hfield => ?_
  obtain ⟨v, -, rfl⟩ := Option.map_eq_some_iff.1 hfield
  rfl

@[simp] theorem named_memberIfAny {α : Type} {names : List String}
    {members : List (Option (String × Json))} (name : String) (write : α → Json)
    (items : List α) :
    Named (name :: names) (memberIfAny name write items :: members) ↔ Named names members := by
  rw [Named, List.forall₂_cons]
  refine and_iff_right fun field hfield => ?_
  cases items with
  | nil => cases hfield
  | cons item items => cases hfield; rfl

/-- The names of the members that are present are some of the names, in their order. -/
theorem Named.sublist {names : List String} {members : List (Option (String × Json))}
    (h : Named names members) : ((recordOf members).map Prod.fst).Sublist names := by
  rw [recordOf, List.map_map]
  induction h with
  | nil => exact .slnil
  | @cons name member names members hname _ ih =>
    cases member with
    | none => exact ih.cons name
    | some field =>
      obtain rfl : field.1 = name := hname field rfl
      exact ih.cons_cons field.1

theorem isWhole_present {members : List (Option (String × Json))}
    (h : ∀ member ∈ members, ∀ field ∈ member, field.2.IsWhole) : (present members).IsWhole := by
  refine .object fun field hfield => ?_
  obtain ⟨member, hmember, hpresent⟩ := List.mem_filterMap.1 hfield
  exact h member hmember field hpresent

theorem isWhole_member {name : String} {value : Json} :
    (∀ field ∈ member name value, field.2.IsWhole) ↔ value.IsWhole := by
  simp [member]

theorem isWhole_memberIfSome {α : Type} {name : String} {write : α → Json}
    {value : Option α} :
    (∀ field ∈ memberIfSome name write value, field.2.IsWhole) ↔
      ∀ v ∈ value, (write v).IsWhole := by
  cases value <;> simp [memberIfSome]

theorem isWhole_memberIfAny {α : Type} {name : String} {write : α → Json} {items : List α}
    (h : ∀ item ∈ items, (write item).IsWhole) :
    ∀ field ∈ memberIfAny name write items, field.2.IsWhole := by
  intro field hfield
  cases items with
  | nil => cases hfield
  | cons item items =>
    cases hfield
    exact isWhole_array_map h

/-! ## Collecting -/

theorem get?_eq_none_of_not_mem {key : String} {r : Record} (h : key ∉ r.map Prod.fst) :
    Entries.get? key r = none := by
  induction r with
  | nil => rfl
  | cons field r ih =>
    rw [List.map_cons, List.mem_cons, not_or] at h
    rw [Entries.get?, if_neg (Ne.symm h.1), ih h.2]

/-- Members that are all fields, and all different, are collected as they stand. -/
theorem collectFields?_map {names : List String} {r seen : Record} (hnames : ∀ f ∈ r, f.1 ∈ names)
    (hdistinct : ((seen ++ r).map Prod.fst).Nodup) :
    collectFields? names (r.map fun f => (some f.1, f.2)) seen = some (seen ++ r) := by
  induction r generalizing seen with
  | nil => rw [List.append_nil]; rfl
  | cons field r ih =>
    obtain ⟨hname, hnames⟩ := List.forall_mem_cons.1 hnames
    -- a field that was seen before would stand twice among the names
    have hnew : field.1 ∉ seen.map Prod.fst := by
      rw [List.map_append, List.map_cons] at hdistinct
      intro hold
      exact (List.nodup_append.1 hdistinct).2.2 _ hold _ List.mem_cons_self rfl
    rw [← List.singleton_append, ← List.append_assoc] at hdistinct
    rw [List.map_cons, collectFields?, if_pos hname, get?_eq_none_of_not_mem hnew]
    simpa using ih hnames hdistinct

/-- A record that is written as an object is read back. -/
theorem record?_present {names : List String} {members : List (Option (String × Json))}
    (hnames : names.Nodup) (h : Named names members) :
    (present members).tree.record? names = some (recordOf members) := by
  have htree : (present members).tree =
      .object ((recordOf members).map fun f => (some f.1, f.2)) := by
    rw [present, tree, fieldTrees_eq_map, recordOf, List.map_map]
    rfl
  rw [htree]
  refine collectFields?_map (fun f hf => ?_) ?_
  · exact h.sublist.subset (List.mem_map_of_mem hf)
  · exact hnames.sublist h.sublist

/-! ## Looking a field up -/

@[simp] theorem get?_recordOf_nil (key : String) : Entries.get? key (recordOf []) = none := rfl

@[simp] theorem get?_recordOf_member (key name : String) (value : Json)
    (members : List (Option (String × Json))) :
    Entries.get? key (recordOf (member name value :: members)) =
      if name = key then some value.tree else Entries.get? key (recordOf members) := rfl

@[simp] theorem get?_recordOf_memberIfSome {α : Type} (key name : String) (write : α → Json)
    (value : Option α) (members : List (Option (String × Json))) :
    Entries.get? key (recordOf (memberIfSome name write value :: members)) =
      if name = key then
        (value.map fun v => (write v).tree).or (Entries.get? key (recordOf members))
      else Entries.get? key (recordOf members) := by
  cases value with
  | none => rw [Option.map_none, Option.none_or, ite_self]; rfl
  | some v => rfl

@[simp] theorem get?_recordOf_memberIfAny {α : Type} (key name : String) (write : α → Json)
    (items : List α) (members : List (Option (String × Json))) :
    Entries.get? key (recordOf (memberIfAny name write items :: members)) =
      if name = key ∧ items ≠ [] then some (Json.array (items.map write)).tree
      else Entries.get? key (recordOf members) := by
  cases items with
  | nil => rw [if_neg fun h => h.2 rfl]; rfl
  | cons item items =>
    show (if name = key then some (Json.array ((item :: items).map write)).tree
      else Entries.get? key (recordOf members)) = _
    by_cases h : name = key
    · rw [if_pos h, if_pos ⟨h, List.cons_ne_nil _ _⟩]
    · rw [if_neg h, if_neg fun hboth => h hboth.1]

/-! ## Reading a field -/

section

variable {α : Type} {write : α → Json} {read : Tree → Option α} {r : Record} {name : String}

/-- A field that is always written is read back. -/
theorem Record.required?_eq_some {value : α}
    (hget : Entries.get? name r = some (write value).tree)
    (hread : read (write value).tree = some value) : r.required? name read = some value := by
  rw [Record.required?, hget, Option.bind_some, hread]

/-- A field that is left out without a value is read back, with and without one. -/
theorem Record.orElse?_optional {value : Option α}
    (hget : Entries.get? name r = value.map fun v => (write v).tree)
    (hread : ∀ v ∈ value, Tree.optional? read (write v).tree = some (some v)) :
    r.orElse? name none (Tree.optional? read) = some value := by
  rw [Record.orElse?, hget]
  cases value with
  | none => rfl
  | some v => exact hread v rfl

theorem Tree.list?_tree {items : List α} (h : ∀ item ∈ items, read (write item).tree = some item) :
    Tree.list? read (Json.array (items.map write)).tree = some items := by
  rw [tree, trees_eq_map, List.map_map]
  show List.mapM read _ = _
  rw [mapM_eq_some_iff, List.forall₂_map_left_iff, List.forall₂_same]
  exact h

/-- A list that is always written is read back. -/
theorem Record.orElse?_list {items fallback : List α}
    (hget : Entries.get? name r = some (Json.array (items.map write)).tree)
    (hread : ∀ item ∈ items, read (write item).tree = some item) :
    r.orElse? name fallback (Tree.list? read) = some items := by
  rw [Record.orElse?, hget]
  exact Tree.list?_tree hread

/-- A list that is left out without items is read back, with and without any. -/
theorem Record.orElse?_any {items : List α}
    (hget : Entries.get? name r = if items ≠ [] then some (Json.array (items.map write)).tree
      else none)
    (hread : ∀ item ∈ items, read (write item).tree = some item) :
    r.orElse? name [] (Tree.list? read) = some items := by
  by_cases h : items = []
  · rw [if_neg (not_not_intro h)] at hget
    rw [Record.orElse?, hget, h]
  · rw [if_pos h] at hget
    exact orElse?_list hget hread

/-- A value that does not stand for null is read as one that is there. -/
theorem Tree.optional?_eq_some {t : Tree} {value : α} (hnull : read .null = none)
    (hread : read t = some value) : Tree.optional? read t = some (some value) := by
  cases t with
  | null =>
    rw [hnull] at hread
    cases hread
  | _ =>
    rw [Tree.optional?, hread]
    · rfl
    · exact Tree.noConfusion

/-- The members of a table are read back in whatever order they are written. -/
theorem Tree.table?_object {table : Table α} {entries : List (String × α)}
    (hperm : entries.Perm table.entries)
    (hread : ∀ entry ∈ entries, read (write entry.2).tree = some entry.2) :
    Tree.table? read (Json.object (entries.map fun entry => (entry.1, write entry.2))).tree =
      some table := by
  rw [tree, fieldTrees_eq_map, List.map_map]
  refine Option.bind_eq_some_iff.2 ⟨entries, ?_, ?_⟩
  · rw [mapM_eq_some_iff, List.forall₂_map_left_iff, List.forall₂_same]
    intro entry hentry
    show (read (write entry.2).tree).bind (fun value => some (entry.1, value)) = _
    rw [hread entry hentry]
    rfl
  · show some (Table.ofList entries) = some table
    rw [Table.ofList_of_perm hperm]

end

theorem Tree.word32?_nat {n : Nat} (h : n < word32Limit) : Tree.word32? (nat n).tree = some n := by
  show (if 0 ≤ (n : Int) ∧ (n : Int) < word32Limit then some (n : Int).toNat else none) = some n
  rw [if_pos ⟨by omega, by omega⟩, Int.toNat_natCast]

theorem Tree.text?_string (s : String) : Tree.text? (Json.string s).tree = some s := rfl

theorem Tree.optional?_text?_string (s : String) :
    Tree.optional? Tree.text? (Json.string s).tree = some (some s) := rfl

theorem Tree.optional?_text?_stringOrNull (s : Option String) :
    Tree.optional? Tree.text? (stringOrNull s).tree = some s := by
  cases s <;> rfl

end Json
end Inlay
