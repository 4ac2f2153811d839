/-!
Tables: finite maps from text to values, kept in increasing order of their keys.

`Entries` holds the operations on the bare list of entries, which nested data such as a JSON
object uses directly; `Table` adds the invariant that the keys increase, so that two tables with
the same contents are equal.  The order of keys is the order of their code points, which is also
the order of their UTF-8 bytes.
-/

namespace Inlay

/-! ## Entries -/

namespace Entries

variable {α : Type}

def get? (key : String) : List (String × α) → Option α
  | [] => none
  | (k, v) :: rest => if k = key then some v else get? key rest

/-- Puts a value under a key: in place of the first entry that has the key or a later one, the
entry with a later key staying behind it. -/
def insert (key : String) (value : α) : List (String × α) → List (String × α)
  | [] => [(key, value)]
  | (k, v) :: rest =>
    if k = key then (key, value) :: rest
    else if key < k then (key, value) :: (k, v) :: rest
    else (k, v) :: insert key value rest

/-- Takes out every entry of a key. -/
def erase (key : String) (entries : List (String × α)) : List (String × α) :=
  entries.filter fun entry => entry.1 ≠ key

/-- Puts the entries of a list in one after the other, so that later ones win. -/
def insertAll (entries new : List (String × α)) : List (String × α) :=
  new.foldl (fun acc entry => insert entry.1 entry.2 acc) entries

/-- Entries are ordered when their keys increase. -/
def Increasing (entries : List (String × α)) : Prop := entries.Pairwise fun a b => a.1 < b.1

theorem get?_insert_self (key : String) (value : α) (entries : List (String × α)) :
    get? key (insert key value entries) = some value := by
  induction entries with
  | nil => simp [insert, get?]
  | cons entry rest ih =>
    obtain ⟨k, v⟩ := entry
    simp only [insert]
    split
    · simp [get?]
    · split
      · simp [get?]
      · rename_i h _; simp [get?, h, ih]

theorem get?_insert_of_ne {key other : String} (h : other ≠ key) (value : α)
    (entries : List (String × α)) : get? other (insert key value entries) = get? other entries := by
  induction entries with
  | nil => simp [insert, get?, Ne.symm h]
  | cons entry rest ih =>
    obtain ⟨k, v⟩ := entry
    simp only [insert]
    split
    · rename_i hk; subst hk; simp [get?, Ne.symm h]
    · split
      · simp [get?, Ne.symm h]
      · simp only [get?, ih]

theorem get?_erase_self (key : String) (entries : List (String × α)) :
    get? key (erase key entries) = none := by
  induction entries with
  | nil => rfl
  | cons entry rest ih =>
    obtain ⟨k, v⟩ := entry
    by_cases h : k = key
    · simpa [erase, h] using ih
    · simpa [erase, h, get?] using ih

theorem get?_erase_of_ne {key other : String} (h : other ≠ key) (entries : List (String × α)) :
    get? other (erase key entries) = get? other entries := by
  induction entries with
  | nil => rfl
  | cons entry rest ih =>
    obtain ⟨k, v⟩ := entry
    by_cases hk : k = key
    · subst hk; simpa [erase, get?, Ne.symm h] using ih
    · simp only [erase, hk, ne_eq, not_false_eq_true, decide_true, List.filter_cons_of_pos, get?]
      simp only [erase] at ih
      rw [ih]

/-- The keys after an insertion are the new key and those from before. -/
theorem fst_of_mem_insert {key : String} {value : α} {entries : List (String × α)}
    {entry : String × α} (h : entry ∈ insert key value entries) :
    entry.1 = key ∨ entry ∈ entries := by
  induction entries with
  | nil => simp [insert] at h; exact .inl (by rw [h])
  | cons e rest ih =>
    obtain ⟨k, v⟩ := e
    simp only [insert] at h
    split at h
    · rcases List.mem_cons.1 h with rfl | h
      · exact .inl rfl
      · exact .inr (List.mem_cons_of_mem _ h)
    · split at h
      · rcases List.mem_cons.1 h with rfl | h
        · exact .inl rfl
        · exact .inr h
      · rcases List.mem_cons.1 h with rfl | h
        · exact .inr (List.mem_cons_self ..)
        · exact (ih h).imp id (List.mem_cons_of_mem _)

theorem Increasing.insert {entries : List (String × α)} (h : Increasing entries) (key : String)
    (value : α) : Increasing (Entries.insert key value entries) := by
  induction entries with
  | nil => simp [Entries.insert, Increasing]
  | cons e rest ih =>
    obtain ⟨k, v⟩ := e
    obtain ⟨hhead, htail⟩ := List.pairwise_cons.1 h
    simp only [Entries.insert]
    split
    · rename_i hk; subst hk; exact List.pairwise_cons.2 ⟨hhead, htail⟩
    · rename_i hne
      split
      · rename_i hlt
        refine List.pairwise_cons.2 ⟨fun a ha => ?_, h⟩
        rcases List.mem_cons.1 ha with rfl | ha
        · exact hlt
        · exact String.lt_trans hlt (hhead a ha)
      · rename_i hge
        refine List.pairwise_cons.2 ⟨fun a ha => ?_, ih htail⟩
        rcases fst_of_mem_insert ha with ha | ha
        · rw [ha]
          rcases Classical.em (k < key) with hlt | hge'
          · exact hlt
          · exact absurd (String.le_antisymm (String.not_lt.1 hge) (String.not_lt.1 hge')) hne
        · exact hhead a ha

theorem Increasing.erase {entries : List (String × α)} (h : Increasing entries) (key : String) :
    Increasing (Entries.erase key entries) :=
  List.Pairwise.filter _ h

end Entries

/-! ## Tables -/

/-- A finite map from text to values. -/
structure Table (α : Type) where
  entries : List (String × α)
  increasing : Entries.Increasing entries := by exact List.Pairwise.nil

namespace Table

variable {α β : Type}

def empty : Table α := ⟨[], List.Pairwise.nil⟩

instance : Inhabited (Table α) := ⟨empty⟩

theorem ext {a b : Table α} (h : a.entries = b.entries) : a = b := by
  cases a; cases b; cases h; rfl

instance [DecidableEq α] : DecidableEq (Table α) := fun a b =>
  if h : a.entries = b.entries then .isTrue (ext h) else .isFalse fun e => h (e ▸ rfl)

def get? (t : Table α) (key : String) : Option α := Entries.get? key t.entries

def contains (t : Table α) (key : String) : Bool := (t.get? key).isSome

/-- Puts a value under a key, in place of the one it had. -/
def insert (t : Table α) (key : String) (value : α) : Table α :=
  ⟨Entries.insert key value t.entries, t.increasing.insert key value⟩

/-- Puts the entries of a list in one after the other, so that later ones win. -/
def insertAll (t : Table α) (new : List (String × α)) : Table α :=
  new.foldl (fun t entry => t.insert entry.1 entry.2) t

/-- The table of a list of entries, of which later ones win. -/
def ofList (entries : List (String × α)) : Table α := empty.insertAll entries

/-- The keys in increasing order. -/
def keys (t : Table α) : List String := t.entries.map (·.1)

@[simp] theorem get?_empty (key : String) : (empty : Table α).get? key = none := rfl

@[simp] theorem get?_insert_self (t : Table α) (key : String) (value : α) :
    (t.insert key value).get? key = some value :=
  Entries.get?_insert_self key value t.entries

theorem get?_insert_of_ne (t : Table α) {key other : String} (h : other ≠ key) (value : α) :
    (t.insert key value).get? other = t.get? other :=
  Entries.get?_insert_of_ne h value t.entries

end Table
end Inlay
