import Inlay.Table
import Mathlib.Data.List.Induction

/-!
# Entries put in one after the other

Of two values put under one key the later one stays (`insert_insert`), and values under two keys may
be put in in either order (`insert_comm`).  Under every key, entries into which a list was put hold
what the list says of the key, and what they held before if it says nothing (`get?_insertAll`).
What the list says is said by the last entry of the key (`get?_insertAll_nil`).  Entries in
increasing order are equal when they hold the same under every key (`Increasing.ext`), so putting a
list in twice is putting it in once.  A table is given back by its entries in any order
(`Table.ofList_of_perm`).
-/

namespace Inlay
namespace Entries

variable {α : Type} {entries : List (String × α)} {key : String}

theorem insertAll_cons (entries : List (String × α)) (entry : String × α)
    (new : List (String × α)) :
    insertAll entries (entry :: new) = insertAll (insert entry.1 entry.2 entries) new := rfl

theorem Increasing.insertAll (h : Increasing entries) (new : List (String × α)) :
    Increasing (Entries.insertAll entries new) := by
  induction new generalizing entries with
  | nil => exact h
  | cons entry new ih => exact ih (h.insert entry.1 entry.2)

/-- What is put in goes before what was there. -/
theorem get?_insertAll (key : String) (entries new : List (String × α)) :
    get? key (insertAll entries new) = (get? key (insertAll [] new)).or (get? key entries) := by
  induction new generalizing entries with
  | nil => rfl
  | cons entry new ih =>
    rw [insertAll_cons, insertAll_cons, ih (insert entry.1 entry.2 entries),
      ih (insert entry.1 entry.2 []), Option.or_assoc]
    by_cases h : key = entry.1
    · rw [h, get?_insert_self, get?_insert_self, Option.some_or]
    · rw [get?_insert_of_ne h, get?_insert_of_ne h]
      rfl

/-- Nothing is held but what was put in. -/
theorem mem_of_get?_insertAll {value : α} {new : List (String × α)}
    (h : get? key (insertAll [] new) = some value) : (key, value) ∈ new := by
  induction new with
  | nil => cases h
  | cons entry new ih =>
    rw [insertAll_cons, get?_insertAll, Option.or_eq_some_iff] at h
    rcases h with hnew | ⟨-, hfirst⟩
    · exact List.mem_cons_of_mem _ (ih hnew)
    · obtain ⟨rfl, rfl⟩ : entry.1 = key ∧ entry.2 = value := by
        simpa [insert, get?] using hfirst
      exact List.mem_cons_self

/-! ## The last entry of a key -/

/-- The value of the last entry of a key. -/
def lastUnder (key : String) (entries : List (String × α)) : Option α :=
  (entries.reverse.find? fun entry => entry.1 = key).map Prod.snd

theorem lastUnder_append_singleton_self (key : String) (value : α) (entries : List (String × α)) :
    lastUnder key (entries ++ [(key, value)]) = some value := by
  simp [lastUnder]

theorem lastUnder_append_singleton_of_ne {key : String} {entry : String × α} (h : key ≠ entry.1)
    (entries : List (String × α)) : lastUnder key (entries ++ [entry]) = lastUnder key entries := by
  simp [lastUnder, Ne.symm h]

/-- Of the entries that are put in, the last one of a key is found. -/
theorem get?_insertAll_nil (key : String) (new : List (String × α)) :
    get? key (insertAll [] new) = lastUnder key new := by
  induction new using List.reverseRecOn with
  | nil => rfl
  | append_singleton new entry ih =>
    have hlast : insertAll [] (new ++ [entry]) = insert entry.1 entry.2 (insertAll [] new) := by
      rw [insertAll, List.foldl_append]
      rfl
    rw [hlast]
    by_cases h : key = entry.1
    · rw [h, get?_insert_self, lastUnder_append_singleton_self]
    · rw [get?_insert_of_ne h, lastUnder_append_singleton_of_ne h, ih]

/-! ## Taking keys out -/

theorem get?_eraseAll (keys : List String) (key : String) (entries : List (String × α)) :
    get? key (keys.foldl (fun acc k => erase k acc) entries) =
      if key ∈ keys then none else get? key entries := by
  induction keys generalizing entries with
  | nil => rfl
  | cons k keys ih =>
    rw [List.foldl_cons, ih]
    by_cases h : key = k
    · simp [h, get?_erase_self]
    · simp [h, get?_erase_of_ne h]

theorem Increasing.eraseAll (h : Increasing entries) (keys : List String) :
    Increasing (keys.foldl (fun acc k => Entries.erase k acc) entries) := by
  induction keys generalizing entries with
  | nil => exact h
  | cons k keys ih => exact ih (h.erase k)

/-! ## One insertion behind another -/

theorem insert_cons_self (key : String) (value old : α) (rest : List (String × α)) :
    insert key value ((key, old) :: rest) = (key, value) :: rest := if_pos rfl

theorem insert_cons_of_lt {first : String} (h : key < first) (value old : α)
    (rest : List (String × α)) :
    insert key value ((first, old) :: rest) = (key, value) :: (first, old) :: rest := by
  rw [insert, if_neg (String.ne_of_lt h).symm, if_pos h]

theorem insert_cons_of_gt {first : String} (h : first < key) (value old : α)
    (rest : List (String × α)) :
    insert key value ((first, old) :: rest) = (first, old) :: insert key value rest := by
  rw [insert, if_neg (String.ne_of_lt h), if_neg (String.lt_asymm h)]

/-- Of two values that are put under one key the later one stays. -/
theorem insert_insert (key : String) (value old : α) (entries : List (String × α)) :
    insert key value (insert key old entries) = insert key value entries := by
  induction entries with
  | nil => exact insert_cons_self key value old []
  | cons entry rest ih =>
    obtain ⟨first, x⟩ := entry
    rcases Std.lt_trichotomy key first with hlt | rfl | hgt
    · rw [insert_cons_of_lt hlt, insert_cons_of_lt hlt, insert_cons_self]
    · rw [insert_cons_self, insert_cons_self, insert_cons_self]
    · rw [insert_cons_of_gt hgt, insert_cons_of_gt hgt, insert_cons_of_gt hgt, ih]

theorem insert_comm_of_lt {a b : String} (h : a < b) (x y : α) (entries : List (String × α)) :
    insert a x (insert b y entries) = insert b y (insert a x entries) := by
  induction entries with
  | nil =>
    show insert a x [(b, y)] = insert b y [(a, x)]
    rw [insert_cons_of_lt h, insert_cons_of_gt h]
    rfl
  | cons entry rest ih =>
    obtain ⟨first, z⟩ := entry
    rcases Std.lt_trichotomy a first with hlt | rfl | hgt
    · -- the lesser key goes to the front whatever the greater one did to the first entry
      rw [insert_cons_of_lt hlt, insert_cons_of_gt h]
      rcases Std.lt_trichotomy b first with hbefore | rfl | hbehind
      · rw [insert_cons_of_lt hbefore, insert_cons_of_lt h]
      · rw [insert_cons_self, insert_cons_of_lt h]
      · rw [insert_cons_of_gt hbehind, insert_cons_of_lt hlt]
    · rw [insert_cons_of_gt h, insert_cons_self, insert_cons_self, insert_cons_of_gt h]
    · have hbehind : first < b := String.lt_trans hgt h
      rw [insert_cons_of_gt hbehind, insert_cons_of_gt hgt, insert_cons_of_gt hgt,
        insert_cons_of_gt hbehind, ih]

/-- Values under two keys may be put in in either order, also where the keys do not increase. -/
theorem insert_comm {a b : String} (h : a ≠ b) (x y : α) (entries : List (String × α)) :
    insert a x (insert b y entries) = insert b y (insert a x entries) := by
  rcases Std.lt_trichotomy a b with hlt | heq | hgt
  · exact insert_comm_of_lt hlt x y entries
  · exact absurd heq h
  · exact (insert_comm_of_lt hgt y x entries).symm

/-! ## Extensionality -/

theorem get?_eq_none_of_lt (h : ∀ entry ∈ entries, key < entry.1) : get? key entries = none := by
  induction entries with
  | nil => rfl
  | cons entry rest ih =>
    have hne : entry.1 ≠ key := fun heq => String.lt_irrefl key (heq ▸ h entry List.mem_cons_self)
    rw [get?, if_neg hne, ih fun e he => h e (List.mem_cons_of_mem _ he)]

/-- A key that has a value does not lie in front of the first one. -/
theorem Increasing.le_of_get?_isSome {first : String × α} (h : Increasing (first :: entries))
    (hkey : (get? key (first :: entries)).isSome) : first.1 ≤ key := by
  rw [← String.not_lt]
  intro hlt
  have hall : ∀ entry ∈ first :: entries, key < entry.1 := by
    intro entry hentry
    rcases List.mem_cons.1 hentry with rfl | hrest
    · exact hlt
    · exact String.lt_trans hlt ((List.pairwise_cons.1 h).1 entry hrest)
  rw [get?_eq_none_of_lt hall] at hkey
  cases hkey

theorem Increasing.ext {a b : List (String × α)} (ha : Increasing a) (hb : Increasing b)
    (h : ∀ key, get? key a = get? key b) : a = b := by
  induction a generalizing b with
  | nil =>
    cases b with
    | nil => rfl
    | cons entry b => simpa [get?] using h entry.1
  | cons entry a ih =>
    cases b with
    | nil => simpa [get?] using h entry.1
    | cons entry' b =>
      obtain ⟨key, value⟩ := entry
      obtain ⟨key', value'⟩ := entry'
      -- each of the first keys has a value on the other side, so neither lies in front
      have hle : key ≤ key' := ha.le_of_get?_isSome (by rw [h]; simp [get?])
      have hge : key' ≤ key := hb.le_of_get?_isSome (by rw [← h]; simp [get?])
      obtain rfl : key = key' := String.le_antisymm hle hge
      have hvalue : value = value' := by simpa [get?] using h key
      obtain ⟨hlt, ha⟩ := List.pairwise_cons.1 ha
      obtain ⟨hlt', hb⟩ := List.pairwise_cons.1 hb
      have hrest : a = b := by
        refine ih ha hb ?_
        intro k
        by_cases hk : key = k
        · rw [← hk, get?_eq_none_of_lt hlt, get?_eq_none_of_lt hlt']
        · simpa [get?, hk] using h k
      rw [hvalue, hrest]

theorem Increasing.nodup_keys (h : Increasing entries) : (entries.map Prod.fst).Nodup := by
  rw [List.Nodup, List.pairwise_map]
  refine List.Pairwise.imp ?_ h
  intro a b hlt heq
  rw [heq] at hlt
  exact String.lt_irrefl _ hlt

theorem insertAll_insertAll_self (h : Increasing entries) (new : List (String × α)) :
    insertAll (insertAll entries new) new = insertAll entries new := by
  refine Increasing.ext ((h.insertAll new).insertAll new) (h.insertAll new) ?_
  intro key
  rw [get?_insertAll key (insertAll entries new), get?_insertAll key entries, ← Option.or_assoc,
    Option.or_self]

/-! ## Rearranging -/

theorem perm_insert (value : α) (h : key ∉ entries.map Prod.fst) :
    (insert key value entries).Perm ((key, value) :: entries) := by
  induction entries with
  | nil => exact .refl _
  | cons entry rest ih =>
    rw [List.map_cons, List.mem_cons, not_or] at h
    rw [insert, if_neg (Ne.symm h.1)]
    split
    · exact .refl _
    · exact ((ih h.2).cons entry).trans (.swap _ _ _)

/-- Entries with keys of their own are put in without any of them being lost. -/
theorem perm_insertAll {new : List (String × α)} (h : ((entries ++ new).map Prod.fst).Nodup) :
    (insertAll entries new).Perm (entries ++ new) := by
  induction new generalizing entries with
  | nil => rw [List.append_nil]; exact .refl _
  | cons entry new ih =>
    have hmiddle : (entries ++ entry :: new).Perm (entry :: entries ++ new) := List.perm_middle
    have hdistinct := (hmiddle.map Prod.fst).nodup_iff.1 h
    have hnew : entry.1 ∉ entries.map Prod.fst := by
      rw [List.cons_append, List.map_cons, List.nodup_cons, List.map_append] at hdistinct
      exact fun hmem => hdistinct.1 (List.mem_append_left _ hmem)
    have hfirst : (insert entry.1 entry.2 entries ++ new).Perm (entry :: entries ++ new) :=
      (perm_insert entry.2 hnew).append_right new
    rw [insertAll_cons]
    exact (ih ((hfirst.map Prod.fst).nodup_iff.2 hdistinct)).trans (hfirst.trans hmiddle.symm)

theorem Increasing.eq_of_perm {a b : List (String × α)} (ha : Increasing a) (hb : Increasing b)
    (h : a.Perm b) : a = b :=
  h.eq_of_pairwise (fun _ _ _ _ hlt hgt => absurd (String.lt_trans hlt hgt) (String.lt_irrefl _))
    ha hb

end Entries

namespace Table

variable {α : Type}

theorem entries_insertAll (t : Table α) (new : List (String × α)) :
    (t.insertAll new).entries = Entries.insertAll t.entries new := by
  induction new generalizing t with
  | nil => rfl
  | cons entry new ih => exact ih (t.insert entry.1 entry.2)

theorem get?_ofList (entries : List (String × α)) (key : String) :
    (ofList entries).get? key = Entries.get? key (Entries.insertAll [] entries) := by
  rw [get?, ofList, entries_insertAll]
  rfl

theorem get?_insertAll (t : Table α) (new : List (String × α)) (key : String) :
    (t.insertAll new).get? key = (Entries.lastUnder key new).or (t.get? key) := by
  rw [get?, entries_insertAll, Entries.get?_insertAll, Entries.get?_insertAll_nil]
  rfl

/-- The entries of a table give the table in whatever order they are listed. -/
theorem ofList_of_perm {t : Table α} {entries : List (String × α)} (h : entries.Perm t.entries) :
    ofList entries = t := by
  have hdistinct : (entries.map Prod.fst).Nodup :=
    (h.map Prod.fst).nodup_iff.2 t.increasing.nodup_keys
  refine ext (Entries.Increasing.eq_of_perm (ofList entries).increasing t.increasing ?_)
  rw [ofList, entries_insertAll]
  exact (Entries.perm_insertAll hdistinct).trans h

end Table
end Inlay
