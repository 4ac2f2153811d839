import Inlay.Proofs.Json.Scalars
import Mathlib.Tactic.IntervalCases

/-!
# Values are read back

A value without decimals is read back as its syntax tree (`parseTree?_compact`): the scalars by the
lemmas on strings and integers, and the items of an array and the members of an object one after the
other, as each of them stands in front of what ends a value (`readItems_write`,
`readMembers_write`).  The steps that reading takes are at most twice the characters that it reads.
-/

namespace Inlay
namespace Json

/-! ## The tree of a value -/

mutual

/-- The syntax tree of a value. -/
def tree : Json → Tree
  | .null => .null
  | .bool b => .bool b
  | .number n => .number (some n)
  | .string s => .string (some s)
  | .array items => .array (trees items)
  | .object fields => .object (fieldTrees fields)

/-- The syntax trees of the items of an array. -/
def trees : List Json → List Tree
  | [] => []
  | item :: rest => item.tree :: trees rest

/-- The members that the fields of an object are. -/
def fieldTrees : Fields → List (Option String × Tree)
  | [] => []
  | (key, value) :: rest => (some key, value.tree) :: fieldTrees rest

end

theorem trees_eq_map (items : List Json) : trees items = items.map tree := by
  induction items with
  | nil => rfl
  | cons item rest ih => rw [trees, ih, List.map_cons]

theorem fieldTrees_eq_map (fields : Fields) :
    fieldTrees fields = fields.map fun field => (some field.1, field.2.tree) := by
  induction fields with
  | nil => rfl
  | cons field rest ih => rw [fieldTrees, ih, List.map_cons]

/-- The values whose numbers are all integers of 64 bits. -/
inductive IsWhole : Json → Prop
  | null : IsWhole .null
  | bool (b : Bool) : IsWhole (.bool b)
  | int {n : Int} (fits : FitsWord64 n) : IsWhole (.int n)
  | string (s : String) : IsWhole (.string s)
  | array {items : List Json} (whole : ∀ item ∈ items, IsWhole item) : IsWhole (.array items)
  | object {fields : Fields} (whole : ∀ field ∈ fields, IsWhole field.2) : IsWhole (.object fields)

theorem isWhole_nat {n : Nat} (h : n < word32Limit) : (nat n).IsWhole := by
  refine .int ⟨by omega, ?_⟩
  have hlimit : word32Limit < word64Limit := by decide
  omega

theorem isWhole_array_map {α : Type} {write : α → Json} {items : List α}
    (h : ∀ item ∈ items, (write item).IsWhole) : (Json.array (items.map write)).IsWhole := by
  refine .array fun v hv => ?_
  obtain ⟨item, hitem, rfl⟩ := List.mem_map.1 hv
  exact h item hitem

theorem isWhole_stringOrNull (s : Option String) : (stringOrNull s).IsWhole := by
  cases s with
  | none => exact .null
  | some s => exact .string s

/-! ## What a value starts with -/

/-- What stands at the front of a value: no space, and nothing that closes an array. -/
def StartsValue (cs : List Char) : Prop := ∃ c rest, cs = c :: rest ∧ isSpace c = false ∧ c ≠ ']'

/-- A number starts with its sign or with a digit. -/
theorem writeInt_eq_cons (n : Int) :
    ∃ c cs, writeInt n = c :: cs ∧ (c = '-' ∨ ∃ d < 10, c = Nat.digitChar d) := by
  unfold writeInt
  split
  · exact ⟨'-', _, rfl, .inl rfl⟩
  · obtain ⟨d, hd, cs, hcs⟩ := natDigits_eq_cons n.natAbs
    exact ⟨d.digitChar, cs, hcs, .inr ⟨d, hd, rfl⟩⟩

theorem startsValue_write {v : Json} (hv : v.IsWhole) (rest : List Char) :
    StartsValue (write v ++ rest) := by
  cases hv with
  | null => exact ⟨_, _, rfl, by decide, by decide⟩
  | bool b => cases b <;> exact ⟨_, _, rfl, by decide, by decide⟩
  | @int n fits =>
    obtain ⟨c, cs, hcs, hc⟩ := writeInt_eq_cons n
    have hdigit : ∀ d : Fin 10, isSpace (Nat.digitChar d.val) = false ∧
        Nat.digitChar d.val ≠ ']' := by decide
    refine ⟨c, cs ++ rest, by rw [int, write, writeNumber, hcs, List.cons_append], ?_⟩
    rcases hc with rfl | ⟨d, hd, rfl⟩
    · decide
    · exact hdigit ⟨d, hd⟩
  | string s => exact ⟨_, _, rfl, by decide, by decide⟩
  | @array items whole => cases items <;> exact ⟨_, _, rfl, by decide, by decide⟩
  | @object fields whole => cases fields <;> exact ⟨_, _, rfl, by decide, by decide⟩

theorem skipSpace_cons {c : Char} (hc : isSpace c = false) (cs : List Char) :
    skipSpace (c :: cs) = c :: cs := by
  rw [skipSpace, List.dropWhile_cons_of_neg (by rw [hc]; decide)]

/-! ## Reading one value -/

/-- Whether a value is read back from in front of what ends it, in enough steps. -/
def ReadsBack (v : Json) : Prop :=
  ∀ (rest : List Char) (fuel : Nat), EndsValue rest → 2 * (write v).length ≤ fuel →
    readTree fuel (write v ++ rest) = some (v.tree, rest)

theorem readTree_string (s : String) (rest : List Char) (fuel : Nat) :
    readTree (fuel + 1) (writeString s ++ rest) = some (.string (some s), rest) := by
  rw [writeString, List.cons_append, List.append_assoc, List.singleton_append]
  show (readString _).map _ = _
  rw [readString_escaped]
  rfl

/-- What starts with a sign or a digit is read as a number. -/
theorem readTree_writeInt (n : Int) (rest : List Char) (fuel : Nat) :
    readTree (fuel + 1) (writeInt n ++ rest) =
      (readNumber (writeInt n ++ rest)).map fun (n, r) => (.number n, r) := by
  obtain ⟨c, cs, hcs, hc⟩ := writeInt_eq_cons n
  rw [hcs, List.cons_append]
  rcases hc with rfl | ⟨d, hd, rfl⟩
  · rfl
  · interval_cases d <;> rfl

theorem readTree_int {n : Int} (hn : FitsWord64 n) {rest : List Char} (hrest : EndsValue rest)
    (fuel : Nat) :
    readTree (fuel + 1) (writeInt n ++ rest) = some (.number (some (.integer n)), rest) := by
  rw [readTree_writeInt, readNumber_writeInt hn hrest]
  rfl

/-! ## Reading one value after the other -/

theorem endsValue_cons {c : Char} (hc : c = ',' ∨ c = ']' ∨ c = '}') (rest : List Char) :
    EndsValue (c :: rest) := by
  intro c' hc'
  cases hc'
  exact hc

theorem readItems_last {fuel : Nat} {cs rest : List Char} {item : Tree}
    (h : readTree fuel cs = some (item, ']' :: rest)) :
    readItems (fuel + 1) cs = some ([item], rest) := by
  rw [readItems, h]
  rfl

theorem readItems_more {fuel : Nat} {cs more : List Char} {item : Tree}
    (h : readTree fuel cs = some (item, ',' :: more)) :
    readItems (fuel + 1) cs = (readItems fuel more).map fun (items, r) => (item :: items, r) := by
  rw [readItems, h]
  rfl

/-- The items of an array are read back from behind its opening bracket. -/
theorem readItems_write {item : Json} {items : List Json} (h : ∀ v ∈ item :: items, ReadsBack v)
    (rest : List Char) {fuel : Nat}
    (hfuel : 2 * ((write item).length + (writeItems items).length) ≤ fuel) :
    readItems fuel (write item ++ (writeItems items ++ rest)) =
      some (item.tree :: trees items, rest) := by
  have hitem : ReadsBack item := h item List.mem_cons_self
  -- the step that is spent on an item is paid for by the comma or bracket behind it
  induction items generalizing item fuel with
  | nil =>
    simp only [writeItems, List.length_singleton] at hfuel
    obtain ⟨fuel, rfl⟩ : ∃ n, fuel = n + 1 := ⟨fuel - 1, by omega⟩
    exact readItems_last (hitem _ fuel (endsValue_cons (by decide) rest) (by omega))
  | cons next items ih =>
    simp only [writeItems, List.length_cons, List.length_append] at hfuel
    obtain ⟨fuel, rfl⟩ : ∃ n, fuel = n + 1 := ⟨fuel - 1, by omega⟩
    have hrest : ∀ v ∈ next :: items, ReadsBack v := fun v hv => h v (List.mem_cons_of_mem _ hv)
    have hmore : readItems fuel (write next ++ (writeItems items ++ rest)) =
        some (next.tree :: trees items, rest) := ih hrest (by omega) (hrest next List.mem_cons_self)
    rw [writeItems, List.cons_append, List.append_assoc,
      readItems_more (hitem _ fuel (endsValue_cons (by decide) _) (by omega)), hmore]
    rfl

/-- Behind its key, a member is read as its value. -/
theorem readMembers_cons (fuel : Nat) (key : String) (cs : List Char) :
    readMembers (fuel + 1) (writeString key ++ ':' :: cs) =
      (readTree fuel cs).bind fun (item, rest) =>
        match skipSpace rest with
        | ',' :: more =>
          (readMembers fuel more).map fun (members, r) => ((some key, item) :: members, r)
        | '}' :: behind => some ([(some key, item)], behind)
        | _ => none := by
  rw [writeString, List.cons_append, List.append_assoc, List.singleton_append, readMembers,
    skipSpace_cons (by decide)]
  simp only [readString_escaped, skipSpace_cons (show isSpace ':' = false by decide)]
  cases readTree fuel cs <;> rfl

theorem readMembers_last {fuel : Nat} {key : String} {cs rest : List Char} {item : Tree}
    (h : readTree fuel cs = some (item, '}' :: rest)) :
    readMembers (fuel + 1) (writeString key ++ ':' :: cs) = some ([(some key, item)], rest) := by
  rw [readMembers_cons, h]
  rfl

theorem readMembers_more {fuel : Nat} {key : String} {cs more : List Char} {item : Tree}
    (h : readTree fuel cs = some (item, ',' :: more)) :
    readMembers (fuel + 1) (writeString key ++ ':' :: cs) =
      (readMembers fuel more).map fun (members, r) => ((some key, item) :: members, r) := by
  rw [readMembers_cons, h]
  rfl

/-- The members of an object are read back from behind its opening brace. -/
theorem readMembers_write {key : String} {value : Json} {fields : Fields}
    (h : ∀ field ∈ (key, value) :: fields, ReadsBack field.2) (rest : List Char) {fuel : Nat}
    (hfuel : 2 * ((write value).length + (writeFields fields).length) ≤ fuel) :
    readMembers fuel (writeString key ++ ':' :: (write value ++ (writeFields fields ++ rest))) =
      some ((some key, value.tree) :: fieldTrees fields, rest) := by
  have hvalue : ReadsBack value := h (key, value) List.mem_cons_self
  induction fields generalizing key value fuel with
  | nil =>
    simp only [writeFields, List.length_singleton] at hfuel
    obtain ⟨fuel, rfl⟩ : ∃ n, fuel = n + 1 := ⟨fuel - 1, by omega⟩
    exact readMembers_last (hvalue _ fuel (endsValue_cons (by decide) rest) (by omega))
  | cons next fields ih =>
    obtain ⟨nextKey, next⟩ := next
    simp only [writeFields, List.length_cons, List.length_append] at hfuel
    obtain ⟨fuel, rfl⟩ : ∃ n, fuel = n + 1 := ⟨fuel - 1, by omega⟩
    have hrest : ∀ field ∈ (nextKey, next) :: fields, ReadsBack field.2 :=
      fun field hfield => h field (List.mem_cons_of_mem _ hfield)
    have hmore : readMembers fuel
        (writeString nextKey ++ ':' :: (write next ++ (writeFields fields ++ rest))) =
        some ((some nextKey, next.tree) :: fieldTrees fields, rest) :=
      ih hrest (by omega) (hrest _ List.mem_cons_self)
    have hcut : writeFields ((nextKey, next) :: fields) ++ rest =
        ',' :: (writeString nextKey ++ ':' :: (write next ++ (writeFields fields ++ rest))) := by
      simp only [writeFields, List.cons_append, List.append_assoc]
    rw [hcut, readMembers_more (hvalue _ fuel (endsValue_cons (by decide) _) (by omega)), hmore]
    rfl

/-! ## Reading what was written -/

theorem readTree_array {fuel : Nat} {cs : List Char} (h : StartsValue cs) :
    readTree (fuel + 1) ('[' :: cs) =
      (readItems fuel cs).map fun (items, r) => (.array items, r) := by
  obtain ⟨c, rest, rfl, hspace, hclose⟩ := h
  rw [readTree, skipSpace_cons (by decide)]
  simp only [skipSpace_cons hspace]
  split
  · rename_i heq
    exact absurd (List.cons_eq_cons.1 heq).1 hclose
  · rfl

theorem readTree_object (fuel : Nat) (key : String) (cs : List Char) :
    readTree (fuel + 1) ('{' :: (writeString key ++ cs)) =
      (readMembers fuel (writeString key ++ cs)).map fun (members, r) => (.object members, r) :=
  rfl

theorem write_array_cons (item : Json) (items : List Json) (rest : List Char) :
    write (.array (item :: items)) ++ rest =
      '[' :: (write item ++ (writeItems items ++ rest)) := by
  simp only [write, List.cons_append, List.append_assoc]

theorem write_object_cons (key : String) (value : Json) (fields : Fields) (rest : List Char) :
    write (.object ((key, value) :: fields)) ++ rest =
      '{' :: (writeString key ++ ':' :: (write value ++ (writeFields fields ++ rest))) := by
  simp only [write, List.cons_append, List.append_assoc]

theorem length_write_pos {v : Json} (hv : v.IsWhole) : 0 < (write v).length := by
  obtain ⟨c, cs, hcs, -⟩ := startsValue_write hv []
  rw [List.append_nil] at hcs
  rw [hcs]
  exact Nat.succ_pos _

/-- Reading a value takes a step at least. -/
theorem readsBack_of_succ {v : Json} (hv : v.IsWhole)
    (h : ∀ (rest : List Char) (fuel : Nat), EndsValue rest → 2 * (write v).length ≤ fuel + 1 →
      readTree (fuel + 1) (write v ++ rest) = some (v.tree, rest)) : ReadsBack v := by
  intro rest fuel hrest hfuel
  have hpos : 0 < (write v).length := length_write_pos hv
  obtain ⟨fuel, rfl⟩ : ∃ n, fuel = n + 1 := ⟨fuel - 1, by omega⟩
  exact h rest fuel hrest hfuel

theorem IsWhole.readsBack {v : Json} (hv : v.IsWhole) : ReadsBack v := by
  -- items and members stand in front of what ends a value, so `ReadsBack` of each is enough
  induction hv with
  | null => exact readsBack_of_succ .null fun _ _ _ _ => rfl
  | bool b =>
    refine readsBack_of_succ (.bool b) fun rest fuel _ _ => ?_
    cases b <;> rfl
  | int fits =>
    exact readsBack_of_succ (.int fits) fun _ fuel hrest _ => readTree_int fits hrest fuel
  | string s =>
    exact readsBack_of_succ (.string s) fun rest fuel _ _ => readTree_string s rest fuel
  | @array items whole ih =>
    refine readsBack_of_succ (.array whole) fun rest fuel _ hfuel => ?_
    cases items with
    | nil => rfl
    | cons item items =>
      simp only [write, List.length_cons, List.length_append] at hfuel
      rw [write_array_cons, readTree_array (startsValue_write (whole item List.mem_cons_self) _),
        readItems_write ih rest (by omega)]
      rfl
  | @object fields whole ih =>
    refine readsBack_of_succ (.object whole) fun rest fuel _ hfuel => ?_
    cases fields with
    | nil => rfl
    | cons field fields =>
      obtain ⟨key, value⟩ := field
      simp only [write, List.length_cons, List.length_append] at hfuel
      rw [write_object_cons, readTree_object, readMembers_write ih rest (by omega)]
      rfl

/-- The text of a value without decimals is read back as the tree of the value. -/
theorem parseTree?_compact {v : Json} (hv : v.IsWhole) : parseTree? v.compact = some v.tree := by
  have hread : readTree (2 * (write v).length + 2) (write v) = some (v.tree, []) := by
    have h := hv.readsBack [] (2 * (write v).length + 2) (fun _ hc => nomatch hc) (by omega)
    rwa [List.append_nil] at h
  rw [parseTree?, compact, String.toList_ofList]
  simp only [hread]
  rfl

end Json
end Inlay
