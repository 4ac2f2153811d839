import Inlay.Json.Value
import Inlay.Proofs.Entries

/-!
# Writing and reading at key paths

A path that is written puts one entry into an object, under its first key; what it puts there
depends on what the object held under this key and on nothing else of it (`setPath_cons`).  Two
paths of which neither is the start of the other agree for some keys and then part (`Diverge`), so
every law is an induction on the keys that they share: where they part, it is a law of entries under
two keys, and before that one of the same entry put in twice.  `setPath_lens_laws` has all of them.
-/

namespace Inlay
namespace Json

variable {key : String} {path p q : List String} {value v w : Json} {fields : Fields}

/-! ## The first key of a path -/

/-- What stands under the first key of a path behind a writing, where `rest` are the other keys of
the path and `old` is what stood there before. -/
def written (rest : List String) (value : Json) (old : Option Json) : Json :=
  match rest with
  | [] => value
  | _ :: _ => .object (setPath rest value (fieldsOrEmpty old))

theorem written_of_ne_nil (h : path ≠ []) (value : Json) (old : Option Json) :
    written path value old = .object (setPath path value (fieldsOrEmpty old)) := by
  cases path with
  | nil => exact absurd rfl h
  | cons key rest => rfl

theorem setPath_cons (key : String) (path : List String) (value : Json) (fields : Fields) :
    setPath (key :: path) value fields =
      Entries.insert key (written path value (Entries.get? key fields)) fields := by
  cases path <;> rfl

theorem get?_setPath_cons_self (key : String) (path : List String) (value : Json)
    (fields : Fields) :
    Entries.get? key (setPath (key :: path) value fields) =
      some (written path value (Entries.get? key fields)) := by
  rw [setPath_cons, Entries.get?_insert_self]

theorem get?_setPath_cons_of_ne {other : String} (h : other ≠ key) (path : List String)
    (value : Json) (fields : Fields) :
    Entries.get? other (setPath (key :: path) value fields) = Entries.get? other fields := by
  rw [setPath_cons, Entries.get?_insert_of_ne h]

theorem get?_setPath_of_head?_ne (h : path.head? ≠ some key) (value : Json) (fields : Fields) :
    Entries.get? key (setPath path value fields) = Entries.get? key fields := by
  cases path with
  | nil => rfl
  | cons first rest =>
    exact get?_setPath_cons_of_ne (fun heq => h (congrArg some heq.symm)) rest value fields

/-- A path of several keys goes on in the object under its first key, and without an object there
it leads to nothing. -/
theorem getPath?_cons (h : path ≠ []) (key : String) (fields : Fields) :
    getPath? (key :: path) fields = getPath? path (fieldsOrEmpty (Entries.get? key fields)) := by
  cases path with
  | nil => exact absurd rfl h
  | cons next rest =>
    rw [getPath?]
    split
    case h_1 inner hinner => rw [hinner]; rfl
    case h_2 hno =>
      have hempty : fieldsOrEmpty (Entries.get? key fields) = [] := by
        unfold fieldsOrEmpty
        split
        case h_1 inner hinner => exact absurd hinner (hno inner)
        case h_2 => rfl
      rw [hempty]
      cases rest <;> rfl

/-- What a path reads hangs on what stands under its first key. -/
theorem getPath?_congr {a b : Fields} (h : Entries.get? key a = Entries.get? key b)
    (path : List String) : getPath? (key :: path) a = getPath? (key :: path) b := by
  by_cases hpath : path = []
  · rw [hpath]
    exact h
  · rw [getPath?_cons hpath, getPath?_cons hpath, h]

/-! ## Paths that part -/

/-- Paths that agree for some keys and then go on with different ones. -/
inductive Diverge : List String → List String → Prop
  | here {a b : String} (h : a ≠ b) (p q : List String) : Diverge (a :: p) (b :: q)
  | behind {p q : List String} (key : String) (h : Diverge p q) : Diverge (key :: p) (key :: q)

theorem diverge_of_not_prefix (hp : ¬ p <+: q) (hq : ¬ q <+: p) : Diverge p q := by
  induction p generalizing q with
  | nil => exact absurd List.nil_prefix hp
  | cons a p ih =>
    cases q with
    | nil => exact absurd List.nil_prefix hq
    | cons b q =>
      by_cases h : a = b
      · subst h
        rw [List.prefix_cons_inj] at hp hq
        exact .behind a (ih hp hq)
      · exact .here h p q

theorem Diverge.ne_nil (h : Diverge p q) : p ≠ [] ∧ q ≠ [] := by
  cases h <;> exact ⟨List.cons_ne_nil _ _, List.cons_ne_nil _ _⟩

/-! ## The laws -/

theorem getPath?_setPath_self (h : path ≠ []) (value : Json) (fields : Fields) :
    getPath? path (setPath path value fields) = some value := by
  induction path generalizing fields with
  | nil => exact absurd rfl h
  | cons key rest ih =>
    by_cases hrest : rest = []
    · rw [hrest]
      exact get?_setPath_cons_self key [] value fields
    · rw [getPath?_cons hrest, get?_setPath_cons_self, written_of_ne_nil hrest]
      exact ih hrest _

theorem getPath?_setPath_of_diverge (h : Diverge p q) (value : Json) (fields : Fields) :
    getPath? q (setPath p value fields) = getPath? q fields := by
  induction h generalizing fields with
  | here hne p q =>
    exact getPath?_congr (get?_setPath_cons_of_ne hne.symm p value fields) q
  | behind key h ih =>
    obtain ⟨hp, hq⟩ := h.ne_nil
    rw [getPath?_cons hq, getPath?_cons hq, get?_setPath_cons_self, written_of_ne_nil hp]
    exact ih _

theorem setPath_setPath (path : List String) (w v : Json) (fields : Fields) :
    setPath path w (setPath path v fields) = setPath path w fields := by
  induction path generalizing fields with
  | nil => rfl
  | cons key rest ih =>
    have hvalue : written rest w (some (written rest v (Entries.get? key fields))) =
        written rest w (Entries.get? key fields) := by
      by_cases hrest : rest = []
      · rw [hrest]
        rfl
      · rw [written_of_ne_nil hrest, written_of_ne_nil hrest, written_of_ne_nil hrest]
        exact congrArg Json.object (ih _)
    rw [setPath_cons, get?_setPath_cons_self, hvalue, setPath_cons, Entries.insert_insert,
      ← setPath_cons]

theorem setPath_comm (h : Diverge p q) (v w : Json) (fields : Fields) :
    setPath q w (setPath p v fields) = setPath p v (setPath q w fields) := by
  induction h generalizing fields with
  | @here a b hne p q =>
    -- Each of the two finds under its own key what was there before the other.
    have ha : Entries.get? a (setPath (b :: q) w fields) = Entries.get? a fields :=
      get?_setPath_cons_of_ne hne q w fields
    have hb : Entries.get? b (setPath (a :: p) v fields) = Entries.get? b fields :=
      get?_setPath_cons_of_ne hne.symm p v fields
    rw [setPath_cons b, setPath_cons a p v (setPath _ _ _), ha, hb, setPath_cons, setPath_cons,
      Entries.insert_comm hne.symm]
  | @behind p q key h ih =>
    -- Both put in the same entry, so what counts is the object that they leave in it.
    obtain ⟨hp, hq⟩ := h.ne_nil
    have hvalue : written q w (some (written p v (Entries.get? key fields))) =
        written p v (some (written q w (Entries.get? key fields))) := by
      rw [written_of_ne_nil hq, written_of_ne_nil hp, written_of_ne_nil hp, written_of_ne_nil hq]
      exact congrArg Json.object (ih _)
    rw [setPath_cons key q, get?_setPath_cons_self, setPath_cons key p v (setPath _ _ _),
      get?_setPath_cons_self, hvalue, setPath_cons, setPath_cons, Entries.insert_insert,
      Entries.insert_insert]

/-- A path reads what was written at it, also where something that is no object had to give way.
Two paths of which neither is the start of the other do not see each other, and may be written in
either order.  Of two values at one path the later one stays, keys other than the first of the path
keep what they have, and the empty path writes nothing. -/
theorem setPath_lens_laws (p q : List String) (v w : Json) (fields : Fields) (hp : p ≠ []) :
    getPath? p (setPath p v fields) = some v ∧
    (¬ p <+: q → ¬ q <+: p →
      getPath? q (setPath p v fields) = getPath? q fields ∧
      setPath q w (setPath p v fields) = setPath p v (setPath q w fields)) ∧
    setPath p w (setPath p v fields) = setPath p w fields ∧
    (∀ key, p.head? ≠ some key →
      Entries.get? key (setPath p v fields) = Entries.get? key fields) ∧
    setPath [] v fields = fields := by
  refine ⟨getPath?_setPath_self hp v fields, ?_, setPath_setPath p w v fields, ?_,
    setPath_nil v fields⟩
  · intro hpq hqp
    have h := diverge_of_not_prefix hpq hqp
    exact ⟨getPath?_setPath_of_diverge h v fields, setPath_comm h v w fields⟩
  · exact fun key hkey => get?_setPath_of_head?_ne hkey v fields

/-- A number gives way to an object, the entry beside it stays, and the order does not matter. -/
theorem setPath_lens_laws_number_gives_way :
    let fields : Fields :=
      [("css", .object [("plugins", .object [("nested", .bool true)]), ("target", nat 5)]),
        ("map", .bool false)]
    let p := ["css", "target", "browsers"]
    let q := ["css", "plugins", "nested"]
    p ≠ [] ∧ ¬ p <+: q ∧ ¬ q <+: p ∧
      getPath? ["css", "target"] fields = some (nat 5) ∧
      getPath? p (setPath p (.string "all") fields) = some (.string "all") ∧
      getPath? q (setPath p (.string "all") fields) = some (.bool true) ∧
      setPath q .null (setPath p (.string "all") fields) =
        setPath p (.string "all") (setPath q .null fields) := by
  intro fields p q
  have hpq : ¬ p <+: q := by decide
  have hqp : ¬ q <+: p := by decide
  have hp : p ≠ [] := List.cons_ne_nil _ _
  obtain ⟨hself, hapart, -⟩ := setPath_lens_laws p q (.string "all") .null fields hp
  obtain ⟨hframe, hcomm⟩ := hapart hpq hqp
  exact ⟨hp, hpq, hqp, rfl, hself, hframe, hcomm⟩

end Json
end Inlay
