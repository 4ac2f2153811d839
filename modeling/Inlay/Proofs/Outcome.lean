import Mathlib.Data.List.Forall2

/-!
# Opening computations that may fail
-/

namespace Inlay

variable {ε α β : Type}

/-- Two steps succeed when both do. -/
theorem bind_eq_ok_iff {first : Except ε α} {next : α → Except ε β} {result : β} :
    first >>= next = .ok result ↔ ∃ value, first = .ok value ∧ next value = .ok result := by
  cases first with
  | error cause => simp [bind, Except.bind]
  | ok value => simp [bind, Except.bind]

/-- Two steps fail when the first does, or else the second. -/
theorem bind_eq_error_iff {first : Except ε α} {next : α → Except ε β} {cause : ε} :
    first >>= next = .error cause ↔
      first = .error cause ∨ ∃ value, first = .ok value ∧ next value = .error cause := by
  cases first with
  | error cause => simp [bind, Except.bind]
  | ok value => simp [bind, Except.bind]

/-- A list of steps succeeds when all of them do, and gives what they give. -/
theorem mapM_eq_some_iff {step : α → Option β} {items : List α} {results : List β} :
    items.mapM step = some results ↔
      List.Forall₂ (fun item result => step item = some result) items results := by
  induction items generalizing results with
  | nil => simp [List.mapM_nil, eq_comm]
  | cons item items ih =>
    rw [List.mapM_cons, List.forall₂_cons_left_iff]
    simp only [Option.bind_eq_bind, Option.bind_eq_some_iff, Option.pure_def, Option.some.injEq, ih]
    constructor
    · intro h
      obtain ⟨result, hitem, rest, hrest, rfl⟩ := h
      exact ⟨result, rest, hitem, hrest, rfl⟩
    · intro h
      obtain ⟨result, rest, hitem, hrest, rfl⟩ := h
      exact ⟨result, hitem, rest, hrest, rfl⟩

/-- The same of steps that give an error where they fail. -/
theorem mapM_eq_ok_iff {step : α → Except ε β} {items : List α} {results : List β} :
    items.mapM step = .ok results ↔
      List.Forall₂ (fun item result => step item = .ok result) items results := by
  induction items generalizing results with
  | nil => simp [List.mapM_nil, pure, Except.pure, eq_comm]
  | cons item items ih =>
    rw [List.mapM_cons, List.forall₂_cons_left_iff]
    simp only [bind_eq_ok_iff, ih]
    constructor
    · intro h
      obtain ⟨result, hitem, rest, hrest, hresults⟩ := h
      obtain rfl := Except.ok.inj hresults
      exact ⟨result, rest, hitem, hrest, rfl⟩
    · intro h
      obtain ⟨result, rest, hitem, hrest, rfl⟩ := h
      exact ⟨result, hitem, rest, hrest, rfl⟩

/-- A list of steps fails with the first error: all steps in front of the failing one succeed. -/
theorem mapM_eq_error_iff {step : α → Except ε β} {items : List α} {cause : ε} :
    items.mapM step = .error cause ↔
      ∃ good bad rest, items = good ++ bad :: rest ∧
        (∀ item ∈ good, ∃ result, step item = .ok result) ∧ step bad = .error cause := by
  induction items with
  | nil => simp [List.mapM_nil, pure, Except.pure]
  | cons item items ih =>
    have hcons : (item :: items).mapM step = .error cause ↔
        step item = .error cause ∨
          ∃ result, step item = .ok result ∧ items.mapM step = .error cause := by
      rw [List.mapM_cons, bind_eq_error_iff]
      cases items.mapM step <;> simp [bind, Except.bind, pure, Except.pure]
    rw [hcons, ih]
    constructor
    · rintro (hitem | ⟨result, hitem, good, bad, rest, rfl, hgood, hbad⟩)
      · exact ⟨[], item, items, rfl, List.forall_mem_nil _, hitem⟩
      · exact ⟨item :: good, bad, rest, rfl, List.forall_mem_cons.2 ⟨⟨result, hitem⟩, hgood⟩, hbad⟩
    · rintro ⟨good, bad, rest, hitems, hgood, hbad⟩
      cases good with
      | nil =>
        obtain ⟨rfl, rfl⟩ := List.cons.inj hitems
        exact .inl hbad
      | cons first good =>
        obtain ⟨rfl, rfl⟩ := List.cons.inj hitems
        obtain ⟨⟨result, hitem⟩, hgood⟩ := List.forall_mem_cons.1 hgood
        exact .inr ⟨result, hitem, good, bad, rest, rfl, hgood, hbad⟩

@[simp] theorem ok_bind (value : α) (next : α → Except ε β) :
    (Except.ok value : Except ε α) >>= next = next value := rfl

@[simp] theorem pure_eq_ok (value : α) : (pure value : Except ε α) = .ok value := rfl

end Inlay
