import Inlay.Proofs.Outcome
import Inlay.Stage.Trace

/-!
# Opening runs

A step behind another one succeeds when both do, and its events are those of the first with those
of the second behind them (`andThen_eq_ok_iff`).  A failure of the first step is the outcome of
both.
-/

namespace Inlay

namespace Run

variable {ε α β : Type}

/-- A run that succeeds is known by its events and its value. -/
theorem eq_of_outcome {run : Run ε α} {value : α} (h : run.outcome = .ok value) :
    run = ⟨run.events, .ok value⟩ := by
  obtain ⟨events, outcome⟩ := run
  subst h
  rfl

theorem andThen_eq_ok_iff {first : Run ε α} {next : α → Run ε β} {events : List ε} {result : β} :
    first.andThen next = ⟨events, .ok result⟩ ↔
      ∃ before value behind, first = ⟨before, .ok value⟩ ∧ next value = ⟨behind, .ok result⟩ ∧
        events = before ++ behind := by
  obtain ⟨before, outcome⟩ := first
  cases outcome with
  | error cause => simp [andThen]
  | ok value =>
    constructor
    · intro h
      simp only [andThen, mk.injEq] at h
      exact ⟨before, value, (next value).events, rfl, eq_of_outcome h.2, h.1.symm⟩
    · intro h
      obtain ⟨_, _, behind, hfirst, hnext, rfl⟩ := h
      simp only [mk.injEq, Except.ok.injEq] at hfirst
      obtain ⟨rfl, rfl⟩ := hfirst
      simp only [andThen, hnext]

theorem outcome_andThen_of_ok {first : Run ε α} {next : α → Run ε β} {value : α}
    (h : first.outcome = .ok value) : (first.andThen next).outcome = (next value).outcome := by
  rw [andThen, h]

theorem outcome_andThen_of_error {first : Run ε α} {next : α → Run ε β} {cause : Failure}
    (h : first.outcome = .error cause) : (first.andThen next).outcome = .error cause := by
  rw [andThen, h]

theorem events_andThen_of_ok {first : Run ε α} {next : α → Run ε β} {value : α}
    (h : first.outcome = .ok value) :
    (first.andThen next).events = first.events ++ (next value).events := by
  rw [andThen, h]

theorem events_andThen_of_error {first : Run ε α} {next : α → Run ε β} {cause : Failure}
    (h : first.outcome = .error cause) : (first.andThen next).events = first.events := by
  rw [andThen, h]

theorem andThen_congr {first : Run ε α} {next next' : α → Run ε β}
    (h : ∀ value, first.outcome = .ok value → next value = next' value) :
    first.andThen next = first.andThen next' := by
  cases hfirst : first.outcome with
  | error cause => simp only [andThen, hfirst]
  | ok value => simp only [andThen, hfirst, h value hfirst]

theorem events_andThen_ofExcept (run : Run ε α) (f : α → Except Failure β) :
    (run.andThen fun value => .ofExcept (f value)).events = run.events := by
  cases h : run.outcome with
  | error cause => exact events_andThen_of_error h
  | ok value => rw [events_andThen_of_ok h, ofExcept, List.append_nil]

theorem outcome_andThen_ofExcept (run : Run ε α) (f : α → Except Failure β) :
    (run.andThen fun value => .ofExcept (f value)).outcome = run.outcome.bind f := by
  cases h : run.outcome with
  | error cause => exact outcome_andThen_of_error h
  | ok value => exact outcome_andThen_of_ok h

theorem events_andThen_done (run : Run ε α) (f : α → β) :
    (run.andThen fun value => .done (f value)).events = run.events :=
  run.events_andThen_ofExcept fun value => .ok (f value)

theorem outcome_andThen_done (run : Run ε α) (f : α → β) :
    (run.andThen fun value => .done (f value)).outcome = run.outcome.map f := by
  cases h : run.outcome with
  | error cause => exact outcome_andThen_of_error h
  | ok value => exact outcome_andThen_of_ok h

theorem done_eq_ok_iff {value result : α} {events : List ε} :
    (done value : Run ε α) = ⟨events, .ok result⟩ ↔ events = [] ∧ value = result := by
  simp [done, eq_comm]

@[simp] theorem ofExcept_ok (value : α) : (ofExcept (.ok value) : Run ε α) = done value := rfl

end Run
end Inlay
