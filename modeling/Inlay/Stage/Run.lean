import Inlay.Stage.Failure

/-!
Computations that leave a trace.

A run is an outcome and the list of events that led to it.  A failure ends a run and keeps the
events before it.  Events of a later step stand behind those of an earlier one, and steps may be
grouped either way (`andThen_assoc`).
-/

namespace Inlay

/-- An outcome and the events that led to it. -/
structure Run (ε α : Type) where
  events : List ε
  outcome : Except Failure α

namespace Run

variable {ε α β γ : Type}

def done (value : α) : Run ε α := ⟨[], .ok value⟩

def fail (cause : Failure) : Run ε α := ⟨[], .error cause⟩

def emit (event : ε) : Run ε Unit := ⟨[event], .ok ()⟩

/-- The run of a computation without events. -/
def ofExcept (outcome : Except Failure α) : Run ε α := ⟨[], outcome⟩

/-- Goes on with the value of a run; a run that failed stays as it is. -/
def andThen (first : Run ε α) (next : α → Run ε β) : Run ε β :=
  match first.outcome with
  | .ok value => ⟨first.events ++ (next value).events, (next value).outcome⟩
  | .error cause => ⟨first.events, .error cause⟩

instance : Monad (Run ε) where
  pure := done
  bind := andThen

@[simp] theorem pure_eq (value : α) : (pure value : Run ε α) = done value := rfl

@[simp] theorem bind_eq (first : Run ε α) (next : α → Run ε β) :
    first >>= next = first.andThen next := rfl

@[simp] theorem done_andThen (value : α) (next : α → Run ε β) :
    (done value).andThen next = next value := rfl

@[simp] theorem fail_andThen (cause : Failure) (next : α → Run ε β) :
    (fail cause).andThen next = fail cause := rfl

theorem andThen_assoc (first : Run ε α) (next : α → Run ε β) (last : β → Run ε γ) :
    (first.andThen next).andThen last = first.andThen fun value => (next value).andThen last := by
  obtain ⟨events, outcome⟩ := first
  cases outcome with
  | error cause => rfl
  | ok value =>
    simp only [andThen]
    cases (next value).outcome with
    | error cause => rfl
    | ok result => simp only [List.append_assoc]

end Run
end Inlay
