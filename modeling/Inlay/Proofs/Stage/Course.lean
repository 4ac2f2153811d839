import Inlay.Proofs.Stage.Run
import Inlay.SourceMap.Chain

/-!
# Courses of runs

A course lists the ways in which a run can go, by the calls that it makes and what comes of it.  The
course of two steps is made up of theirs (`Run.Takes.andThen`), and what holds of the calls of each
step holds of the calls of both.  `HandsOn` is the course in which every call is given what the
calls before it left: what one step hands on, the next one takes up (`HandsOn.append`).
-/

namespace Inlay

/-- The ways in which a run can go: the calls that it makes and what comes of it. -/
abbrev Course (α : Type) := List Call → Except Failure α → Prop

/-- A run that goes in one of some ways. -/
def Run.Takes {α : Type} (run : Run Event α) (course : Course α) : Prop :=
  course (Event.calls run.events) run.outcome

/-- The ways in which a run can go that continues with the value of a first one. -/
inductive Course.AndThen {α β : Type} (first : Course α) (next : α → Course β) : Course β
  | failed {calls : List Call} {cause : Failure} (failure : first calls (.error cause)) :
      AndThen first next calls (.error cause)
  | passed {calls behind : List Call} {value : α} {outcome : Except Failure β}
      (success : first calls (.ok value)) (rest : next value behind outcome) :
      AndThen first next (calls ++ behind) outcome

/-- The ways in which a run can go whose value is put through a function. -/
def Course.map {α β : Type} (f : α → β) (course : Course α) : Course β :=
  fun calls outcome => ∃ result, course calls result ∧ outcome = result.map f

theorem Run.Takes.andThen {α β : Type} {first : Run Event α} {next : α → Run Event β}
    {course : Course α} {behind : α → Course β} (h : first.Takes course)
    (hnext : ∀ value, (next value).Takes (behind value)) :
    (first.andThen next).Takes (course.AndThen behind) := by
  unfold Takes at *
  cases hfirst : first.outcome with
  | error cause =>
    rw [events_andThen_of_error hfirst, outcome_andThen_of_error hfirst]
    exact .failed (hfirst ▸ h)
  | ok value =>
    rw [events_andThen_of_ok hfirst, outcome_andThen_of_ok hfirst, Event.calls_append]
    exact .passed (hfirst ▸ h) (hnext value)

theorem Run.Takes.thenExcept {α β : Type} {run : Run Event α} {course : Course α}
    {course' : Course β} {f : α → Except Failure β} (h : run.Takes course)
    (hcourse : ∀ calls outcome, course calls outcome → course' calls (outcome.bind f)) :
    (run.andThen fun value => .ofExcept (f value)).Takes course' := by
  rw [Takes, events_andThen_ofExcept, outcome_andThen_ofExcept]
  exact hcourse _ _ h

theorem Run.Takes.map {α β : Type} {run : Run Event α} {course : Course α} {course' : Course β}
    {f : α → β} (h : run.Takes course)
    (hcourse : ∀ calls outcome, course calls outcome → course' calls (outcome.map f)) :
    (run.andThen fun value => .done (f value)).Takes course' := by
  rw [Takes, events_andThen_done, outcome_andThen_done]
  exact hcourse _ _ h

namespace Course

variable {α β : Type} {first : Course α} {next : α → Course β} {calls : List Call}
  {outcome : Except Failure β}

theorem AndThen.length_le {m n : Nat}
    (hfirst : ∀ {calls outcome}, first calls outcome → calls.length ≤ m)
    (hnext : ∀ {value calls outcome}, next value calls outcome → calls.length ≤ n)
    (h : AndThen first next calls outcome) : calls.length ≤ m + n := by
  cases h with
  | failed failure => exact Nat.le_add_right_of_le (hfirst failure)
  | passed success rest =>
    rw [List.length_append]
    exact Nat.add_le_add (hfirst success) (hnext rest)

theorem AndThen.forall_mem {P : Call → Prop}
    (hfirst : ∀ {calls outcome}, first calls outcome → ∀ call ∈ calls, P call)
    (hnext : ∀ {value calls outcome}, next value calls outcome → ∀ call ∈ calls, P call)
    (h : AndThen first next calls outcome) : ∀ call ∈ calls, P call := by
  cases h with
  | failed failure => exact hfirst failure
  | passed success rest =>
    intro call hmem
    exact (List.mem_append.1 hmem).elim (hfirst success call) (hnext rest call)

end Course

/-! ## Handing on -/

/-- Calls that hand code and a map on.  Each call is given the code that the one before it gave and
the map that was chained from all before it; the first one is given some code and map to start
with.  A call that fails, or whose map cannot be chained, is the last one.  What comes of the calls
is the code and map that a further call would be given. -/
inductive HandsOn : String → Option SourceMap → List Call →
    Except Failure (String × Option SourceMap) → Prop
  | reached (code : String) (map : Option SourceMap) : HandsOn code map [] (.ok (code, map))
  | missing {code : String} {map : Option SourceMap} (stage : String) :
      HandsOn code map [] (.error (.missingTransformer stage))
  | failed {code : String} {map : Option SourceMap} {call : Call} {cause : Failure}
      (content : call.input.content = code) (carried : call.input.map = map)
      (failure : call.result.outcome = .error cause) : HandsOn code map [call] (.error cause)
  | unchained {code : String} {map : Option SourceMap} {call : Call} {output : Output}
      {indentation : Nat} {cause : MapError}
      (content : call.input.content = code) (carried : call.input.map = map)
      (gave : call.result.outcome = .ok output)
      (chain : SourceMap.chain map (output.map.map .map) indentation = .error cause) :
      HandsOn code map [call] (.error (.sourceMap cause))
  | called {code : String} {map next : Option SourceMap} {call : Call} {output : Output}
      {indentation : Nat} {calls : List Call} {reached : Except Failure (String × Option SourceMap)}
      (content : call.input.content = code) (carried : call.input.map = map)
      (gave : call.result.outcome = .ok output)
      (chain : SourceMap.chain map (output.map.map .map) indentation = .ok next)
      (rest : HandsOn output.code next calls reached) : HandsOn code map (call :: calls) reached

theorem HandsOn.append {code mid : String} {map carried : Option SourceMap}
    {calls behind : List Call} {reached : Except Failure (String × Option SourceMap)}
    (h : HandsOn code map calls (.ok (mid, carried)))
    (hbehind : HandsOn mid carried behind reached) :
    HandsOn code map (calls ++ behind) reached := by
  -- By induction on the first calls: only those that did not fail leave anything to go on with.
  generalize hend : (Except.ok (mid, carried) : Except Failure _) = first at h
  induction h with
  | reached code map =>
    cases hend
    exact hbehind
  | missing | failed | unchained => cases hend
  | called content carried gave chain _ ih => exact .called content carried gave chain (ih hend)

/-- The first call is given what there is to start with. -/
theorem HandsOn.head {code : String} {map : Option SourceMap} {calls : List Call}
    {reached : Except Failure (String × Option SourceMap)} (h : HandsOn code map calls reached) :
    ∀ call ∈ calls.head?, call.input.content = code ∧ call.input.map = map := by
  intro first hfirst
  cases h with
  | reached | missing => cases hfirst
  | failed content carried | unchained content carried | called content carried =>
    obtain rfl := Option.some.inj hfirst
    exact ⟨content, carried⟩

theorem Course.AndThen.handsOn {α β : Type} {first : Course α} {next : α → Course β}
    {code : String} {map : Option SourceMap} {view : α → String × Option SourceMap}
    {view' : β → String × Option SourceMap} {calls : List Call} {outcome : Except Failure β}
    (hfirst : ∀ {calls outcome}, first calls outcome → HandsOn code map calls (outcome.map view))
    (hnext : ∀ {value calls outcome}, next value calls outcome →
      HandsOn (view value).1 (view value).2 calls (outcome.map view'))
    (h : AndThen first next calls outcome) : HandsOn code map calls (outcome.map view') := by
  cases h with
  | failed failure => exact hfirst failure
  | passed success rest => exact (hfirst success).append (hnext rest)

end Inlay
