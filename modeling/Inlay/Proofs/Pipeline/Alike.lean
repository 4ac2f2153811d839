import Inlay.Proofs.Pipeline.Folding
import Inlay.Proofs.Options.Resolution
import Mathlib.Data.List.Forall2

/-!
# Runs that differ in the attributes only

Two runs are alike when they make the same calls, up to the attributes that are passed, and nothing
but the answer to a call sets them apart (`Run.Alike`).  Steps that are alike make up runs that are
alike (`Run.Alike.andThen`).  Transformers that ignore the attributes never set two runs apart, so
then both come to the same result (`Run.Alike.agree`).
-/

namespace Inlay

/-! ## Calls that differ in the attributes only -/

/-- An input that differs from another one in nothing but the attributes. -/
def StageInput.Like (a b : StageInput) : Prop :=
  ∃ attributes, b = { a with attributes }

theorem StageInput.Like.refl (input : StageInput) : input.Like input := ⟨input.attributes, rfl⟩

/-- A transformer that gives the same result whatever the attributes are. -/
def Transformer.IgnoresAttributes (t : Transformer) : Prop :=
  ∀ a b : StageInput, a.Like b → t a = t b

/-- A transformer that stages can call: one that is registered, or a function that a setting puts in
place of one. -/
def Preprocessor.Offers (p : Preprocessor) (t : Transformer) : Prop :=
  (∃ name kind, p.workshop.find? name = some (kind, t)) ∨
    ∃ name, p.resolver.settings.get? name = some (.override t)

/-- Two calls of one transformer with inputs that differ in the attributes only. -/
structure Call.Alike (p : Preprocessor) (a b : Call) : Prop where
  callee : a.callee = b.callee
  input : a.input.Like b.input
  answered : ∃ t, p.Offers t ∧ a.result = t a.input ∧ b.result = t b.input

/-- Two events that are calls alike, or the same warning. -/
inductive Event.Alike (p : Preprocessor) : Event → Event → Prop
  | called {a b : Call} (h : a.Alike p b) : Alike p (.called a) (.called b)
  | warned (warning : Warning) : Alike p (.warned warning) (.warned warning)

/-! ## Runs that are alike -/

namespace Run

variable {p : Preprocessor} {α β : Type}

theorem events_prefix_andThen (first : Run Event α) (next : α → Run Event β) :
    first.events <+: (first.andThen next).events := by
  cases h : first.outcome with
  | error cause =>
    have hevents : (first.andThen next).events = first.events := events_andThen_of_error h
    exact hevents ▸ List.prefix_refl _
  | ok value =>
    have hevents : (first.andThen next).events = first.events ++ (next value).events :=
      events_andThen_of_ok h
    exact hevents ▸ List.prefix_append _ _

/-- Two runs whose events are alike and whose outcome is the same, or that are alike up to a call
that comes to something else in one than in the other. -/
inductive Alike (p : Preprocessor) (run run' : Run Event α) : Prop
  | same (events : List.Forall₂ (Event.Alike p) run.events run'.events)
      (outcome : run.outcome = run'.outcome)
  | parted {before before' : List Event} {call call' : Call}
      (reached : before ++ [.called call] <+: run.events)
      (reached' : before' ++ [.called call'] <+: run'.events)
      (events : List.Forall₂ (Event.Alike p) before before') (calls : call.Alike p call')
      (results : call.result.outcome ≠ call'.result.outcome)

theorem Alike.quiet {run run' : Run Event α} (h : run.events = []) (h' : run'.events = [])
    (outcome : run.outcome = run'.outcome) : run.Alike p run' :=
  .same (by rw [h, h']; exact .nil) outcome

theorem Alike.done (value : α) : (Run.done value : Run Event α).Alike p (.done value) :=
  .quiet rfl rfl rfl

theorem Alike.andThen {first first' : Run Event α} {next next' : α → Run Event β}
    (h : first.Alike p first') (hnext : ∀ value, (next value).Alike p (next' value)) :
    (first.andThen next).Alike p (first'.andThen next') := by
  cases h with
  | parted reached reached' events calls results =>
    exact .parted (reached.trans (events_prefix_andThen first next))
      (reached'.trans (events_prefix_andThen first' next')) events calls results
  | same events outcome =>
    cases hfirst : first.outcome with
    | error cause =>
      have hfirst' : first'.outcome = .error cause := outcome ▸ hfirst
      refine .same ?_ ?_
      · rw [events_andThen_of_error hfirst, events_andThen_of_error hfirst']
        exact events
      · rw [outcome_andThen_of_error hfirst, outcome_andThen_of_error hfirst']
    | ok value =>
      have hfirst' : first'.outcome = .ok value := outcome ▸ hfirst
      have hevents : (first.andThen next).events = _ := events_andThen_of_ok hfirst
      have hevents' : (first'.andThen next').events = _ := events_andThen_of_ok hfirst'
      cases hnext value with
      | same behind result =>
        refine .same ?_ ?_
        · rw [hevents, hevents']
          exact List.rel_append events behind
        · rw [outcome_andThen_of_ok hfirst, outcome_andThen_of_ok hfirst', result]
      | parted reached reached' behind calls results =>
        refine .parted ?_ ?_ (List.rel_append events behind) calls results
        · rw [hevents, List.append_assoc]
          exact (List.prefix_append_right_inj _).2 reached
        · rw [hevents', List.append_assoc]
          exact (List.prefix_append_right_inj _).2 reached'

/-- Transformers that ignore the attributes do not set runs apart. -/
theorem Alike.agree {run run' : Run Event α} (h : run.Alike p run')
    (hignore : ∀ t, p.Offers t → t.IgnoresAttributes) :
    List.Forall₂ (Event.Alike p) run.events run'.events ∧ run.outcome = run'.outcome := by
  cases h with
  | same events outcome => exact ⟨events, outcome⟩
  | parted _ _ _ calls results =>
    obtain ⟨t, hoffers, hresult, hresult'⟩ := calls.answered
    refine absurd ?_ results
    rw [hresult, hresult', hignore t hoffers _ _ calls.input]

theorem alike_call {t : Transformer} (hoffers : p.Offers t) (callee : Callee)
    {input input' : StageInput} (hlike : input.Like input') :
    (Run.call callee t input).Alike p (Run.call callee t input') := by
  have hcalls : Call.Alike p ⟨callee, input, t input⟩ ⟨callee, input', t input'⟩ :=
    ⟨rfl, hlike, t, hoffers, rfl, rfl⟩
  by_cases hresults : (t input).outcome = (t input').outcome
  · exact .same (.cons (.called hcalls) .nil) hresults
  · exact .parted (List.prefix_refl _) (List.prefix_refl _) .nil hcalls hresults

end Run

/-! ## Stages -/

namespace Preprocessor

variable {p : Preprocessor}

/-- Options whose function, if they have one, is that of a setting. -/
def Resolves (p : Preprocessor) (options : ResolvedOptions) : Prop :=
  ∀ setting function, options = .override setting function → p.Offers function

theorem resolves_resolve (p : Preprocessor) (language : String) (written : Option String)
    (ignoreWritten : Bool) : p.Resolves (p.resolver.resolve language written ignoreWritten) :=
  fun _ _ h => .inr ⟨_, Resolver.setting_of_resolve h⟩

theorem runStage_alike {options : ResolvedOptions} (hoptions : p.Resolves options) (stage : String)
    {input input' : StageInput} (hlike : input.Like input') :
    (p.runStage stage options input).Alike p (p.runStage stage options input') := by
  obtain ⟨attributes, rfl⟩ := hlike
  cases options with
  | disabled => exact .quiet rfl rfl rfl
  | override setting function =>
    exact Run.alike_call (hoptions setting function rfl) _ ⟨attributes, rfl⟩
  | options value =>
    cases hfind : p.workshop.find? stage with
    | none =>
      simp only [runStage, hfind]
      exact .quiet rfl rfl rfl
    | some found =>
      simp only [runStage, hfind]
      exact Run.alike_call (.inl ⟨stage, found.1, hfind⟩) _ ⟨attributes, rfl⟩

theorem laterStage_alike {options : ResolvedOptions} (hoptions : p.Resolves options)
    (stage : String) {block block' : Block} (hmarkup : block.markup = block'.markup)
    (hfilename : block.filename = block'.filename) (acc : Accumulator)
    (attributes attributes' : Attributes) :
    (p.laterStage stage options block acc attributes).Alike p
      (p.laterStage stage options block' acc attributes') := by
  refine (runStage_alike hoptions stage ⟨attributes', ?_⟩).andThen fun output => ?_
  · rw [laterInput, laterInput, hmarkup, hfilename]
  · rw [absorb]
    cases acc.absorb output <;> exact .quiet rfl rfl rfl

end Preprocessor
end Inlay
