import Inlay.Pipeline.Blocks
import Inlay.Proofs.Outcome

/-!
# Folding results of stages in

`absorb_eq_ok_iff` says all that one step does; it fails only where the maps cannot be chained.
What every step preserves, a run of steps preserves (`absorbAll_preserves`), what every step appends
to a list, a run appends one after the other (`append_absorbAll`), and what every step replaces if
its stage has something to put there, a run leaves as the last of its stages had it
(`last_absorbAll`).

The maps of a run are chained from the left (`map_absorbAll`), and the indentation that is pending
goes into the first step of that chain.  So a run behind a first stage is known by the results of
the stages alone: `absorbAll_accumulates` says what it gives and when it fails.
-/

namespace Inlay

/-- Chains maps from the left.  The first step moves the original columns by `indentation`, and no
other step moves them. -/
def SourceMap.chainAll (map : Option SourceMap) (indentation : Nat) :
    List SourceMap → Except MapError (Option SourceMap)
  | [] => .ok map
  | later :: rest => do
    let chained ← chain map (some (.map later)) indentation
    chainAll chained 0 rest

namespace Accumulator

variable {acc next : Accumulator} {stage : Output} {stages behind : List Output}

theorem absorb_eq_ok_iff :
    acc.absorb stage = .ok next ↔
      ∃ map, SourceMap.chain acc.map (stage.map.map .map) acc.pendingIndentation = .ok map ∧
        next =
          { code := stage.code, map
            dependencies := acc.dependencies ++ stage.dependencies
            diagnostics := acc.diagnostics ++ stage.diagnostics
            attributes := if stage.attributes.isSome then stage.attributes else acc.attributes
            pendingIndentation := if stage.map.isSome then 0 else acc.pendingIndentation } := by
  rw [absorb, bind_eq_ok_iff]
  simp only [pure_eq_ok, Except.ok.injEq, eq_comm]

theorem absorb_eq_error_iff {cause : MapError} :
    acc.absorb stage = .error cause ↔
      SourceMap.chain acc.map (stage.map.map .map) acc.pendingIndentation = .error cause := by
  rw [absorb]
  cases SourceMap.chain acc.map (stage.map.map .map) acc.pendingIndentation with
  | error cause => simp [bind, Except.bind]
  | ok map => simp

/-- A stage that passes the code on changes nothing. -/
theorem absorb_ofCode (acc : Accumulator) : acc.absorb (.ofCode acc.code) = .ok acc := by
  rw [absorb_eq_ok_iff]
  exact ⟨acc.map, rfl, by simp [Output.ofCode]⟩

theorem absorbAll_nil : acc.absorbAll [] = .ok acc := rfl

theorem absorbAll_cons :
    acc.absorbAll (stage :: stages) = acc.absorb stage >>= fun mid => mid.absorbAll stages := by
  rw [absorbAll, List.foldlM_cons]
  rfl

theorem absorbAll_cons_eq_ok_iff :
    acc.absorbAll (stage :: stages) = .ok next ↔
      ∃ mid, acc.absorb stage = .ok mid ∧ mid.absorbAll stages = .ok next := by
  rw [absorbAll_cons, bind_eq_ok_iff]

theorem absorbAll_append_eq_ok_iff :
    acc.absorbAll (stages ++ behind) = .ok next ↔
      ∃ mid, acc.absorbAll stages = .ok mid ∧ mid.absorbAll behind = .ok next := by
  rw [absorbAll, List.foldlM_append, bind_eq_ok_iff]
  rfl

theorem absorbAll_singleton : acc.absorbAll [stage] = acc.absorb stage := by
  rw [absorbAll_cons]
  cases acc.absorb stage <;> rfl

theorem absorbAll_preserves {invariant : Accumulator → Prop}
    (hstep : ∀ {acc stage next}, invariant acc → absorb acc stage = .ok next → invariant next)
    (hacc : invariant acc) (h : acc.absorbAll stages = .ok next) : invariant next := by
  induction stages generalizing acc with
  | nil =>
    obtain rfl := Except.ok.inj (absorbAll_nil.symm.trans h)
    exact hacc
  | cons stage stages ih =>
    obtain ⟨mid, hmid, hrest⟩ := absorbAll_cons_eq_ok_iff.1 h
    exact ih (hstep hacc hmid) hrest

theorem append_absorbAll {α : Type} {field : Accumulator → List α} {collect : Output → List α}
    (hstep : ∀ {acc stage next}, absorb acc stage = .ok next →
      field next = field acc ++ collect stage)
    (h : acc.absorbAll stages = .ok next) :
    field next = field acc ++ stages.flatMap collect := by
  induction stages generalizing acc with
  | nil =>
    obtain rfl := Except.ok.inj (absorbAll_nil.symm.trans h)
    rw [List.flatMap_nil, List.append_nil]
  | cons stage stages ih =>
    obtain ⟨mid, hmid, hrest⟩ := absorbAll_cons_eq_ok_iff.1 h
    rw [ih hrest, hstep hmid, List.flatMap_cons, List.append_assoc]

theorem last_absorbAll {α : Type} {field : Accumulator → Option α} {collect : Output → Option α}
    (hstep : ∀ {acc stage next}, absorb acc stage = .ok next →
      field next = (collect stage).or (field acc))
    (h : acc.absorbAll stages = .ok next) :
    field next = (stages.filterMap collect).getLast?.or (field acc) := by
  induction stages generalizing acc with
  | nil =>
    obtain rfl := Except.ok.inj (absorbAll_nil.symm.trans h)
    rfl
  | cons stage stages ih =>
    obtain ⟨mid, hmid, hrest⟩ := absorbAll_cons_eq_ok_iff.1 h
    rw [ih hrest, hstep hmid]
    cases hcollect : collect stage with
    | none => rw [List.filterMap_cons_none hcollect, Option.none_or]
    | some value =>
      rw [List.filterMap_cons_some hcollect, List.getLast?_cons, ← Option.or_some,
        Option.or_assoc]

theorem dependencies_absorb (h : acc.absorb stage = .ok next) :
    next.dependencies = acc.dependencies ++ stage.dependencies := by
  obtain ⟨map, -, rfl⟩ := absorb_eq_ok_iff.1 h
  rfl

theorem diagnostics_absorb (h : acc.absorb stage = .ok next) :
    next.diagnostics = acc.diagnostics ++ stage.diagnostics := by
  obtain ⟨map, -, rfl⟩ := absorb_eq_ok_iff.1 h
  rfl

theorem code_absorb (h : acc.absorb stage = .ok next) :
    some next.code = (some stage.code).or (some acc.code) := by
  obtain ⟨map, -, rfl⟩ := absorb_eq_ok_iff.1 h
  rfl

theorem attributes_absorb (h : acc.absorb stage = .ok next) :
    next.attributes = stage.attributes.or acc.attributes := by
  obtain ⟨map, -, rfl⟩ := absorb_eq_ok_iff.1 h
  cases stage.attributes <;> rfl

/-! ## Maps -/

/-- A stage without a map changes nothing about the map. -/
theorem map_absorb_of_none (h : acc.absorb stage = .ok next) (hstage : stage.map = none) :
    next.map = acc.map ∧ next.pendingIndentation = acc.pendingIndentation := by
  obtain ⟨map, hmap, rfl⟩ := absorb_eq_ok_iff.1 h
  rw [hstage] at hmap
  exact ⟨(Except.ok.inj hmap).symm, by rw [hstage]; rfl⟩

/-- A stage with a map uses up what is pending. -/
theorem map_absorb_of_some {later : SourceMap} (h : acc.absorb stage = .ok next)
    (hstage : stage.map = some later) :
    SourceMap.chain acc.map (some (.map later)) acc.pendingIndentation = .ok next.map ∧
      next.pendingIndentation = 0 := by
  obtain ⟨map, hmap, rfl⟩ := absorb_eq_ok_iff.1 h
  rw [hstage] at hmap
  exact ⟨hmap, by rw [hstage]; rfl⟩

/-- The maps of a run are chained, and the run fails where they cannot be. -/
theorem map_absorbAll (acc : Accumulator) (stages : List Output) :
    (acc.absorbAll stages).map (·.map) =
      SourceMap.chainAll acc.map acc.pendingIndentation (stages.filterMap (·.map)) := by
  induction stages generalizing acc with
  | nil => rfl
  | cons stage stages ih =>
    rw [absorbAll_cons]
    cases hmid : acc.absorb stage with
    | error cause =>
      have hchain := absorb_eq_error_iff.1 hmid
      cases hstage : stage.map with
      | none =>
        rw [hstage] at hchain
        cases hchain
      | some later =>
        rw [hstage, Option.map_some] at hchain
        rw [List.filterMap_cons_some hstage, SourceMap.chainAll, hchain]
        rfl
    | ok mid =>
      rw [ok_bind, ih mid]
      cases hstage : stage.map with
      | none =>
        obtain ⟨hmap, hpending⟩ := map_absorb_of_none hmid hstage
        rw [List.filterMap_cons_none hstage, hmap, hpending]
      | some later =>
        obtain ⟨hmap, hpending⟩ := map_absorb_of_some hmid hstage
        rw [List.filterMap_cons_some hstage, SourceMap.chainAll, hmap, ok_bind, hpending]

/-- What is pending stays so until a stage gives a map. -/
theorem pendingIndentation_absorbAll (h : acc.absorbAll stages = .ok next) :
    next.pendingIndentation =
      if stages.filterMap (·.map) = [] then acc.pendingIndentation else 0 := by
  induction stages generalizing acc with
  | nil =>
    obtain rfl := Except.ok.inj (absorbAll_nil.symm.trans h)
    rfl
  | cons stage stages ih =>
    obtain ⟨mid, hmid, hrest⟩ := absorbAll_cons_eq_ok_iff.1 h
    rw [ih hrest]
    cases hstage : stage.map with
    | none => rw [List.filterMap_cons_none hstage, (map_absorb_of_none hmid hstage).2]
    | some later =>
      rw [List.filterMap_cons_some hstage, (map_absorb_of_some hmid hstage).2, ite_self,
        if_neg (List.cons_ne_nil _ _)]

/-! ## Whole runs -/

/-- The indentation that goes into the first step of the chain of maps: what was taken off before
the first stage, if that stage gave a map of the rest. -/
def firstMove (first : Output) (width : Nat) : Nat := if first.map.isSome then width else 0

/-- What a first stage and some further ones add up to. -/
structure Accumulated (first : Output) (width : Nat) (stages : List Output) (acc : Accumulator) :
    Prop where
  code : (first :: stages).getLast?.map (·.code) = some acc.code
  dependencies : acc.dependencies = (first :: stages).flatMap (·.dependencies)
  diagnostics : acc.diagnostics = (first :: stages).flatMap (·.diagnostics)
  attributes : acc.attributes = ((first :: stages).filterMap (·.attributes)).getLast?
  map : SourceMap.chainAll first.map (firstMove first width) (stages.filterMap (·.map)) =
    .ok acc.map
  pending : acc.pendingIndentation =
    if stages.filterMap (·.map) = [] then firstMove first width else 0

variable {first : Output} {width : Nat}

theorem accumulated_of_absorbAll (h : (start first width).absorbAll stages = .ok acc) :
    Accumulated first width stages acc where
  code := by
    have hcode : some acc.code = (stages.filterMap fun stage => some stage.code).getLast?.or
        (some first.code) := last_absorbAll code_absorb h
    rw [hcode, List.filterMap_eq_map', ← List.getLast?_map, List.map_cons, List.getLast?_cons,
      Option.or_some]
  dependencies := append_absorbAll dependencies_absorb h
  diagnostics := append_absorbAll diagnostics_absorb h
  attributes := by
    have hattributes : acc.attributes = (stages.filterMap (·.attributes)).getLast?.or
        first.attributes := last_absorbAll attributes_absorb h
    rw [hattributes]
    cases hfirst : first.attributes with
    | none => rw [List.filterMap_cons_none hfirst, Option.or_none]
    | some attributes =>
      rw [List.filterMap_cons_some hfirst, List.getLast?_cons, Option.or_some]
  map := by
    have hmap := map_absorbAll (start first width) stages
    rw [h] at hmap
    exact hmap.symm
  pending := pendingIndentation_absorbAll h

/-- The results of the stages leave nothing open. -/
theorem Accumulated.unique (h : Accumulated first width stages acc)
    (h' : Accumulated first width stages next) : acc = next := by
  have hcode : acc.code = next.code := Option.some.inj (h.code.symm.trans h'.code)
  have hmap : acc.map = next.map := Except.ok.inj (h.map.symm.trans h'.map)
  cases acc
  cases next
  simp only [mk.injEq]
  exact ⟨hcode, hmap, h.dependencies.trans h'.dependencies.symm,
    h.diagnostics.trans h'.diagnostics.symm, h.attributes.trans h'.attributes.symm,
    h.pending.trans h'.pending.symm⟩

/-- Only the map of the first stage itself has anything pending. -/
theorem Accumulated.map_eq_of_pending (h : Accumulated first width stages acc)
    (hpending : acc.pendingIndentation ≠ 0) :
    acc.map = first.map ∧ acc.map.isSome ∧ acc.pendingIndentation = width ∧
      ∀ stage ∈ stages, stage.map = none := by
  have hnone : stages.filterMap (·.map) = [] := by
    by_contra hsome
    exact hpending (h.pending.trans (if_neg hsome))
  have hmove : acc.pendingIndentation = firstMove first width := h.pending.trans (if_pos hnone)
  have hfirst : first.map.isSome := by
    by_contra hfirst
    exact hpending (hmove.trans (if_neg hfirst))
  have hmap : acc.map = first.map := by
    have hchain := h.map
    rw [hnone] at hchain
    exact (Except.ok.inj hchain).symm
  exact ⟨hmap, hmap ▸ hfirst, hmove.trans (if_pos hfirst), List.filterMap_eq_nil_iff.1 hnone⟩

theorem absorbAll_eq_ok_iff_accumulated :
    (start first width).absorbAll stages = .ok acc ↔ Accumulated first width stages acc := by
  refine ⟨accumulated_of_absorbAll, fun h => ?_⟩
  have hmap := (map_absorbAll (start first width) stages).trans h.map
  cases hrun : (start first width).absorbAll stages with
  | error cause => rw [hrun] at hmap; cases hmap
  | ok reached => rw [(accumulated_of_absorbAll hrun).unique h]

theorem absorbAll_eq_error_iff {cause : MapError} :
    acc.absorbAll stages = .error cause ↔
      SourceMap.chainAll acc.map acc.pendingIndentation (stages.filterMap (·.map)) =
        .error cause := by
  rw [← map_absorbAll]
  cases acc.absorbAll stages <;> simp [Except.map]

/-- A first stage and further ones that can be folded in add up to the code of the last stage, the
dependencies and diagnostics of all, the attributes of the last one that gave any, and the chain of
all maps, into whose first step the indentation goes that was taken off before the first stage.  A
run that cannot be folded fails as the chain does.  However far a run has come, something is pending
only while its map is still that of the first stage, code that is passed on changes nothing, and
what the next stage gives is refused only if its map cannot be chained. -/
theorem absorbAll_accumulates (first : Output) (width : Nat) (stages : List Output) :
    (∀ acc, (start first width).absorbAll stages = .ok acc ↔
      Accumulated first width stages acc) ∧
    (∀ cause, (start first width).absorbAll stages = .error cause ↔
      SourceMap.chainAll first.map (firstMove first width) (stages.filterMap (·.map)) =
        .error cause) ∧
    ∀ acc, (start first width).absorbAll stages = .ok acc →
      (acc.pendingIndentation ≠ 0 →
        acc.map = first.map ∧ acc.map.isSome ∧ acc.pendingIndentation = width ∧
          ∀ stage ∈ stages, stage.map = none) ∧
      acc.absorb (.ofCode acc.code) = .ok acc ∧
      ∀ stage cause,
        (acc.absorb stage = .error cause ↔
          SourceMap.chain acc.map (stage.map.map .map) acc.pendingIndentation = .error cause) ∧
        ((Preprocessor.absorb acc stage).outcome = .error (.sourceMap cause) ↔
          SourceMap.chain acc.map (stage.map.map .map) acc.pendingIndentation = .error cause) := by
  refine ⟨fun acc => absorbAll_eq_ok_iff_accumulated, fun cause => absorbAll_eq_error_iff, ?_⟩
  intro acc hrun
  refine ⟨(accumulated_of_absorbAll hrun).map_eq_of_pending, absorb_ofCode acc, ?_⟩
  intro stage cause
  refine ⟨absorb_eq_error_iff, ?_⟩
  rw [← absorb_eq_error_iff, Preprocessor.absorb]
  cases acc.absorb stage <;> simp [Run.done, Run.fail]

/-- A first stage whose map leads to the start of the second line. -/
def mappedFirst : Output :=
  { code := "a", map := some ⟨3, none, none, ["App.civet"], [], [], "AACA"⟩,
    dependencies := ["a.dep"] }

/-- Stages behind it, of which the middle one gives a map and attributes. -/
def mappedLater : List Output :=
  [{ code := "b", dependencies := ["b.dep"] },
   { code := "c", map := some ⟨3, none, none, ["b"], [], [], "AAAA"⟩,
     attributes := some (Table.ofList [("lang", .text "ts")]) },
   { code := "d", diagnostics := [{ message := "late" }] }]

/-- The four columns that were taken off go into the one step of the chain, and nothing is pending
behind it. -/
theorem absorbAll_accumulates_one_step :
    ∃ acc, (start mappedFirst 4).absorbAll mappedLater = .ok acc ∧
      acc.code = "d" ∧ acc.dependencies = ["a.dep", "b.dep"] ∧
      acc.diagnostics = [{ message := "late" }] ∧
      acc.attributes = some (Table.ofList [("lang", .text "ts")]) ∧
      SourceMap.chain mappedFirst.map (some (.map ⟨3, none, none, ["b"], [], [], "AAAA"⟩)) 4 =
        .ok acc.map ∧
      acc.pendingIndentation = 0 ∧ acc.absorb (.ofCode acc.code) = .ok acc := by
  have hrun : (start mappedFirst 4).absorbAll mappedLater = .ok _ := rfl
  obtain ⟨haccumulated, -, hbehind⟩ := absorbAll_accumulates mappedFirst 4 mappedLater
  have hsum := (haccumulated _).1 hrun
  obtain ⟨chained, hchain, hrest⟩ := bind_eq_ok_iff.1 hsum.map
  obtain rfl := Except.ok.inj hrest
  exact ⟨_, hrun, rfl, hsum.dependencies, hsum.diagnostics, hsum.attributes, hchain, hsum.pending,
    (hbehind _ hrun).2.1⟩

end Accumulator
end Inlay
