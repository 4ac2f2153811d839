import Inlay.Proofs.Pipeline.Folding
import Inlay.Proofs.SourceMap.Chaining

/-!
# The origins of the map of a script

The map of a first stage leads into the block without its indentation.  The first later stage that
gives a map moves its origins to the right by the width that was taken off, and no further stage
moves them again, so that the map of the script leads into the block as its author wrote it.  When
no later stage gives a map nothing moves them: the map of the first stage is the result, and its
columns are off by that width.  `script_moves_origins_iff` says both, and
`script_leaves_origins` is a script of the second kind.
-/

namespace Inlay

/-- The original places that mappings lead to. -/
def Mappings.origins (m : Mappings) : List Origin :=
  m.flatMap fun line => line.filterMap (·.origin)

/-- Every origin of `moved` is one of `m`, moved to the right by `width`. -/
def Mappings.MovedRight (width : Nat) (m moved : Mappings) : Prop :=
  ∀ o ∈ moved.origins, ∃ o' ∈ m.origins, o.line = o'.line ∧ o.column = o'.column + width

namespace Mappings

variable {m moved : Mappings} {width : Nat}

theorem mem_origins {o : Origin} :
    o ∈ m.origins ↔ ∃ line ∈ m, ∃ s ∈ line, s.origin = some o := by
  simp only [origins, List.mem_flatMap, List.mem_filterMap]

theorem movedRight_zero (m : Mappings) : MovedRight 0 m m :=
  fun o ho => ⟨o, ho, rfl, rfl⟩

theorem MovedRight.trans {first second third : Mappings} {w w' : Nat}
    (h : MovedRight w first second) (h' : MovedRight w' second third) :
    MovedRight (w + w') first third := by
  intro o ho
  obtain ⟨o', ho', hline, hcolumn⟩ := h' o ho
  obtain ⟨o'', ho'', hline', hcolumn'⟩ := h o' ho'
  exact ⟨o'', ho'', hline.trans hline', by omega⟩

/-- Mappings are their own image under a proper move only when they lead nowhere: each origin would
come from one further to the left. -/
theorem movedRight_self_iff : MovedRight width m m ↔ width = 0 ∨ m.origins = [] := by
  constructor
  · intro h
    by_cases hwidth : width = 0
    · exact Or.inl hwidth
    · refine Or.inr (List.eq_nil_iff_forall_not_mem.2 ?_)
      have hnone : ∀ column, ∀ o ∈ m.origins, o.column ≠ column := by
        intro column
        induction column using Nat.strong_induction_on with
        | _ column ih =>
          intro o ho hcolumn
          obtain ⟨o', ho', -, hmoved⟩ := h o ho
          exact ih o'.column (by omega) o' ho' rfl
      exact fun o ho => hnone o.column o ho rfl
  · intro h
    rcases h with rfl | hnil
    · exact movedRight_zero m
    · intro o ho
      rw [hnil] at ho
      cases ho

end Mappings

namespace SourceMap

/-- Chaining moves the origins of the earlier map. -/
theorem movedRight_chainMappings (m later : Mappings) (width : Nat) :
    Mappings.MovedRight width m (chainMappings (Lookup.ofMappings m) width later) := by
  intro o ho
  obtain ⟨line, hline, t, ht, hto⟩ := Mappings.mem_origins.1 ho
  obtain ⟨segments, -, rfl⟩ := List.mem_map.1 hline
  obtain ⟨s, -, hs⟩ := List.mem_filterMap.1 ht
  rw [chainSegment?_eq] at hs
  obtain ⟨chained, hchained, rfl⟩ := Option.map_eq_some_iff.1 hs
  obtain rfl : chained = o := Option.some.inj hto
  obtain ⟨intermediate, -, hthrough⟩ := Option.bind_eq_some_iff.1 hchained
  obtain ⟨original, horiginal, rfl⟩ := Option.map_eq_some_iff.1 hthrough
  obtain ⟨row, hrow, u, hu, huo⟩ := Lookup.exists_segment_of_originAt? horiginal
  exact ⟨original, Mappings.mem_origins.2 ⟨row, hrow, u, hu, huo⟩, rfl, rfl⟩

/-- A chain of two documents that succeeds gives a document whose origins are those of the earlier
one, moved. -/
theorem movedRight_of_chain {a b : SourceMap} {ma : Mappings} {width : Nat}
    {result : Option SourceMap} (ha : a.decode = .ok ma)
    (hwide : ∀ o ∈ ma.origins, o.column + width < Segment.fieldLimit)
    (h : chain (some a) (some (.map b)) width = .ok result) :
    ∃ chained m, result = some chained ∧ chained.decode = .ok m ∧
      Mappings.MovedRight width ma m := by
  have hb : ∃ mb, b.decode = .ok mb := by
    obtain ⟨document, hdocument, hrest⟩ := bind_eq_ok_iff.1 h
    obtain rfl : b = document := Except.ok.inj hdocument
    obtain ⟨composed, hcompose, -⟩ := bind_eq_ok_iff.1 hrest
    obtain ⟨lookup, -, hrest⟩ := bind_eq_ok_iff.1 hcompose
    obtain ⟨mb, hmb, -⟩ := bind_eq_ok_iff.1 hrest
    exact ⟨mb, hmb⟩
  obtain ⟨mb, hb⟩ := hb
  have hmove : Movable (Lookup.ofMappings ma) width mb := by
    refine movable_of_forall ?_ mb
    intro line hline s hs o ho
    exact hwide o (Mappings.mem_origins.2 ⟨line, hline, s, hs, ho⟩)
  obtain ⟨m, rfl, hchain, hdecode⟩ := chain_documents ha hb hmove
  rw [hchain] at h
  obtain rfl := Except.ok.inj h
  exact ⟨_, _, rfl, hdecode, movedRight_chainMappings ma mb width⟩

end SourceMap

/-! ## The accumulator -/

namespace Accumulator

variable {acc next : Accumulator} {m : Mappings} {width : Nat}

/-- The map leads into the block without its indentation, and the width is still to be added. -/
structure Unmoved (acc : Accumulator) (map : SourceMap) (width : Nat) : Prop where
  map : acc.map = some map
  pending : acc.pendingIndentation = width

/-- The map leads into the block with its indentation, and nothing is to be added any more. -/
structure Moved (acc : Accumulator) (m : Mappings) (width : Nat) : Prop where
  map : ∃ chained result, acc.map = some chained ∧ chained.decode = .ok result ∧
    Mappings.MovedRight width m result
  pending : acc.pendingIndentation = 0

theorem Unmoved.absorb_none {map : SourceMap} {stage : Output} (hacc : acc.Unmoved map width)
    (h : acc.absorb stage = .ok next) (hstage : stage.map = none) : next.Unmoved map width := by
  obtain ⟨hmap, hpending⟩ := map_absorb_of_none h hstage
  exact ⟨hmap.trans hacc.map, hpending.trans hacc.pending⟩

theorem Unmoved.absorb_some {map later : SourceMap} {stage : Output}
    (hacc : acc.Unmoved map width) (hdecode : map.decode = .ok m)
    (hwide : ∀ o ∈ m.origins, o.column + width < Segment.fieldLimit)
    (h : acc.absorb stage = .ok next) (hstage : stage.map = some later) : next.Moved m width := by
  obtain ⟨hmap, hpending⟩ := map_absorb_of_some h hstage
  rw [hacc.map, hacc.pending] at hmap
  exact ⟨SourceMap.movedRight_of_chain hdecode hwide hmap, hpending⟩

theorem Moved.absorb {stage : Output} (hacc : acc.Moved m width)
    (h : acc.absorb stage = .ok next) : next.Moved m width := by
  obtain ⟨chained, result, hchained, hdecode, hmoved⟩ := hacc.map
  cases hstage : stage.map with
  | none =>
    obtain ⟨hmap, hpending⟩ := map_absorb_of_none h hstage
    exact ⟨⟨chained, result, hmap.trans hchained, hdecode, hmoved⟩, hpending.trans hacc.pending⟩
  | some later =>
    obtain ⟨hmap, hpending⟩ := map_absorb_of_some h hstage
    rw [hchained, hacc.pending] at hmap
    -- Nothing is pending, so the columns stay in the range that they were read in.
    have hwide : ∀ o ∈ result.origins, o.column + 0 < Segment.fieldLimit := by
      intro o ho
      obtain ⟨line, hline, s, hs, hso⟩ := Mappings.mem_origins.1 ho
      exact ((Mappings.fits_of_decode hdecode line hline s hs).2 o hso).2.2.1
    obtain ⟨chained', result', hchained', hdecode', hmoved'⟩ :=
      SourceMap.movedRight_of_chain hdecode hwide hmap
    exact ⟨⟨chained', result', hchained', hdecode', hmoved.trans hmoved'⟩, hpending⟩

/-- The origins are moved once a stage gives a map, and not before. -/
theorem Unmoved.absorbAll {map : SourceMap} {stages : List Output} (hacc : acc.Unmoved map width)
    (hdecode : map.decode = .ok m)
    (hwide : ∀ o ∈ m.origins, o.column + width < Segment.fieldLimit)
    (h : acc.absorbAll stages = .ok next) :
    if stages.any (·.map.isSome) then next.Moved m width else next.Unmoved map width := by
  induction stages generalizing acc with
  | nil =>
    obtain rfl := Except.ok.inj (absorbAll_nil.symm.trans h)
    exact hacc
  | cons stage stages ih =>
    obtain ⟨mid, hmid, hrest⟩ := absorbAll_cons_eq_ok_iff.1 h
    cases hstage : stage.map with
    | none =>
      simp only [List.any_cons, hstage, Option.isSome_none, Bool.false_or]
      exact ih (hacc.absorb_none hmid hstage) hrest
    | some later =>
      simp only [List.any_cons, hstage, Option.isSome_some, Bool.true_or, if_true]
      exact absorbAll_preserves Moved.absorb (hacc.absorb_some hdecode hwide hmid hstage) hrest

end Accumulator

/-! ## Scripts -/

/-- Whether a call returned a map. -/
def Call.givesMap (call : Call) : Bool := (call.output?.bind (·.map)).isSome

theorem Gave.any_map_isSome {calls : List Call} {stages : List Output} (h : Gave calls stages) :
    stages.any (·.map.isSome) = calls.any Call.givesMap := by
  induction h with
  | nil => rfl
  | called hcall _ ih => rw [List.any_cons, List.any_cons, ih, Call.givesMap, hcall]; rfl
  | passed code _ ih => rw [List.any_cons, ih]; rfl

namespace Preprocessor

variable {p : Preprocessor} {block : Block} {out : Output} {first : Primary} {map : SourceMap}
  {m : Mappings}

/-- A script whose first stage gives a map has a map.  The origins of that map are those of the
first stage, moved by the width of the indentation that was taken off, exactly when a later call
gives a map too, or there is nothing to move. -/
theorem script_moves_origins_iff (hrun : (p.script block).outcome = .ok out)
    (hfirst : (p.primary .script block).outcome = .ok first) (hmap : first.output.map = some map)
    (hdecode : map.decode = .ok m)
    (hwide : ∀ o ∈ m.origins, o.column + first.indentation < Segment.fieldLimit) :
    ∃ behind chained result,
      (p.script block).events = (p.primary .script block).events ++ behind ∧
      out.map = some chained ∧ chained.decode = .ok result ∧
      (Mappings.MovedRight first.indentation m result ↔
        (Event.calls behind).any Call.givesMap ∨ first.indentation = 0 ∨ m.origins = []) := by
  have hprocess : p.process .script block = ⟨(p.script block).events, .ok out⟩ :=
    Run.eq_of_outcome hrun
  obtain ⟨before, first', behind, stages, acc, hprimary, hevents, hgave, hfold, rfl⟩ :=
    process_eq_ok (by decide) hprocess
  have hsame : first' = first := by
    rw [hprimary] at hfirst
    exact Except.ok.inj hfirst
  subst hsame
  have hstart : (Accumulator.start first'.output first'.indentation).Unmoved map
      first'.indentation := by
    refine ⟨hmap, ?_⟩
    show (if first'.output.map.isSome then first'.indentation else 0) = first'.indentation
    rw [hmap]
    rfl
  have hend := hstart.absorbAll hdecode hwide hfold
  rw [hgave.any_map_isSome] at hend
  rw [hprimary]
  by_cases hlater : (Event.calls behind).any Call.givesMap
  · rw [if_pos hlater] at hend
    obtain ⟨chained, result, hchained, hresult, hmoved⟩ := hend.map
    exact ⟨behind, chained, result, hevents, hchained, hresult,
      ⟨fun _ => Or.inl hlater, fun _ => hmoved⟩⟩
  · rw [if_neg hlater] at hend
    refine ⟨behind, map, m, hevents, hend.map, hdecode, ?_⟩
    rw [Mappings.movedRight_self_iff]
    simp [hlater]

/-- A Civet compiler whose map leads to the start of the second line of what it is given, and
results of the stages behind it. -/
def mappedCivet (settings : List (String × Setting))
    (later : List (TransformerKind × Output)) : Preprocessor :=
  ofResults settings
    ((.civet,
      { code := "const x = 1", map := some ⟨3, none, none, ["App.civet"], [], [], "AACA"⟩ }) ::
      later)

/-- The same compiler with babel behind it, which gives a map too. -/
def mappedThroughBabel : Preprocessor :=
  mappedCivet [("babel", .enabled true)]
    [(.babel, { code := "var x = 1", map := some ⟨3, none, none, ["App.ts"], [], [], "AAAA"⟩ })]

/-- A Civet script that is indented by four columns. -/
def indentedScript : Block :=
  { content := "\n    x := 1\n", attributes := Table.ofList [("lang", .text "civet")] }

/-- The map of babel has the origin of Civet moved to where the script stands. -/
theorem script_moves_origins_babel :
    ∃ out chained result,
      (mappedThroughBabel.script indentedScript).outcome = .ok out ∧
      out.map = some chained ∧ chained.decode = .ok result ∧
      Mappings.MovedRight 4 [[⟨0, some ⟨0, 1, 0, none⟩⟩]] result := by
  have hrun : (mappedThroughBabel.script indentedScript).outcome = .ok _ := rfl
  have hfirst : (mappedThroughBabel.primary .script indentedScript).outcome = .ok
      { output :=
          { code := "const x = 1", map := some ⟨3, none, none, ["App.civet"], [], [], "AACA"⟩ }
        declared := some "civet", indentation := 4 } := rfl
  have hdecode : SourceMap.decode ⟨3, none, none, ["App.civet"], [], [], "AACA"⟩ =
      .ok [[⟨0, some ⟨0, 1, 0, none⟩⟩]] := by decide
  obtain ⟨behind, chained, result, hevents, hchained, hresult, hmoved⟩ :=
    script_moves_origins_iff hrun hfirst rfl hdecode (by decide)
  have hgives : (Event.calls behind).any Call.givesMap := by
    injection hevents with _ hbehind
    obtain rfl : _ = behind := hbehind
    rfl
  exact ⟨_, chained, result, hrun, hchained, hresult, hmoved.2 (Or.inl hgives)⟩

/-- Without a stage behind Civet that gives a map, the origin stays four columns to the left. -/
theorem script_leaves_origins :
    ∃ first out chained result,
      ((mappedCivet [] []).primary .script indentedScript).outcome = .ok first ∧
      first.indentation = 4 ∧ first.output.map = some chained ∧
      ((mappedCivet [] []).script indentedScript).outcome = .ok out ∧
      out.map = some chained ∧ chained.decode = .ok result ∧
      ¬ Mappings.MovedRight 4 result result := by
  refine ⟨_, _, ⟨3, none, none, ["App.civet"], [], [], "AACA"⟩, [[⟨0, some ⟨0, 1, 0, none⟩⟩]],
    rfl, rfl, rfl, rfl, rfl, by decide, ?_⟩
  rw [Mappings.movedRight_self_iff]
  decide

end Preprocessor
end Inlay
