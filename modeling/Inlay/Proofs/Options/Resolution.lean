import Inlay.Options.Resolver
import Inlay.Proofs.Entries
import Inlay.Proofs.Json.Merging

/-!
# What a stage is resolved to

`resolve_precedence` says which answer comes first: a function of the written name, a function of
the language, being turned off, and else an options object.  Such an object is what several layers
say one on top of the other (`layers`): under every key it has the value of the first layer that has
one.

A stage that no block declares is only turned off by its own setting
(`resolveStage_eq_disabled_iff`).  A name without a setting and without defaults says nothing
(`resolve_of_unset`), and a language that is written by its own name is resolved as if it was not
written at all (`resolve_self`).
-/

namespace Inlay
namespace Resolver

variable (r : Resolver) {language name : String} {written : Option String}

/-! ## Layers -/

/-- The options object that a name is configured with.  A name without a setting, a name that is
only turned on, a function, and options that are no object say nothing under any key. -/
def optionsOf (name : String) : Table Json :=
  match r.settings.get? name with
  | some (.options (.object fields)) => Table.ofList fields
  | _ => .empty

/-- The default options of a name. -/
def defaultsOf (name : String) : Table Json := Table.ofList (r.registry.defaultsOf name)

/-- The option that asks a language for a source map, if maps are wanted. -/
def mapRequest (language : String) : Table Json :=
  match r.sourceMap, sourceMapOption? language with
  | true, some ([key], value) => Table.empty.insert key value
  | _, _ => .empty

/-- What the name that the language is written as has to say, its own options first. -/
def writtenLayers (language : String) : Option String → List (Table Json)
  | none => []
  | some name =>
    if name = language then [r.defaultsOf name] else [r.optionsOf name, r.defaultsOf name]

/-- All that has something to say about the options of a language, the most important first. -/
def layers (language : String) (written : Option String) : List (Table Json) :=
  r.mapRequest language ::
    (r.writtenLayers language written ++ [r.defaultsOf language, r.optionsOf language])

/-- What the first layer that knows a key says of it. -/
def firstSaid (layers : List (Table Json)) (key : String) : Option Json :=
  layers.findSome? fun layer => layer.get? key

/-! ## Merging -/

theorem firstSaid_cons (layer : Table Json) (layers : List (Table Json)) (key : String) :
    firstSaid (layer :: layers) key = (layer.get? key).or (firstSaid layers key) := by
  rw [firstSaid, List.findSome?_cons]
  cases layer.get? key <;> rfl

variable {r} {fields : Json.Fields} {key : String}

theorem get?_optionsOf :
    (r.optionsOf name).get? key = Json.said (some (r.configured name)) key := by
  unfold optionsOf configured
  cases r.settings.get? name with
  | none => rfl
  | some setting =>
    cases setting with
    | enabled value => rfl
    | override function => rfl
    | options value =>
      cases value with
      | object own => rw [Table.get?_ofList, Entries.get?_insertAll_nil]; rfl
      | _ => rfl

theorem get?_merge_configured :
    Entries.get? key (Json.merge fields (r.configured name)) =
      ((r.optionsOf name).get? key).or (Entries.get? key fields) := by
  rw [get?_optionsOf]
  exact Json.get?_merge fields (some (r.configured name)) key

theorem get?_insertAll_defaults :
    Entries.get? key (Entries.insertAll fields (r.registry.defaultsOf name)) =
      ((r.defaultsOf name).get? key).or (Entries.get? key fields) := by
  rw [Entries.get?_insertAll, defaultsOf, Table.get?_ofList]

/-- Every language is asked for a source map by one option of its object. -/
theorem exists_key_of_sourceMapOption? {path : List String} {value : Json}
    (h : sourceMapOption? language = some (path, value)) : ∃ key, path = [key] := by
  unfold sourceMapOption? at h
  repeat' split at h
  all_goals simp only [Option.some.injEq, Prod.mk.injEq, reduceCtorEq] at h
  all_goals exact ⟨_, h.1.symm⟩

theorem get?_withSourceMap :
    Entries.get? key (r.withSourceMap language fields) =
      ((r.mapRequest language).get? key).or (Entries.get? key fields) := by
  unfold withSourceMap mapRequest
  cases r.sourceMap with
  | false => rfl
  | true =>
    cases hoption : sourceMapOption? language with
    | none => rfl
    | some option =>
      obtain ⟨path, value⟩ := option
      obtain ⟨asked, rfl⟩ := exists_key_of_sourceMapOption? hoption
      show Entries.get? key (Entries.insert asked value fields) =
        ((Table.empty.insert asked value).get? key).or (Entries.get? key fields)
      by_cases h : key = asked
      · rw [h, Entries.get?_insert_self, Table.get?_insert_self, Option.some_or]
      · rw [Entries.get?_insert_of_ne h, Table.get?_insert_of_ne _ h, Table.get?_empty,
          Option.none_or]

/-- Merged options say what the first layer says. -/
theorem get?_merged (key : String) :
    Entries.get? key (r.merged language written) = firstSaid (r.layers language written) key := by
  have hlanguage : Entries.get? key
      (Entries.insertAll (Json.merge [] (r.configured language)) (r.registry.defaultsOf language)) =
        firstSaid [r.defaultsOf language, r.optionsOf language] key := by
    rw [get?_insertAll_defaults, get?_merge_configured, firstSaid_cons, firstSaid_cons]
    rfl
  show Entries.get? key (r.withSourceMap language _) = _
  rw [get?_withSourceMap, layers, firstSaid_cons]
  congr 1
  cases written with
  | none => exact hlanguage
  | some name =>
    by_cases h : name = language
    · simp only [writtenLayers, if_pos h, List.singleton_append]
      rw [get?_insertAll_defaults, hlanguage, ← firstSaid_cons]
    · simp only [writtenLayers, if_neg h, List.cons_append, List.nil_append]
      rw [get?_merge_configured, get?_insertAll_defaults, hlanguage, ← firstSaid_cons,
        ← firstSaid_cons]

/-- The written name's own options win over its defaults, which win over those of the language. -/
example :
    (Resolver.mk ⟨.empty, Table.ofList
        [("scss", [("a", .nat 1)]), ("sass", [("a", .nat 2), ("b", .nat 1)])]⟩
      (Table.ofList [("sass", .options (.object [("a", .nat 3)]))]) true).merged
        "scss" (some "sass") =
      [("a", .nat 3), ("b", .nat 1), ("sourceMap", .bool true)] := rfl

/-! ## Precedence -/

/-- A function takes the place of the transformer of a name. -/
def IsOverridden (r : Resolver) (name : String) : Prop :=
  ∃ function, r.settings.get? name = some (.override function)

/-- A name is turned off. -/
def IsTurnedOff (r : Resolver) (name : String) : Prop :=
  r.settings.get? name = some (.enabled false)

theorem override?_eq_some_iff {function : Transformer} :
    r.override? name = some function ↔ r.settings.get? name = some (.override function) := by
  unfold override?
  cases r.settings.get? name with
  | none => simp
  | some setting => cases setting <;> simp

theorem override?_eq_none_iff : r.override? name = none ↔ ¬ r.IsOverridden name := by
  rw [Option.eq_none_iff_forall_ne_some, IsOverridden, not_exists]
  exact forall_congr' fun function => not_congr override?_eq_some_iff

theorem isOff_iff : r.isOff name = true ↔ r.IsTurnedOff name := by
  unfold isOff IsTurnedOff
  cases r.settings.get? name with
  | none => simp
  | some setting => cases setting <;> simp [Setting.isOff]

/-- The function of the language is the one that counts when that of the written name is not
heard. -/
theorem overrideFor?_of_unheard {ignoreWritten : Bool}
    (h : ignoreWritten = true ∨ ∀ name ∈ written, ¬ r.IsOverridden name) :
    r.overrideFor? language written ignoreWritten =
      (r.override? language).map fun function => (language, function) := by
  cases written with
  | none => rfl
  | some name =>
    show (if ignoreWritten then _ else _) = _
    by_cases hignore : ignoreWritten
    · rw [if_pos hignore]
    · have hname : r.override? name = none :=
        override?_eq_none_iff.2 ((h.resolve_left hignore) name rfl)
      rw [if_neg hignore, hname]

theorem resolve_of_overrideFor? {ignoreWritten : Bool} {function : Transformer}
    (h : r.overrideFor? language written ignoreWritten = some (name, function)) :
    r.resolve language written ignoreWritten = .override name function := by
  rw [resolve, h]

theorem resolve_of_no_override {ignoreWritten : Bool}
    (h : r.overrideFor? language written ignoreWritten = none) :
    r.resolve language written ignoreWritten =
      if r.isOff language || (written.map r.isOff).getD false then .disabled
      else .options (.object (r.merged language written)) := by
  rw [resolve, h]

theorem setting_of_overrideFor? {ignoreWritten : Bool} {setting : String} {function : Transformer}
    (h : r.overrideFor? language written ignoreWritten = some (setting, function)) :
    r.settings.get? setting = some (.override function) := by
  have hlanguage (h : ((r.override? language).map fun function => (language, function)) =
      some (setting, function)) : r.settings.get? setting = some (.override function) := by
    obtain ⟨_, hfound, heq⟩ := Option.map_eq_some_iff.1 h
    cases heq
    exact override?_eq_some_iff.1 hfound
  cases written with
  | none => exact hlanguage h
  | some name =>
    by_cases hignore : ignoreWritten
    · exact hlanguage (by simpa [overrideFor?, hignore] using h)
    · cases hname : r.override? name with
      | none => exact hlanguage (by simpa [overrideFor?, hignore, hname] using h)
      | some found =>
        obtain ⟨rfl, rfl⟩ : name = setting ∧ found = function := by
          simpa [overrideFor?, hignore, hname] using h
        exact override?_eq_some_iff.1 hname

/-- A function that is resolved to is that of a setting. -/
theorem setting_of_resolve {ignoreWritten : Bool} {setting : String} {function : Transformer}
    (h : r.resolve language written ignoreWritten = .override setting function) :
    r.settings.get? setting = some (.override function) := by
  cases hfor : r.overrideFor? language written ignoreWritten with
  | some found =>
    cases (resolve_of_overrideFor? hfor).symm.trans h
    exact setting_of_overrideFor? hfor
  | none =>
    rw [resolve_of_no_override hfor] at h
    split at h <;> cases h

/-- A function that is resolved to is that of the language when that of the written name is not
heard. -/
theorem setting_eq_of_unheard {ignoreWritten : Bool} {setting : String} {function : Transformer}
    (hunheard : ignoreWritten = true ∨ ∀ name ∈ written, ¬ r.IsOverridden name)
    (h : r.resolve language written ignoreWritten = .override setting function) :
    setting = language := by
  have hfor : r.overrideFor? language written ignoreWritten =
      (r.override? language).map fun function => (language, function) :=
    overrideFor?_of_unheard hunheard
  cases hown : r.override? language with
  | none =>
    rw [hown] at hfor
    rw [resolve_of_no_override hfor] at h
    split at h <;> cases h
  | some found =>
    rw [hown] at hfor
    rw [resolve_of_overrideFor? hfor] at h
    cases h
    rfl

/-- A function of the written name goes first unless it is to be ignored, then a function of the
language, and then either of them being turned off.  What is left is an options object, and under
every key it says what the first layer says.  Only an options object says anything. -/
theorem resolve_precedence (r : Resolver) (language : String) (written : Option String)
    (ignoreWritten : Bool) :
    (∀ name ∈ written, ∀ function, ignoreWritten = false →
      r.settings.get? name = some (.override function) →
      r.resolve language written ignoreWritten = .override name function) ∧
    ((ignoreWritten = true ∨ ∀ name ∈ written, ¬ r.IsOverridden name) →
      (∀ function, r.settings.get? language = some (.override function) →
        r.resolve language written ignoreWritten = .override language function) ∧
      (¬ r.IsOverridden language →
        ((r.IsTurnedOff language ∨ ∃ name ∈ written, r.IsTurnedOff name) →
          r.resolve language written ignoreWritten = .disabled) ∧
        (¬ (r.IsTurnedOff language ∨ ∃ name ∈ written, r.IsTurnedOff name) →
          ∃ fields, r.resolve language written ignoreWritten = .options (.object fields) ∧
            ∀ key, Entries.get? key fields = firstSaid (r.layers language written) key))) ∧
    ∀ name, (∀ fields, r.settings.get? name ≠ some (.options (.object fields))) →
      ∀ key, (r.optionsOf name).get? key = none := by
  have hoff : (r.isOff language || (written.map r.isOff).getD false) = true ↔
      (r.IsTurnedOff language ∨ ∃ name ∈ written, r.IsTurnedOff name) := by
    cases written <;> simp [isOff_iff]
  refine ⟨?_, ?_, ?_⟩
  · intro name hname function hheard hset
    obtain rfl : written = some name := hname
    refine resolve_of_overrideFor? ?_
    simp only [overrideFor?, hheard, override?_eq_some_iff.2 hset, Bool.false_eq_true, if_false]
  · intro hunheard
    have hfor : r.overrideFor? language written ignoreWritten = _ :=
      overrideFor?_of_unheard hunheard
    refine ⟨?_, ?_⟩
    · intro function hset
      rw [override?_eq_some_iff.2 hset] at hfor
      exact resolve_of_overrideFor? hfor
    · intro hfree
      rw [override?_eq_none_iff.2 hfree] at hfor
      have hresolve := resolve_of_no_override hfor
      refine ⟨?_, ?_⟩
      · intro hturned
        rw [hresolve, if_pos (hoff.2 hturned)]
      · intro hon
        rw [if_neg (mt hoff.1 hon)] at hresolve
        exact ⟨_, hresolve, get?_merged⟩
  · intro name hnone key
    unfold optionsOf
    split
    · rename_i fields hset
      exact absurd hset (hnone fields)
    · rfl

/-! ## Stages that the host asks for -/

section Stages

variable {stage : String}

/-- A name with a setting that asks for its stage. -/
def Enables (r : Resolver) (name : String) : Prop :=
  ∃ setting, r.settings.get? name = some setting ∧ setting.isEnabled = true

theorem isConfigured_iff : r.isConfigured stage = true ↔ r.Enables stage := by
  rw [isConfigured, Enables]
  cases r.settings.get? stage <;> simp

/-- The options of a stage that no block declares are only turned off by a setting of its own. -/
theorem resolveStage_eq_disabled_iff : r.resolveStage stage = .disabled ↔ r.IsTurnedOff stage := by
  rw [resolveStage]
  by_cases hoverridden : r.IsOverridden stage
  · obtain ⟨function, hset⟩ := hoverridden
    have hresolve : r.resolve stage none false = .override stage function :=
      resolve_of_overrideFor? (by simp [overrideFor?, override?_eq_some_iff.2 hset])
    rw [hresolve, IsTurnedOff, hset]
    simp
  · have hnone : r.overrideFor? stage none false = none := by
      simp [overrideFor?, override?_eq_none_iff.2 hoverridden]
    rw [resolve_of_no_override hnone, ← isOff_iff]
    by_cases hoff : r.isOff stage <;> simp [hoff]

/-- A stage that is asked for is not turned off. -/
theorem resolveStage_ne_disabled (h : r.Enables stage) : r.resolveStage stage ≠ .disabled := by
  obtain ⟨setting, hset, henabled⟩ := h
  rw [ne_eq, resolveStage_eq_disabled_iff, IsTurnedOff, hset]
  intro hoff
  obtain rfl := Option.some.inj hoff
  cases henabled

end Stages

/-! ## Names that add nothing -/

theorem resolve_congr {written' : Option String} {ignoreWritten : Bool}
    (hfor : r.overrideFor? language written ignoreWritten =
      r.overrideFor? language written' ignoreWritten)
    (hoff : (r.isOff language || (written.map r.isOff).getD false) =
      (r.isOff language || (written'.map r.isOff).getD false))
    (hmerged : r.merged language written = r.merged language written') :
    r.resolve language written ignoreWritten = r.resolve language written' ignoreWritten := by
  rw [resolve, resolve, hfor, hoff, hmerged]

/-- A language that is written by its own name is resolved as if its name was not written. -/
theorem resolve_self (r : Resolver) (language : String) (ignoreWritten : Bool) :
    r.resolve language (some language) ignoreWritten = r.resolve language none ignoreWritten := by
  refine resolve_congr ?_ ?_ ?_
  · unfold overrideFor?
    cases ignoreWritten with
    | true => rfl
    | false => cases hoverride : r.override? language <;> simp [hoverride]
  · simp
  · have hmerged : Entries.Increasing (Json.merge [] (r.configured language)) :=
      Json.increasing_merge List.Pairwise.nil (some (r.configured language))
    show r.withSourceMap language (if language = language then _ else _) = _
    rw [if_pos rfl, Entries.insertAll_insertAll_self hmerged]
    rfl

/-- A name without a setting and without defaults counts as not written. -/
theorem resolve_of_unset (hset : r.settings.get? name = none)
    (hdefaults : r.registry.defaultsOf name = []) (ignoreWritten : Bool) :
    r.resolve language (some name) ignoreWritten = r.resolve language none ignoreWritten := by
  refine resolve_congr ?_ ?_ ?_
  · have hoverride : r.override? name = none := by rw [override?, hset]
    unfold overrideFor?
    cases ignoreWritten with
    | true => rfl
    | false => simp [hoverride]
  · simp [isOff, hset]
  · have hconfigured : r.configured name = .null := by rw [configured, hset]; rfl
    show r.withSourceMap language (if name = language then _ else _) = _
    rw [hdefaults, hconfigured]
    by_cases h : name = language
    · rw [if_pos h]
      rfl
    · rw [if_neg h]
      rfl

end Resolver
end Inlay
