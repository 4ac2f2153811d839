import Inlay.Proofs.Pipeline.Alike
import Inlay.Proofs.Pipeline.Stages

/-!
# Aliases without settings of their own

A block that is written in such an alias goes the way of one that is written in the language itself
(`bare_alias_behaves_as_language`): the two names are resolved to the same options
(`Spells`), and every stage that depends on how the language is written depends on it through them.

The one exception is a function that stands in for the target language.  It is run for the alias,
although the setting is not one of the alias, and never for the language (`TakesOver`).
-/

namespace Inlay

/-- A block whose tag names a language. -/
def Block.writtenAs (block : Block) (name : String) : Block :=
  { block with attributes := block.attributes.insert "lang" (.text name) }

namespace Resolver

variable {r : Resolver} {language : String}

theorem resolveStage_of_override {function : Transformer}
    (h : r.settings.get? language = some (.override function)) :
    r.resolveStage language = .override language function := by
  refine resolve_of_overrideFor? ?_
  show ((r.override? language).map fun function => (language, function)) = _
  rw [override?_eq_some_iff.2 h]
  rfl

theorem isOverridden_of_resolveStage {setting : String} {function : Transformer}
    (h : r.resolveStage language = .override setting function) : r.IsOverridden language := by
  by_contra hfree
  have hfor : r.overrideFor? language none false = none := by
    show ((r.override? language).map fun function => (language, function)) = _
    rw [override?_eq_none_iff.2 hfree]
    rfl
  rw [resolveStage, resolve_of_no_override hfor] at h
  split at h <;> cases h

end Resolver

namespace Preprocessor

variable {p : Preprocessor} {kind : BlockKind} {block : Block} {name name' language : String}

/-! ## Spellings of a language -/

/-- A name that stands for a language, and is resolved to the same options as if no name was
written. -/
structure Spells (p : Preprocessor) (name language : String) : Prop where
  canonical : p.resolver.registry.canonical name = language
  first : p.resolver.resolve language (some name) false = p.resolver.resolveStage language
  postcss : name ≠ language →
    p.resolver.resolve "postcss" (some name) true = p.resolver.resolve "postcss" none true

/-- An alias without a setting and without defaults of its own, for a language that is not an alias
itself. -/
structure IsBareAlias (p : Preprocessor) (name language : String) : Prop where
  canonical : p.resolver.registry.canonical name = language
  settled : p.resolver.registry.canonical language = language
  unset : p.resolver.settings.get? name = none
  plain : p.resolver.registry.defaultsOf name = []

theorem IsBareAlias.spells (h : p.IsBareAlias name language) : p.Spells name language where
  canonical := h.canonical
  first := Resolver.resolve_of_unset h.unset h.plain false
  postcss _ := Resolver.resolve_of_unset h.unset h.plain true

theorem IsBareAlias.spells_language (h : p.IsBareAlias name language) :
    p.Spells language language where
  canonical := h.settled
  first := Resolver.resolve_self _ language false
  postcss hne := absurd rfl hne

/-- A function stands in for the target language, and the author of the block wrote another name for
it. -/
def TakesOver (p : Preprocessor) (kind : BlockKind) (name language : String) : Prop :=
  name ≠ language ∧ language = kind.targetLanguage ∧ p.resolver.IsOverridden language

theorem declared_writtenAs (block : Block) (name : String) :
    p.resolver.registry.declared (block.writtenAs name).attributes =
      .ok (some ⟨name, p.resolver.registry.canonical name⟩) := by
  simp [LanguageRegistry.declared, Language.writtenName, Attributes.textOf, Block.writtenAs]

theorem Spells.languageOf (h : p.Spells name language) (kind : BlockKind) (block : Block) :
    p.languageOf kind (block.writtenAs name).attributes =
      .ok ⟨language, name, some language⟩ := by
  simp [Preprocessor.languageOf, declared_writtenAs, h.canonical]

theorem Spells.properAlias? (h : p.Spells name language) (block : Block) :
    p.properAlias? (block.writtenAs name).attributes =
      .ok (if name ≠ language then some name else none) := by
  simp [Preprocessor.properAlias?, declared_writtenAs, h.canonical, LanguageRegistry.isAliasOf]

/-! ## Stages of blocks that differ in how their language is written -/

/-- What the first stage does does not depend on how the language is written. -/
theorem primary_writtenAs (h : p.Spells name language) (hfree : ¬ p.TakesOver kind name language)
    (block : Block) :
    p.primary kind (block.writtenAs name) =
      let options := p.resolver.resolveStage language
      let prepared := Prepared.of (some options) block.content
      if language = kind.targetLanguage then
        .done ⟨{ code := prepared.content, dependencies := block.dependencies }, some language,
          prepared.indentation⟩
      else
        (p.runStage language options (primaryInput (block.writtenAs name) prepared)).andThen
          fun output =>
            .done ⟨{ output with dependencies := block.dependencies ++ output.dependencies },
              some language, prepared.indentation⟩ := by
  rw [primary_of_languageOf (h.languageOf kind block)]
  simp only [h.first]
  by_cases htarget : language = kind.targetLanguage
  · rw [if_pos htarget, if_pos htarget]
    cases hoptions : p.resolver.resolveStage language with
    | disabled => rfl
    | options value => rfl
    | override setting function =>
      -- The function is that of the language, so another name would be taken over.
      have hname : name = language := by
        by_contra hne
        exact hfree ⟨hne, htarget, Resolver.isOverridden_of_resolveStage hoptions⟩
      simp only [passTarget, if_neg (not_not_intro hname)]
      rfl
  · rw [if_neg htarget, if_neg htarget]
    rfl

theorem primary_alike (h : p.Spells name language) (h' : p.Spells name' language)
    (hfree : ¬ p.TakesOver kind name language) (hfree' : ¬ p.TakesOver kind name' language)
    (block : Block) :
    (p.primary kind (block.writtenAs name)).Alike p (p.primary kind (block.writtenAs name')) := by
  rw [primary_writtenAs h hfree, primary_writtenAs h' hfree']
  by_cases htarget : language = kind.targetLanguage
  · simp only [if_pos htarget]
    exact .done _
  · simp only [if_neg htarget]
    exact (runStage_alike (resolves_resolve p _ _ _) language ⟨_, rfl⟩).andThen fun _ => .done _

theorem postcssStage_writtenAs (h : p.Spells name language) (block : Block) (acc : Accumulator) :
    p.postcssStage (block.writtenAs name) acc =
      if p.resolver.isConfigured "postcss" then
        p.laterStage "postcss" (p.resolver.resolve "postcss" none true) (block.writtenAs name) acc
          (block.writtenAs name).attributes
      else .done acc := by
  simp only [postcssStage, h.properAlias?, Run.bind_eq, Run.ofExcept_ok, Run.done_andThen]
  by_cases hname : name = language
  · rw [if_neg (not_not_intro hname)]
  · rw [if_pos hname, h.postcss hname]

theorem scriptRest_alike (block : Block) (first : Primary) :
    (p.scriptRest (block.writtenAs name) first).Alike p
      (p.scriptRest (block.writtenAs name') first) := by
  refine Run.Alike.andThen ?_ fun acc => ?_
  · unfold typescriptStage
    split
    · exact laterStage_alike (resolves_resolve p _ _ _) _ rfl rfl _ _ _
    · exact .done _
  · unfold babelStage
    split
    · exact laterStage_alike (resolves_resolve p _ _ _) _ rfl rfl acc _ _
    · exact .done _

theorem warnGlobal_writtenAs (block : Block) (name : String) :
    warnGlobal (block.writtenAs name) = warnGlobal block := by
  have hglobal : (block.writtenAs name).attributes.contains "global" =
      block.attributes.contains "global" := by
    simp only [Block.writtenAs, Table.contains]
    rw [Table.get?_insert_of_ne _ (by decide)]
  simp only [warnGlobal, globalWarning?, hglobal]

theorem warnGlobal_alike (block : Block) :
    (warnGlobal block).Alike p (warnGlobal block) := by
  unfold warnGlobal
  cases globalWarning? block.attributes with
  | none => exact .done ()
  | some warning => exact .same (.cons (.warned warning) .nil) rfl

theorem styleRest_alike (h : p.Spells name language) (h' : p.Spells name' language) (block : Block)
    (first : Primary) :
    (p.styleRest (block.writtenAs name) first).Alike p
      (p.styleRest (block.writtenAs name') first) := by
  unfold styleRest
  by_cases hpostcss : p.installed "postcss"
  · simp only [if_pos hpostcss]
    refine Run.Alike.andThen ?_ fun acc => ?_
    · rw [postcssStage_writtenAs h, postcssStage_writtenAs h']
      split
      · exact laterStage_alike (resolves_resolve p _ _ _) _ rfl rfl _ _ _
      · exact .done _
    · exact laterStage_alike (resolves_resolve p _ _ _) _ rfl rfl acc _ _
  · simp only [if_neg hpostcss, warnGlobal_writtenAs]
    exact (warnGlobal_alike block).andThen fun _ => .done _

/-- The replacement pass does not look at the attributes.  The blocks that it gives differ in them
all the same, so two passes are not alike; the difference is put behind one pass instead. -/
theorem replaced_writtenAs (p : Preprocessor) (block : Block) (name : String) :
    p.replaced (block.writtenAs name) =
      (p.replaced block).andThen fun block => .done (block.writtenAs name) := by
  unfold replaced
  split
  · rfl
  · split
    · simp only [Run.bind_eq, Run.pure_eq, Run.andThen_assoc, Run.done_andThen]
      rfl
    · rfl

theorem replaced_alike (p : Preprocessor) (block : Block) :
    (p.replaced block).Alike p (p.replaced block) := by
  unfold replaced
  cases hsetting : p.resolver.settings.get? "replace" with
  | none => exact .done block
  | some setting =>
    by_cases henabled : setting.isEnabled
    · simp only [if_pos henabled]
      refine (runStage_alike ?_ "replace" (.refl _)).andThen fun _ => .done _
      intro name function hresolved
      refine .inr ⟨"replace", hsetting.trans ?_⟩
      cases setting with
      | override found => cases hresolved; rfl
      | options value => cases hresolved
      | enabled value => cases value <;> cases hresolved
    · simp only [if_neg henabled]
      exact .done block

theorem markup_writtenAs (block : Block) (name : String) :
    p.markup (block.writtenAs name) = (p.replaced block).andThen fun block =>
      (p.primary .markup (block.writtenAs name)).andThen fun first => .done first.output := by
  simp only [markup, Run.bind_eq, Run.pure_eq, replaced_writtenAs, Run.andThen_assoc,
    Run.done_andThen]

/-! ## Whole pipelines -/

theorem process_alike (h : p.Spells name language) (h' : p.Spells name' language)
    (hfree : ¬ p.TakesOver kind name language) (hfree' : ¬ p.TakesOver kind name' language)
    (block : Block) :
    (p.process kind (block.writtenAs name)).Alike p (p.process kind (block.writtenAs name')) := by
  cases kind with
  | markup =>
    simp only [process, markup_writtenAs]
    exact (replaced_alike p block).andThen fun block =>
      (primary_alike h h' hfree hfree' block).andThen fun first => .done _
  | script =>
    simp only [process, script_eq]
    exact (primary_alike h h' hfree hfree' block).andThen fun first =>
      (scriptRest_alike block first).andThen fun acc => .done _
  | style =>
    simp only [process, style_eq]
    exact (primary_alike h h' hfree hfree' block).andThen fun first =>
      (styleRest_alike h h' block first).andThen fun acc => .done _

/-- A function that stands in for the target language is called for another name of it, with what
the first stage passes on for the language itself. -/
theorem primary_takeover (h : p.Spells name language) (h' : p.Spells language language)
    (htakes : p.TakesOver kind name language) (block : Block) :
    ∃ call first, Event.calls (p.primary kind (block.writtenAs name)).events = [call] ∧
      call.callee = .override language ∧
      p.primary kind (block.writtenAs language) = .done first ∧
      call.input.content = first.output.code := by
  obtain ⟨hne, htarget, function, hset⟩ := htakes
  have hself : ¬ p.TakesOver kind language language := fun takes => takes.1 rfl
  rw [primary_writtenAs h' hself, primary_of_languageOf (h.languageOf kind block)]
  simp only [h.first, Resolver.resolveStage_of_override hset, if_pos htarget, passTarget,
    if_pos hne, Run.events_andThen_done]
  exact ⟨_, _, rfl, rfl, rfl, rfl⟩

/-- An alias without settings of its own behaves like its language: the pipelines make the same
calls up to the attributes, and come to the same result if the transformers ignore these.  The
exception is a function that stands in for the target language. -/
theorem bare_alias_behaves_as_language (h : p.IsBareAlias name language) (kind : BlockKind)
    (block : Block) :
    (¬ p.TakesOver kind name language →
      (p.process kind (block.writtenAs name)).Alike p
        (p.process kind (block.writtenAs language)) ∧
      ((∀ t, p.Offers t → t.IgnoresAttributes) →
        List.Forall₂ (Event.Alike p) (p.process kind (block.writtenAs name)).events
          (p.process kind (block.writtenAs language)).events ∧
        (p.process kind (block.writtenAs name)).outcome =
          (p.process kind (block.writtenAs language)).outcome)) ∧
    (p.TakesOver kind name language →
      ∃ call first, Event.calls (p.primary kind (block.writtenAs name)).events = [call] ∧
        call.callee = .override language ∧
        p.primary kind (block.writtenAs language) = .done first ∧
        call.input.content = first.output.code) := by
  refine ⟨fun hfree => ?_, fun htakes => primary_takeover h.spells h.spells_language htakes block⟩
  have hself : ¬ p.TakesOver kind language language := fun takes => takes.1 rfl
  have halike := process_alike h.spells h.spells_language hfree hself block
  exact ⟨halike, halike.agree⟩

theorem ignoresAttributes_register {w : Workshop}
    (h : ∀ kind t, w.transformer? kind = some t → t.IgnoresAttributes)
    (results : List (TransformerKind × Output)) {kind : TransformerKind} {t : Transformer}
    (ht : (results.foldl (fun w entry => w.register entry.1 fun _ => .done entry.2)
      w).transformer? kind = some t) : t.IgnoresAttributes := by
  induction results generalizing w with
  | nil => exact h kind t ht
  | cons entry rest ih =>
    refine ih (fun kind t ht => ?_) ht
    simp only [Workshop.register] at ht
    split at ht
    · cases ht
      exact fun _ _ _ => rfl
    · exact h kind t ht

/-- Transformers that give one result each ignore the attributes. -/
theorem ignoresAttributes_ofResults {settings : List (String × Setting)}
    {results : List (TransformerKind × Output)}
    (h : ∀ name t, (Table.ofList settings).get? name = some (.override t) → t.IgnoresAttributes)
    (t : Transformer) (hoffers : (ofResults settings results).Offers t) : t.IgnoresAttributes := by
  obtain ⟨name, kind, hfind⟩ | ⟨name, hset⟩ := hoffers
  · obtain ⟨kind, -, hkind⟩ := Option.bind_eq_some_iff.1 hfind
    obtain ⟨t, ht, heq⟩ := Option.bind_eq_some_iff.1 hkind
    cases heq
    exact ignoresAttributes_register (fun _ _ hempty => by cases hempty) results ht
  · exact h name t hset

/-- CoffeeScript that babel goes over. -/
def coffeeThroughBabel : Preprocessor :=
  ofResults [("babel", .enabled true)]
    [(.coffeescript, .ofCode "const x = 1"), (.babel, .ofCode "var x = 1")]

/-- A script that says nothing about its language. -/
def plainScript : Block := { content := "x = 1" }

theorem bare_alias_coffee_behaves_as_coffeescript :
    coffeeThroughBabel.IsBareAlias "coffee" "coffeescript" ∧
    ¬ coffeeThroughBabel.TakesOver .script "coffee" "coffeescript" ∧
    (Event.calls
      (coffeeThroughBabel.process .script (plainScript.writtenAs "coffee")).events).length = 2 ∧
    List.Forall₂ (Event.Alike coffeeThroughBabel)
      (coffeeThroughBabel.process .script (plainScript.writtenAs "coffee")).events
      (coffeeThroughBabel.process .script (plainScript.writtenAs "coffeescript")).events ∧
    (coffeeThroughBabel.process .script (plainScript.writtenAs "coffee")).outcome =
      (coffeeThroughBabel.process .script (plainScript.writtenAs "coffeescript")).outcome := by
  have hbare : coffeeThroughBabel.IsBareAlias "coffee" "coffeescript" := ⟨rfl, rfl, rfl, rfl⟩
  have hfree : ¬ coffeeThroughBabel.TakesOver .script "coffee" "coffeescript" :=
    fun takes => absurd takes.2.1 (by decide)
  have hignore : ∀ t, coffeeThroughBabel.Offers t → t.IgnoresAttributes :=
    ignoresAttributes_ofResults fun name t hset => by
      simp [Table.get?_ofList, Entries.insertAll, Entries.insert, Entries.get?] at hset
  exact ⟨hbare, hfree, rfl,
    ((bare_alias_behaves_as_language hbare .script plainScript).1 hfree).2 hignore⟩

/-- A function in place of the stage for CSS. -/
def cssOverride : Preprocessor :=
  ofResults [("css", .override fun _ => .done (.ofCode "x"))] []

/-- A style that says nothing about its language. -/
def plainStyle : Block := { content := "a {}" }

/-- The function of CSS is called for a style that is written as `pcss`, although that alias has no
settings, and not for one that is written as `css`. -/
theorem bare_alias_pcss_differs_from_css :
    cssOverride.IsBareAlias "pcss" "css" ∧
    (∀ t, cssOverride.Offers t → t.IgnoresAttributes) ∧
    (cssOverride.process .style (plainStyle.writtenAs "pcss")).outcome =
      .ok (.ofCode "x") ∧
    (cssOverride.process .style (plainStyle.writtenAs "css")).outcome =
      .ok (.ofCode "a {}") := by
  refine ⟨⟨rfl, rfl, rfl, rfl⟩, ignoresAttributes_ofResults fun name t hset => ?_, rfl, rfl⟩
  have hfunction : t = fun _ => .done (.ofCode "x") := by
    simp [Table.get?_ofList, Entries.insertAll, Entries.insert, Entries.get?] at hset
    exact hset.2.symm
  exact fun _ _ _ => by rw [hfunction]

end Preprocessor
end Inlay
