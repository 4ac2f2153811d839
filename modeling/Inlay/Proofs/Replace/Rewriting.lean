import Inlay.Proofs.Pattern.Matches
import Inlay.Proofs.Replace.Rules
import Inlay.Replace.Transformer

/-!
# What replacement rules do to a text

A literal rule replaces the first occurrence of its text, a regular expression all of its matches or
the first one, and a list of rules goes over a text in its order (`Rule.Rewrites`, `RewritesAll`).
These relations determine the result and the functions compute it (`apply_eq_iff`, `foldl_eq_iff`).
All rules are read before the first one is applied, so a list with a fault has no result.

The engine is any that keeps the order of matches: between two matches that overlap there would be
no text that stays.
-/

namespace Inlay
namespace Replace

open Regex (Engine Match)

variable {engine : Engine} {rule : Rule engine} {rules : List (Rule engine)}
  {template text result : List Char}

/-! ## Putting texts in the place of matches -/

/-- A text that starts at `place` with each match replaced.  What is between matches stays. -/
inductive Substituted (new : Match → List Char) :
    Nat → List Char → List Match → List Char → Prop
  | nil {place : Nat} {text : List Char} : Substituted new place text [] text
  | cons {place : Nat} {m : Match} {ms : List Match}
    {kept old behind result : List Char} (hstart : m.start = place + kept.length)
    (hstop : m.stop = m.start + old.length) (h : Substituted new m.stop behind ms result) :
    Substituted new place (kept ++ old ++ behind) (m :: ms) (kept ++ new m ++ result)

theorem Substituted.unique {new : Match → List Char} {place : Nat} {ms : List Match}
    {first second : List Char} (h : Substituted new place text ms first)
    (h' : Substituted new place text ms second) : first = second := by
  induction h generalizing second with
  | nil => cases h'; rfl
  | @cons place m ms kept old behind result hstart hstop _ ih =>
    -- The match says how long both parts are, so the text is cut at the same places.
    generalize hcut : kept ++ old ++ behind = cut at h'
    cases h' with
    | @cons _ _ _ kept' old' behind' _ hstart' hstop' h' =>
      have hkept : kept.length = kept'.length := by omega
      have hold : old.length = old'.length := by omega
      rw [List.append_assoc, List.append_assoc] at hcut
      obtain ⟨rfl, hbehind⟩ := List.append_inj hcut hkept
      obtain ⟨rfl, rfl⟩ := List.append_inj hbehind hold
      rw [ih h']

theorem slice_append_drop {cs : Array Char} {start stop : Nat} (h : start ≤ stop) :
    slice cs start stop ++ cs.toList.drop stop = cs.toList.drop start := by
  have hdrop : cs.toList.drop stop = (cs.toList.drop start).drop (stop - start) := by
    rw [List.drop_drop, Nat.add_sub_cancel' h]
  rw [slice, Array.toList_extract, List.extract_eq_take_drop, hdrop, List.take_append_drop]

theorem slice_size (cs : Array Char) (start : Nat) :
    slice cs start cs.size = cs.toList.drop start := by
  rw [slice, Array.toList_extract, List.extract_eq_take_drop]
  exact List.take_of_length_le (by simp)

theorem length_slice {cs : Array Char} {start stop : Nat} (h : stop ≤ cs.size) :
    (slice cs start stop).length = stop - start := by
  rw [slice, Array.length_toList, Array.size_extract, Nat.min_eq_left h]

theorem substituted_substituteFrom {cs : Array Char} {place : Nat} {ms : List Match}
    (h : Regex.InOrder cs.size place ms) :
    Substituted (fun m => expand (groupsOf cs m) template) place (cs.toList.drop place) ms
      (substituteFrom template cs place ms) := by
  induction h with
  | nil =>
    rw [substituteFrom, slice_size]
    exact .nil
  | @cons place m ms hm _ ih =>
    rw [← slice_append_drop hm.lo_le, ← slice_append_drop hm.start_le, ← List.append_assoc]
    refine .cons ?_ ?_ ih
    · rw [length_slice (Nat.le_trans hm.start_le hm.stop_le), Nat.add_sub_cancel' hm.lo_le]
    · rw [length_slice hm.stop_le, Nat.add_sub_cancel' hm.start_le]

/-! ## Rules -/

/-- What a rule makes of a text. -/
inductive Rule.Rewrites : Rule engine → List Char → List Char → Prop
  | occurs {old new text before behind : List Char}
    (h : Text.FirstOccurrence old text before behind) :
    Rewrites (.literal old new) text (before ++ new ++ behind)
  | absent {old new text : List Char} (h : ¬ old <:+: text) : Rewrites (.literal old new) text text
  | all {program : engine.Program} {template text result : List Char}
    (h : Substituted (fun m => expand (groupsOf text.toArray m) template) 0 text
      (engine.matchesOf program text.toArray) result) :
    Rewrites (.regex program true template) text result
  | first {program : engine.Program} {template text result : List Char}
    (h : Substituted (fun m => expand (groupsOf text.toArray m) template) 0 text
      ((engine.matchesOf program text.toArray).take 1) result) :
    Rewrites (.regex program false template) text result

theorem rewrites_apply (hengine : engine.KeepsOrder) (rule : Rule engine) (text : List Char) :
    rule.Rewrites text (rule.apply text) := by
  cases rule with
  | literal old new =>
    rw [Rule.apply, Text.replaceFirst]
    split
    case h_1 before behind hcut => exact .occurs (Text.firstOccurrence_of_cutAt? hcut)
    case h_2 hcut => exact .absent (Text.cutAt?_eq_none_iff.1 hcut)
  | regex program everywhere template =>
    have horder := hengine program text.toArray
    cases everywhere with
    | false => exact .first (substituted_substituteFrom (horder.take 1))
    | true => exact .all (substituted_substituteFrom horder)

theorem Rule.Rewrites.eq_replaceFirst {old new : List Char}
    (h : (Rule.literal old new : Rule engine).Rewrites text result) :
    result = Text.replaceFirst old new text := by
  cases h with
  | occurs h => exact (Text.replaceFirst_of_first h new).symm
  | absent h => exact (Text.replaceFirst_of_absent h new).symm

theorem Rule.Rewrites.unique {other : List Char} (h : rule.Rewrites text result)
    (h' : rule.Rewrites text other) : result = other := by
  cases rule with
  | literal old new => rw [h.eq_replaceFirst, h'.eq_replaceFirst]
  | regex program everywhere template =>
    cases h with
    | all h =>
      cases h' with
      | all h' => exact h.unique h'
    | first h =>
      cases h' with
      | first h' => exact h.unique h'

theorem apply_eq_iff (hengine : engine.KeepsOrder) :
    rule.apply text = result ↔ rule.Rewrites text result := by
  constructor
  · rintro rfl
    exact rewrites_apply hengine rule text
  · exact (rewrites_apply hengine rule text).unique

/-- The empty text occurs at the front of every text. -/
theorem rewrites_empty_iff {new : List Char} :
    (Rule.literal [] new : Rule engine).Rewrites text result ↔ result = new ++ text := by
  have hfirst : Text.FirstOccurrence [] text [] text := ⟨rfl, fun _ _ _ => Nat.zero_le _⟩
  have hfront : (Rule.literal [] new : Rule engine).Rewrites text (new ++ text) := .occurs hfirst
  constructor
  · intro h
    exact h.unique hfront
  · rintro rfl
    exact hfront

/-! ## Lists of rules -/

/-- What rules make of a text, each of what the one before it left. -/
inductive RewritesAll : List (Rule engine) → List Char → List Char → Prop
  | nil {text : List Char} : RewritesAll [] text text
  | cons {rule : Rule engine} {rules : List (Rule engine)} {text between result : List Char}
    (h : rule.Rewrites text between) (hrest : RewritesAll rules between result) :
    RewritesAll (rule :: rules) text result

theorem foldl_eq_iff (hengine : engine.KeepsOrder) :
    rules.foldl (fun text rule => rule.apply text) text = result ↔
      RewritesAll rules text result := by
  constructor
  · rintro rfl
    induction rules generalizing text with
    | nil => exact .nil
    | cons rule rules ih => exact .cons (rewrites_apply hengine rule text) ih
  · intro h
    induction h with
    | nil => rfl
    | cons h _ ih => rw [List.foldl_cons, (apply_eq_iff hengine).2 h, ih]

/-! ## The transformer -/

variable {input : StageInput} {value : Json}

theorem outcome_transformer (engine : Engine) (input : StageInput) (value : Json) :
    (transformer engine { input with options := some value }).outcome =
      match rulesOf engine value with
      | .ok rules => .ok (.ofCode (String.ofList
          (rules.foldl (fun text rule => rule.apply text) input.content.toList)))
      | .error cause => .error (.transform "replace" cause.message) := by
  simp only [transformer, replaceAll]
  cases rulesOf engine value <;> rfl

theorem outcome_eq_error_iff {failure : Failure} :
    (transformer engine { input with options := some value }).outcome = .error failure ↔
      ∃ cause, FirstFault engine value cause ∧ failure = .transform "replace" cause.message := by
  simp only [← rulesOf_eq_error_iff]
  rw [outcome_transformer]
  cases rulesOf engine value <;> simp [eq_comm]

theorem outcome_eq_ok_iff (hengine : engine.KeepsOrder) {output : Output} :
    (transformer engine { input with options := some value }).outcome = .ok output ↔
      ∃ (entries : List Json) (rules : List (Rule engine)) (result : List Char),
        value = .array entries ∧ List.Forall₂ Reads entries rules ∧
          RewritesAll rules input.content.toList result ∧
            output = .ofCode (String.ofList result) := by
  rw [outcome_transformer]
  constructor
  · intro h
    cases hrules : rulesOf engine value with
    | error cause => rw [hrules] at h; cases h
    | ok rules =>
      rw [hrules] at h
      obtain ⟨entries, hentries, hreads⟩ := rulesOf_eq_ok_iff.1 hrules
      exact ⟨entries, rules, _, hentries, hreads, (foldl_eq_iff hengine).1 rfl,
        (Except.ok.inj h).symm⟩
  · rintro ⟨entries, rules, result, hentries, hreads, hresult, rfl⟩
    rw [rulesOf_eq_ok_iff.2 ⟨entries, hentries, hreads⟩]
    dsimp only
    rw [(foldl_eq_iff hengine).2 hresult]

/-- Without options the content stays.  A list of which every entry reads as a rule rewrites the
content by these rules in their order; the first other entry, or a value that is no list, is the
error, whatever the content is. -/
theorem transformer_folds_rules (hengine : engine.KeepsOrder) (input : StageInput)
    (value : Json) :
    let run := transformer engine { input with options := some value }
    transformer engine { input with options := none } = .done (.ofCode input.content) ∧
    ((∃ failure, run.outcome = .error failure) ↔
      (∀ entries, value ≠ .array entries) ∨
        ∃ entries entry cause, value = .array entries ∧ entry ∈ entries ∧
          Refuses engine entry cause) ∧
    (∀ failure, run.outcome = .error failure ↔
      ∃ cause, FirstFault engine value cause ∧ failure = .transform "replace" cause.message) ∧
    (∀ output, run.outcome = .ok output ↔
      ∃ (entries : List Json) (rules : List (Rule engine)) (result : List Char),
        value = .array entries ∧ List.Forall₂ Reads entries rules ∧
          RewritesAll rules input.content.toList result ∧
            output = .ofCode (String.ofList result)) ∧
    ∀ new text result,
      (Rule.literal [] new : Rule engine).Rewrites text result ↔ result = new ++ text := by
  intro run
  refine ⟨rfl, ?_, fun _ => outcome_eq_error_iff, fun _ => outcome_eq_ok_iff hengine,
    fun _ _ _ => rewrites_empty_iff⟩
  rw [← exists_firstFault_iff]
  constructor
  · rintro ⟨failure, hfailure⟩
    obtain ⟨cause, hcause, -⟩ := outcome_eq_error_iff.1 hfailure
    exact ⟨cause, hcause⟩
  · rintro ⟨cause, hcause⟩
    exact ⟨_, outcome_eq_error_iff.2 ⟨cause, hcause, rfl⟩⟩

/-- A rule for a text and one for every match of an expression, with the same replacement. -/
def dollarEntries : List Json :=
  [.array [.string "a", .string "<$&>"], .array [.string "/a/g", .string "<$&>"]]

def dollarRules : List (Rule Pattern.engine) :=
  [.literal "a".toList "<$&>".toList, .regex Pattern.letterProgram true (braced "<$&>".toList)]

theorem reads_dollarEntries : List.Forall₂ Reads dollarEntries dollarRules := by
  have hplain : ∀ body letters, ¬ Delimited "a".toList body letters :=
    splitSlashes?_eq_none_iff.1 (by decide)
  have hregex : Delimited "/a/g".toList ['a'] ['g'] := splitSlashes?_eq_some_iff.1 (by decide)
  exact .cons (.literal hplain) (.cons (.regex hregex Pattern.compile_letter (by decide)) .nil)

theorem rewritesAll_dollarRules :
    RewritesAll dollarRules "baaa".toList "b<$&><a><a>".toList := by
  have hmatches : Pattern.allMatches Pattern.letterProgram "b<$&>aa".toList.toArray =
      [⟨5, 6, []⟩, ⟨6, 7, []⟩] := by cbv
  refine (foldl_eq_iff Pattern.keepsOrder_engine).1 ?_
  show substituteFrom (braced "<$&>".toList) "b<$&>aa".toList.toArray 0
    ((Pattern.allMatches Pattern.letterProgram "b<$&>aa".toList.toArray).map _) = _
  rw [hmatches]
  rfl

/-- The first rule puts its replacement in as it is written, and once; the other one sees what it
left, and replaces every match. -/
theorem transformer_folds_rules_dollars :
    Pattern.engine.KeepsOrder ∧
      (transformer Pattern.engine
        { content := "baaa", options := some (.array dollarEntries) }).outcome =
          .ok (.ofCode "b<$&><a><a>") := by
  have hfold := transformer_folds_rules Pattern.keepsOrder_engine { content := "baaa" }
    (.array dollarEntries)
  exact ⟨Pattern.keepsOrder_engine, (hfold.2.2.2.1 _).2
    ⟨dollarEntries, dollarRules, _, rfl, reads_dollarEntries, rewritesAll_dollarRules, rfl⟩⟩

end Replace
end Inlay
