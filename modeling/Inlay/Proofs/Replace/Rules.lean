import Inlay.Proofs.Outcome
import Inlay.Proofs.Text.Occurrences
import Inlay.Replace.Rule

/-!
# Reading replacement rules

A pattern is a regular expression exactly when it is delimited: a slash, a body, a slash, and
letters for modes.  No letter is a slash, so the last slash is the only one that can close the body,
and a pattern is delimited in at most one way (`splitSlashes?_eq_some_iff`, `Delimited.unique`).
Any other pattern stands for itself (`of_eq_literal_iff`).  An entry either reads as one rule
(`ofEntry_eq_ok_iff`) or is refused for one reason (`ofEntry_eq_error_iff`), and a list fails with
the reason of the first entry that is refused (`rulesOf_eq_error_iff`).  Which expressions can be
compiled is up to the engine.
-/

namespace Inlay
namespace Replace

variable {engine : Regex.Engine} {pattern body letters other otherLetters : List Char}
  {entry value : Json} {rule : Rule engine} {rules : List (Rule engine)} {cause : RuleError}

/-! ## Patterns between slashes -/

/-- A body between slashes, with letters for modes behind it. -/
structure Delimited (pattern body letters : List Char) : Prop where
  split : pattern = '/' :: (body ++ '/' :: letters)
  body_ne_nil : body ≠ []
  letters_mem : ∀ c ∈ letters, c ∈ modeLetters

theorem Delimited.slash_notMem (h : Delimited pattern body letters) : '/' ∉ letters :=
  fun hslash => absurd (h.letters_mem _ hslash) (by decide)

theorem splitSlashes?_eq_some_iff :
    splitSlashes? pattern = some (body, letters) ↔ Delimited pattern body letters := by
  constructor
  · intro h
    unfold splitSlashes? at h
    split at h
    case h_1 rest =>
      split at h
      case h_1 front back hcut =>
        split at h
        case isTrue hguard =>
          cases h
          obtain ⟨rfl, -⟩ := Text.cutAtLast?_eq_some_iff.1 hcut
          rw [Bool.and_eq_true, decide_eq_true_eq, List.all_eq_true] at hguard
          exact ⟨rfl, hguard.1, fun c hc => List.contains_iff_mem.1 (hguard.2 c hc)⟩
        case isFalse => cases h
      case h_2 => cases h
    case h_2 => cases h
  · intro h
    have hcut := Text.cutAtLast?_append h.slash_notMem body
    have hguard : (decide (body ≠ []) && letters.all modeLetters.contains) = true := by
      rw [Bool.and_eq_true, decide_eq_true_eq, List.all_eq_true]
      exact ⟨h.body_ne_nil, fun c hc => List.contains_iff_mem.2 (h.letters_mem c hc)⟩
    simp only [h.split, splitSlashes?, hcut]
    exact if_pos hguard

theorem splitSlashes?_eq_none_iff :
    splitSlashes? pattern = none ↔ ∀ body letters, ¬ Delimited pattern body letters := by
  simp only [← splitSlashes?_eq_some_iff, Option.eq_none_iff_forall_ne_some, Prod.forall, ne_eq]

theorem Delimited.unique (h : Delimited pattern body letters)
    (h' : Delimited pattern other otherLetters) : body = other ∧ letters = otherLetters := by
  have hsame := (splitSlashes?_eq_some_iff.2 h).symm.trans (splitSlashes?_eq_some_iff.2 h')
  exact Prod.mk.inj (Option.some.inj hsame)

theorem delimited_toList_iff {pattern body letters : String} :
    Delimited pattern.toList body.toList letters.toList ↔
      pattern = "/" ++ body ++ "/" ++ letters ∧ body ≠ "" ∧
        ∀ c ∈ letters.toList, c ∈ modeLetters := by
  have hsplit : pattern = "/" ++ body ++ "/" ++ letters ↔
      pattern.toList = '/' :: (body.toList ++ '/' :: letters.toList) := by
    rw [← String.toList_inj]
    simp
  have hbody : body ≠ "" ↔ body.toList ≠ [] := String.toList_eq_nil_iff.not.symm
  rw [hsplit, hbody]
  constructor
  · intro h
    exact ⟨h.split, h.body_ne_nil, h.letters_mem⟩
  · rintro ⟨hsplit, hbody, hletters⟩
    exact ⟨hsplit, hbody, hletters⟩

/-- A pattern that is not delimited stands for itself, and no other one does. -/
theorem of_eq_literal_iff {pattern replacement : String} {old new : List Char} :
    Rule.of engine pattern replacement = .ok (.literal old new) ↔
      (∀ body letters, ¬ Delimited pattern.toList body letters) ∧ old = pattern.toList ∧
        new = replacement.toList := by
  rw [← splitSlashes?_eq_none_iff, Rule.of]
  cases splitSlashes? pattern.toList with
  | none => simp [eq_comm]
  | some parts =>
    refine iff_of_false ?_ (fun h => nomatch h.1)
    dsimp only
    split <;> exact fun h => nomatch h

/-- A pattern is split exactly if it is a slash, a body, a slash and letters for modes, the body not
empty and perhaps with slashes of its own.  There is at most one way to read it so, and where there
is none the pattern is taken for a text that stands for itself. -/
theorem splits_exactly_delimited (pattern : String) :
    (∀ body letters : String, splitSlashes? pattern.toList = some (body.toList, letters.toList) ↔
      pattern = "/" ++ body ++ "/" ++ letters ∧ body ≠ "" ∧
        ∀ c ∈ letters.toList, c ∈ ['g', 'i', 'm', 's', 'u', 'y']) ∧
    (∀ body letters other otherLetters, Delimited pattern.toList body letters →
      Delimited pattern.toList other otherLetters → body = other ∧ letters = otherLetters) ∧
    ∀ (engine : Regex.Engine) (replacement : String) (old new : List Char),
      Rule.of engine pattern replacement = .ok (.literal old new) ↔
        (∀ body letters, ¬ Delimited pattern.toList body letters) ∧ old = pattern.toList ∧
          new = replacement.toList := by
  refine ⟨fun body letters => ?_, fun _ _ _ _ h h' => h.unique h',
    fun _ _ _ _ => of_eq_literal_iff⟩
  rw [splitSlashes?_eq_some_iff]
  exact delimited_toList_iff

theorem splits_exactly_delimited_slashes :
    Delimited "//a//g".toList "/a/".toList "g".toList ∧
      ∀ body letters, Delimited "//a//g".toList body letters →
        body = "/a/".toList ∧ letters = "g".toList := by
  have h : Delimited "//a//g".toList "/a/".toList "g".toList :=
    ⟨rfl, by decide, by simp [modeLetters]⟩
  exact ⟨h, fun body letters h' => (splits_exactly_delimited "//a//g").2.1 body letters _ _ h' h⟩

/-- A path is taken for a regular expression if its last name has only letters for modes. -/
example : splitSlashes? "/usr/gym".toList = some ("usr".toList, "gym".toList) := by decide

/-! ## Entries -/

/-- The rule that an entry stands for. -/
inductive Reads : Json → Rule engine → Prop
  | literal {pattern replacement : String}
    (h : ∀ body letters, ¬ Delimited pattern.toList body letters) :
    Reads (.array [.string pattern, .string replacement])
      (.literal pattern.toList replacement.toList)
  | regex {pattern replacement : String} {body letters : List Char} {program : engine.Program}
    {everywhere : Bool} (h : Delimited pattern.toList body letters)
    (hprogram : engine.compile (modesOf letters) (String.ofList body) = .ok program)
    (heverywhere : everywhere = true ↔ 'g' ∈ letters) :
    Reads (.array [.string pattern, .string replacement])
      (.regex program everywhere (braced replacement.toList))

/-- Why an entry stands for no rule. -/
inductive Refuses (engine : Regex.Engine) : Json → RuleError → Prop
  | shape {entry : Json}
    (h : ∀ pattern replacement, entry ≠ .array [.string pattern, .string replacement]) :
    Refuses engine entry (.invalidRule entry)
  | pattern {pattern replacement cause : String} {body letters : List Char}
    (h : Delimited pattern.toList body letters)
    (hprogram : engine.compile (modesOf letters) (String.ofList body) = .error cause) :
    Refuses engine (.array [.string pattern, .string replacement]) (.invalidPattern pattern cause)

theorem reads_or_refuses (engine : Regex.Engine) (entry : Json) :
    (∃ rule : Rule engine, Reads entry rule) ∨ ∃ cause, Refuses engine entry cause := by
  by_cases hshape : ∀ pattern replacement, entry ≠ .array [.string pattern, .string replacement]
  · exact .inr ⟨_, .shape hshape⟩
  push Not at hshape
  obtain ⟨pattern, replacement, rfl⟩ := hshape
  by_cases hliteral : ∀ body letters, ¬ Delimited pattern.toList body letters
  · exact .inl ⟨_, .literal hliteral⟩
  push Not at hliteral
  obtain ⟨body, letters, h⟩ := hliteral
  cases hprogram : engine.compile (modesOf letters) (String.ofList body) with
  | ok program =>
    exact .inl ⟨.regex program (letters.contains 'g') _, .regex h hprogram List.contains_iff_mem⟩
  | error cause => exact .inr ⟨_, .pattern h hprogram⟩

theorem ofEntry_of_reads (h : Reads entry rule) : Rule.ofEntry engine entry = .ok rule := by
  cases h with
  | literal h => rw [Rule.ofEntry, Rule.of, splitSlashes?_eq_none_iff.2 h]
  | @regex _ _ _ letters _ everywhere h hprogram heverywhere =>
    have hletters : letters.contains 'g' = everywhere :=
      Bool.eq_iff_iff.2 (List.contains_iff_mem.trans heverywhere.symm)
    simp only [Rule.ofEntry, Rule.of, splitSlashes?_eq_some_iff.2 h, hprogram, hletters]

theorem ofEntry_of_refuses (h : Refuses engine entry cause) :
    Rule.ofEntry engine entry = .error cause := by
  cases h with
  | shape h =>
    unfold Rule.ofEntry
    split
    case h_1 pattern replacement => exact absurd rfl (h pattern replacement)
    case h_2 => rfl
  | pattern h hprogram =>
    simp only [Rule.ofEntry, Rule.of, splitSlashes?_eq_some_iff.2 h, hprogram]

theorem ofEntry_eq_ok_iff : Rule.ofEntry engine entry = .ok rule ↔ Reads entry rule := by
  refine ⟨fun h => ?_, ofEntry_of_reads⟩
  obtain ⟨found, hfound⟩ | ⟨cause, hcause⟩ := reads_or_refuses engine entry
  · cases h.symm.trans (ofEntry_of_reads hfound)
    exact hfound
  · cases h.symm.trans (ofEntry_of_refuses hcause)

theorem ofEntry_eq_error_iff :
    Rule.ofEntry engine entry = .error cause ↔ Refuses engine entry cause := by
  refine ⟨fun h => ?_, ofEntry_of_refuses⟩
  obtain ⟨rule, hrule⟩ | ⟨found, hfound⟩ := reads_or_refuses engine entry
  · cases h.symm.trans (ofEntry_of_reads hrule)
  · cases h.symm.trans (ofEntry_of_refuses hfound)
    exact hfound

/-! ## Lists of entries -/

/-- Why an options value cannot be used: all entries in front of the refused one read as rules. -/
inductive FirstFault (engine : Regex.Engine) : Json → RuleError → Prop
  | notAList {value : Json} (h : ∀ entries, value ≠ .array entries) :
    FirstFault engine value .notAList
  | entry {good rest : List Json} {bad : Json} {cause : RuleError}
    (hgood : ∀ entry ∈ good, ∃ rule : Rule engine, Reads entry rule)
    (hbad : Refuses engine bad cause) :
    FirstFault engine (.array (good ++ bad :: rest)) cause

theorem rulesOf_eq_ok_iff : rulesOf engine value = .ok rules ↔
    ∃ entries, value = .array entries ∧ List.Forall₂ Reads entries rules := by
  unfold rulesOf
  split
  case h_1 entries =>
    rw [mapM_eq_ok_iff]
    simp only [ofEntry_eq_ok_iff, Json.array.injEq, exists_eq_left']
  case h_2 hvalue =>
    refine iff_of_false nofun ?_
    rintro ⟨entries, rfl, -⟩
    exact hvalue entries rfl

theorem rulesOf_eq_error_iff :
    rulesOf engine value = .error cause ↔ FirstFault engine value cause := by
  constructor
  · intro h
    unfold rulesOf at h
    split at h
    case h_1 entries =>
      obtain ⟨good, bad, rest, rfl, hgood, hbad⟩ := mapM_eq_error_iff.1 h
      simp only [ofEntry_eq_ok_iff] at hgood
      exact .entry hgood (ofEntry_eq_error_iff.1 hbad)
    case h_2 hvalue =>
      cases h
      exact .notAList hvalue
  · intro h
    cases h with
    | notAList h =>
      unfold rulesOf
      split
      case h_1 entries => exact absurd rfl (h entries)
      case h_2 => rfl
    | @entry good rest bad _ hgood hbad =>
      simp only [← ofEntry_eq_ok_iff] at hgood
      exact mapM_eq_error_iff.2 ⟨good, bad, rest, rfl, hgood, ofEntry_eq_error_iff.2 hbad⟩

/-- Any entry that is refused makes the whole list fail. -/
theorem exists_firstFault_iff :
    (∃ cause, FirstFault engine value cause) ↔
      (∀ entries, value ≠ .array entries) ∨
        ∃ entries entry cause, value = .array entries ∧ entry ∈ entries ∧
          Refuses engine entry cause := by
  constructor
  · rintro ⟨cause, h⟩
    cases h with
    | notAList hvalue => exact .inl hvalue
    | entry _ hbad => exact .inr ⟨_, _, cause, rfl, by simp, hbad⟩
  · rintro (hvalue | ⟨entries, entry, cause, rfl, hentry, hcause⟩)
    · exact ⟨_, .notAList hvalue⟩
    cases hrules : rulesOf engine (.array entries) with
    | error first => exact ⟨first, rulesOf_eq_error_iff.1 hrules⟩
    | ok rules =>
      obtain ⟨_, heq, hreads⟩ := rulesOf_eq_ok_iff.1 hrules
      cases heq
      have hall : ∀ entry ∈ entries, ∃ rule : Rule engine, Reads entry rule :=
        ((List.forall₂_and_left _ _).1 (hreads.imp fun _ rule hrule => ⟨⟨rule, hrule⟩, hrule⟩)).1
      obtain ⟨rule, hrule⟩ := hall entry hentry
      cases (ofEntry_of_reads hrule).symm.trans (ofEntry_of_refuses hcause)

end Replace
end Inlay
