import Inlay.Text.Search
import Mathlib.Data.List.Basic

/-!
# Occurrences in a text

Cutting a text at another one finds the occurrence with the least in front of it, and finds none
only where there is none (`cutAt?_eq_some_iff`, `cutAt?_eq_none_iff`).  Cutting at the last
occurrence of a character leaves none behind (`cutAtLast?_eq_some_iff`), and at the first one none
in front (`cutAtFirst?_eq_some_iff`), so each of them is the only such cut.
-/

namespace Inlay
namespace Text

variable {sep : Char} {needle cs before behind old new : List Char}

/-! ## Occurrences of a text -/

/-- The first occurrence of a text: no other one has less in front of it. -/
structure FirstOccurrence (needle cs before behind : List Char) : Prop where
  split : cs = before ++ needle ++ behind
  least : ∀ front rest, cs = front ++ needle ++ rest → before.length ≤ front.length

theorem cutAt?_of_dropFront? (h : dropFront? needle cs = some behind) :
    cutAt? needle cs = some ([], behind) := by
  cases cs with
  | nil =>
    rw [dropFront?_eq_some_iff, eq_comm, List.append_eq_nil_iff] at h
    obtain ⟨rfl, rfl⟩ := h
    rfl
  | cons c cs => rw [cutAt?, h]

/-- No occurrence has less in front of it than the one at which a text is cut. -/
theorem exists_cutAt? (needle front rest : List Char) :
    ∃ before behind, cutAt? needle (front ++ needle ++ rest) = some (before, behind) ∧
      before <+: front := by
  induction front with
  | nil =>
    have hdrop : dropFront? needle (needle ++ rest) = some rest := dropFront?_eq_some_iff.2 rfl
    exact ⟨[], rest, cutAt?_of_dropFront? hdrop, List.nil_prefix⟩
  | cons c front ih =>
    obtain ⟨before, behind, hcut, hbefore⟩ := ih
    rw [List.cons_append, List.cons_append, cutAt?]
    split
    case h_1 behind _ => exact ⟨[], behind, rfl, List.nil_prefix⟩
    case h_2 =>
      rw [hcut]
      exact ⟨c :: before, behind, rfl, (List.prefix_cons_inj c).2 hbefore⟩

theorem firstOccurrence_of_cutAt? (h : cutAt? needle cs = some (before, behind)) :
    FirstOccurrence needle cs before behind where
  split := eq_of_cutAt? h
  least := by
    intro front rest hother
    obtain ⟨_, _, hcut, hprefix⟩ := exists_cutAt? needle front rest
    rw [← hother, h] at hcut
    obtain ⟨rfl, -⟩ := Prod.mk.inj (Option.some.inj hcut)
    exact hprefix.length_le

theorem cutAt?_eq_some_iff :
    cutAt? needle cs = some (before, behind) ↔ FirstOccurrence needle cs before behind := by
  refine ⟨firstOccurrence_of_cutAt?, ?_⟩
  intro h
  obtain ⟨front, rest, hcut, hprefix⟩ := exists_cutAt? needle before behind
  rw [← h.split] at hcut
  have hsplit := eq_of_cutAt? hcut
  obtain rfl := hprefix.eq_of_length_le (h.least front rest hsplit)
  rw [h.split, List.append_cancel_left_eq] at hsplit
  rw [hcut, hsplit]

theorem cutAt?_eq_none_iff : cutAt? needle cs = none ↔ ¬ needle <:+: cs := by
  constructor
  · rintro h ⟨front, rest, rfl⟩
    obtain ⟨_, _, hcut, -⟩ := exists_cutAt? needle front rest
    rw [h] at hcut
    cases hcut
  · intro h
    rw [Option.eq_none_iff_forall_ne_some]
    rintro ⟨before, behind⟩ hcut
    exact h ⟨before, behind, (eq_of_cutAt? hcut).symm⟩

theorem replaceFirst_of_first (h : FirstOccurrence old cs before behind) (new : List Char) :
    replaceFirst old new cs = before ++ new ++ behind := by
  rw [replaceFirst, cutAt?_eq_some_iff.2 h]

theorem replaceFirst_of_absent (h : ¬ old <:+: cs) (new : List Char) :
    replaceFirst old new cs = cs := by
  rw [replaceFirst, cutAt?_eq_none_iff.2 h]

/-! ## Occurrences of a character -/

theorem cutAtLast?_of_notMem (h : sep ∉ cs) : cutAtLast? sep cs = none := by
  induction cs with
  | nil => rfl
  | cons c cs ih =>
    rw [List.mem_cons, not_or] at h
    rw [cutAtLast?, ih h.2]
    exact if_neg (Ne.symm h.1)

theorem cutAtLast?_append (h : sep ∉ behind) (before : List Char) :
    cutAtLast? sep (before ++ sep :: behind) = some (before, behind) := by
  induction before with
  | nil =>
    rw [List.nil_append, cutAtLast?, cutAtLast?_of_notMem h]
    exact if_pos rfl
  | cons c before ih => rw [List.cons_append, cutAtLast?, ih]

theorem exists_last_of_mem (h : sep ∈ cs) : ∃ before behind, cs = before ++ sep :: behind ∧
    sep ∉ behind := by
  obtain ⟨behind, before, hreverse, hbehind⟩ :=
    List.eq_append_cons_of_mem (List.mem_reverse.2 h)
  refine ⟨before.reverse, behind.reverse, ?_, fun hmem => hbehind (List.mem_reverse.1 hmem)⟩
  rw [← List.reverse_reverse cs, hreverse]
  simp

theorem cutAtLast?_eq_some_iff :
    cutAtLast? sep cs = some (before, behind) ↔ cs = before ++ sep :: behind ∧ sep ∉ behind := by
  constructor
  · intro h
    by_cases hmem : sep ∈ cs
    · obtain ⟨front, rest, rfl, hrest⟩ := exists_last_of_mem hmem
      rw [cutAtLast?_append hrest] at h
      obtain ⟨rfl, rfl⟩ := Prod.mk.inj (Option.some.inj h)
      exact ⟨rfl, hrest⟩
    · rw [cutAtLast?_of_notMem hmem] at h
      cases h
  · rintro ⟨rfl, hbehind⟩
    exact cutAtLast?_append hbehind before

theorem cutAtFirst?_eq_some_iff :
    cutAtFirst? sep cs = some (before, behind) ↔ cs = before ++ sep :: behind ∧ sep ∉ before := by
  refine ⟨eq_of_cutAtFirst?, ?_⟩
  rintro ⟨rfl, hbefore⟩
  induction before with
  | nil => exact if_pos rfl
  | cons c before ih =>
    rw [List.mem_cons, not_or] at hbefore
    rw [List.cons_append, cutAtFirst?, if_neg (Ne.symm hbefore.1), ih hbefore.2]
    rfl

end Text
end Inlay
