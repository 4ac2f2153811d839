import Inlay.Proofs.Pattern.Matches
import Inlay.Proofs.Replace.Reading
import Inlay.Proofs.Replace.Rules
import Inlay.Replace.Transformer
import Mathlib.Data.List.Infix

/-!
# Replacements without references

In a replacement without a complete reference every dollar starts nothing, so it is doubled and
comes out as it was written (`expand_braced_append`).  The exception is a dollar in front of an
angle that is never closed: from there on the text is taken for the name of a group, and at least
the dollar and the angle are lost.  `expand_braced_eq_self_iff` says that nothing else is.
-/

namespace Inlay
namespace Replace

variable {c : Char} {cs front name rest : List Char}

/-- A text without a complete reference. -/
structure HasNoReference (cs : List Char) : Prop where
  dollars : ¬ ['$', '$'] <:+: cs
  whole : ¬ ['$', '&'] <:+: cs
  number : ∀ d, isDigit d = true → ¬ ['$', d] <:+: cs
  name : ∀ name, ¬ '$' :: '<' :: (name ++ ['>']) <:+: cs

theorem HasNoReference.behind (h : HasNoReference (c :: cs)) : HasNoReference cs where
  dollars := fun hcs => h.dollars (List.infix_cons hcs)
  whole := fun hcs => h.whole (List.infix_cons hcs)
  number := fun d hd hcs => h.number d hd (List.infix_cons hcs)
  name := fun name hcs => h.name name (List.infix_cons hcs)

theorem HasNoReference.behind_dollar (h : HasNoReference ('$' :: c :: cs)) :
    c ≠ '$' ∧ c ≠ '&' ∧ isDigit c = false := by
  have hinfix : ['$', c] <:+: '$' :: c :: cs := ⟨[], cs, rfl⟩
  refine ⟨?_, ?_, ?_⟩
  · rintro rfl
    exact h.dollars hinfix
  · rintro rfl
    exact h.whole hinfix
  · exact Bool.of_not_eq_true fun hc => h.number c hc hinfix

theorem HasNoReference.open_name (h : HasNoReference (front ++ '$' :: '<' :: name)) :
    '>' ∉ name := by
  intro hmem
  obtain ⟨before, behind, rfl, -⟩ := List.eq_append_cons_of_mem hmem
  exact h.name before ⟨front, behind, by simp⟩

theorem bracedFrom_name_open (h : '>' ∉ name) : bracedFrom .name name = name ++ ['}'] := by
  induction name with
  | nil => rfl
  | cons c name ih =>
    rw [List.mem_cons, not_or] at h
    rw [bracedFrom, if_neg (Ne.symm h.1), ih h.2]
    rfl

theorem braced_open_name (h : '>' ∉ name) :
    braced ('$' :: '<' :: name) = '$' :: '{' :: (name ++ ['}']) := by
  rw [← bracedFrom_name_open h]
  rfl

/-- What stands in front of the first open angle comes out as it was written. -/
theorem expand_braced_append (groups : Groups) (h : HasNoReference (front ++ rest))
    (hfront : ¬ ['$', '<'] <:+: front) (hnext : ∀ c ∈ rest.head?, c = '$') :
    expand groups (braced (front ++ rest)) = front ++ expand groups (braced rest) := by
  induction front with
  | nil => rfl
  | cons c front ih =>
    have hrest := ih h.behind fun hcs => hfront (List.infix_cons hcs)
    by_cases hc : c = '$'
    · subst hc
      have hlone : ∀ d ∈ (front ++ rest).head?,
          d ≠ '$' ∧ d ≠ '&' ∧ isDigit d = false ∧ d ≠ '<' := by
        intro d hd
        obtain ⟨more, hmore⟩ := List.head?_eq_some_iff.1 hd
        rw [List.cons_append, hmore] at h
        obtain ⟨hdollar, hwhole, hdigit⟩ := h.behind_dollar
        refine ⟨hdollar, hwhole, hdigit, ?_⟩
        rintro rfl
        -- An angle behind this dollar would be one in `front`, for what follows is a dollar.
        cases front with
        | nil => exact absurd (hnext '<' hd) (by decide)
        | cons e front =>
          obtain rfl : e = '<' := Option.some.inj hd
          exact hfront ⟨[], front, rfl⟩
      rw [List.cons_append, braced_lone hlone, expand_dollars, hrest]
      rfl
    · rw [List.cons_append, braced_cons hc, expand_cons groups hc, hrest]
      rfl

theorem exists_first_open (h : ['$', '<'] <:+: cs) :
    ∃ front name, cs = front ++ '$' :: '<' :: name ∧ ¬ ['$', '<'] <:+: front := by
  induction cs with
  | nil => exact absurd (List.infix_nil.1 h) (List.cons_ne_nil _ _)
  | cons c cs ih =>
    by_cases hstart : ['$', '<'] <+: c :: cs
    · obtain ⟨name, hname⟩ := hstart
      exact ⟨[], name, hname.symm, fun hnil => List.cons_ne_nil _ _ (List.infix_nil.1 hnil)⟩
    · have hbehind : ['$', '<'] <:+: cs := (List.infix_cons_iff.1 h).resolve_left hstart
      obtain ⟨front, name, rfl, hfront⟩ := ih hbehind
      refine ⟨c :: front, name, rfl, ?_⟩
      intro hinfix
      rcases List.infix_cons_iff.1 hinfix with hfirst | hinfix
      · exact hstart (hfirst.trans (List.prefix_append (c :: front) _))
      · exact hfront hinfix

/-- A match without groups. -/
def noGroups : Groups := ⟨fun _ => none, fun _ => none⟩

theorem resolve_noGroups (r : Reference) : noGroups.resolve r = [] := by
  cases r <;> rfl

theorem length_expandWithin_noGroups_le (n : Nat) (cs : List Char) :
    (expandWithin noGroups n cs).length ≤ cs.length := by
  induction n generalizing cs with
  | zero => exact Nat.zero_le _
  | succ n ih =>
    cases cs with
    | nil => exact Nat.zero_le _
    | cons c cs =>
      by_cases hc : c = '$'
      · subst hc
        by_cases hdollars : ∃ rest, cs = '$' :: rest
        · obtain ⟨rest, rfl⟩ := hdollars
          rw [expandWithin_dollars]
          exact Nat.succ_le_succ (Nat.le_succ_of_le (ih rest))
        · rw [expandWithin_dollar noGroups n fun rest h => hdollars ⟨rest, h⟩]
          cases href : readReference? cs with
          | none => exact Nat.succ_le_succ (ih cs)
          | some found =>
            have hle := length_le_of_readReference? href
            dsimp only
            rw [resolve_noGroups]
            exact Nat.le_succ_of_le (Nat.le_trans (ih found.2) hle)
      · rw [expandWithin_cons noGroups n hc]
        exact Nat.succ_le_succ (ih cs)

/-- Without groups, a name in braces leaves fewer characters than it has. -/
theorem length_expand_braces_lt (name : List Char) :
    (expand noGroups ('$' :: '{' :: (name ++ ['}']))).length < ('$' :: '<' :: name).length := by
  -- The reference ends at the first closing brace, and the name itself may have one.
  obtain ⟨before, behind, hsplit, hbefore⟩ :=
    List.eq_append_cons_of_mem (show '}' ∈ name ++ ['}'] by simp)
  have hle : (expand noGroups behind).length ≤ behind.length :=
    length_expandWithin_noGroups_le behind.length behind
  have hlength := congrArg List.length hsplit
  rw [List.length_append, List.length_append, List.length_cons, List.length_cons,
    List.length_nil] at hlength
  rw [hsplit, expand_braces noGroups hbefore, resolve_noGroups, List.nil_append, List.length_cons,
    List.length_cons]
  omega

/-- A replacement without a complete reference comes out as it was written, whatever the groups are,
exactly if no dollar stands in front of an angle.  Otherwise what is behind the first such angle is
expanded as the name of a group, and only what is in front of it stays. -/
theorem expand_braced_eq_self_iff (cs : List Char) (h : HasNoReference cs) :
    ((∀ groups, expand groups (braced cs) = cs) ↔ ¬ ['$', '<'] <:+: cs) ∧
    ∀ front name, cs = front ++ '$' :: '<' :: name → ¬ ['$', '<'] <:+: front →
      ∀ groups, expand groups (braced cs) =
        front ++ expand groups ('$' :: '{' :: (name ++ ['}'])) := by
  have hopen : ∀ front name, cs = front ++ '$' :: '<' :: name → ¬ ['$', '<'] <:+: front →
      ∀ groups, expand groups (braced cs) =
        front ++ expand groups ('$' :: '{' :: (name ++ ['}'])) := by
    rintro front name rfl hfront groups
    have hnext : ∀ c ∈ ('$' :: '<' :: name).head?, c = '$' := fun c hc => (Option.some.inj hc).symm
    rw [expand_braced_append groups h hfront hnext, braced_open_name h.open_name]
  refine ⟨⟨?_, ?_⟩, hopen⟩
  · intro hself hinfix
    obtain ⟨front, name, hsplit, hfront⟩ := exists_first_open hinfix
    have hlost := hopen front name hsplit hfront noGroups
    rw [hself noGroups, hsplit, List.append_cancel_left_eq] at hlost
    have hlt := length_expand_braces_lt name
    rw [← hlost] at hlt
    exact Nat.lt_irrefl _ hlt
  · intro hnot groups
    rw [← List.append_nil cs] at h
    have hall := expand_braced_append groups h hnot fun _ hc => nomatch hc
    rw [List.append_nil] at hall
    exact hall.trans (List.append_nil cs)

theorem hasNoReference_prices : HasNoReference "${1} costs $x or $".toList where
  dollars := by decide
  whole := by decide
  number := by
    intro d hd hinfix
    have hnext : d = '{' ∨ d = 'x' := by
      simpa [List.infix_cons_iff, List.cons_prefix_cons] using hinfix
    rcases hnext with rfl | rfl
    · exact absurd hd (by decide)
    · exact absurd hd (by decide)
  name := by
    intro name hinfix
    have hangle : '>' ∈ "${1} costs $x or $".toList := hinfix.subset (by simp)
    exact absurd hangle (by decide)

theorem expand_braced_eq_self_prices :
    HasNoReference "${1} costs $x or $".toList ∧ ¬ ['$', '<'] <:+: "${1} costs $x or $".toList ∧
      ∀ groups, expand groups (braced "${1} costs $x or $".toList) =
        "${1} costs $x or $".toList := by
  have hnot : ¬ ['$', '<'] <:+: "${1} costs $x or $".toList := by decide
  have hself := (expand_braced_eq_self_iff _ hasNoReference_prices).1
  exact ⟨hasNoReference_prices, hnot, hself.2 hnot⟩

theorem hasNoReference_open_name : HasNoReference "$<b".toList where
  dollars := by decide
  whole := by decide
  number := by
    intro d hd hinfix
    obtain rfl : d = '<' := by simpa [List.infix_cons_iff, List.cons_prefix_cons] using hinfix
    exact absurd hd (by decide)
  name := by
    intro name hinfix
    have hangle : '>' ∈ "$<b".toList := hinfix.subset (by simp)
    exact absurd hangle (by decide)

theorem rulesOf_open_name :
    rulesOf Pattern.engine (.array [.array [.string "/a/", .string "$<b"]]) =
      .ok [.regex Pattern.letterProgram false (braced "$<b".toList)] := by
  have hregex : Delimited "/a/".toList ['a'] [] := splitSlashes?_eq_some_iff.1 (by decide)
  exact rulesOf_eq_ok_iff.2
    ⟨_, rfl, .cons (.regex hregex Pattern.compile_letter (by decide)) .nil⟩

/-- A rule that is to write an open angle writes nothing. -/
theorem replaceAll_loses_open_name :
    HasNoReference "$<b".toList ∧ expand noGroups (braced "$<b".toList) ≠ "$<b".toList ∧
      replaceAll Pattern.engine (some (.array [.array [.string "/a/", .string "$<b"]])) "a" =
        .ok "" := by
  refine ⟨hasNoReference_open_name, by decide, ?_⟩
  have hmatches : Pattern.allMatches Pattern.letterProgram "a".toList.toArray = [⟨0, 1, []⟩] := by
    cbv
  rw [replaceAll]
  simp only [rulesOf_open_name]
  show Except.ok (String.ofList (substituteFrom (braced "$<b".toList) "a".toList.toArray 0
    (((Pattern.allMatches Pattern.letterProgram "a".toList.toArray).map _).take 1))) = _
  rw [hmatches]
  rfl

end Replace
end Inlay
