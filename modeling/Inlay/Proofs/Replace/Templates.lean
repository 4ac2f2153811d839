import Inlay.Replace.Template
import Mathlib.Data.List.TakeWhile

/-!
# Equations of templates

A template is expanded from left to right: a character that is no dollar stands for itself
(`expand_cons`), two dollars for one (`expand_dollars`), and a reference in braces for its group
(`expand_braces`).  The fuel of `expandWithin` bounds the characters that are read, so the length of
the template is enough and every other bound gives the same (`expandWithin_congr`).
-/

namespace Inlay
namespace Replace

variable {c : Char} {cs name rest : List Char} {groups : Groups} {n : Nat}

/-! ## Fuel -/

theorem length_le_of_readReference? {r : Reference} (h : readReference? cs = some (r, rest)) :
    rest.length ≤ cs.length := by
  unfold readReference? at h
  split at h
  case h_1 body =>
    split at h
    case h_1 head tail hbody =>
      obtain ⟨-, rfl⟩ := Prod.mk.inj (Option.some.inj h)
      have hle := (List.dropWhile_sublist (fun c => decide (c ≠ '}')) (l := body)).length_le
      rw [hbody] at hle
      exact Nat.le_succ_of_le (Nat.le_of_succ_le hle)
    case h_2 => cases h
  case h_2 =>
    dsimp only at h
    split at h
    · cases h
    · obtain ⟨-, rfl⟩ := Prod.mk.inj (Option.some.inj h)
      exact (List.dropWhile_sublist isBareNameChar).length_le

theorem expandWithin_cons (groups : Groups) (n : Nat) (h : c ≠ '$') (cs : List Char) :
    expandWithin groups (n + 1) (c :: cs) = c :: expandWithin groups n cs := by
  rw [expandWithin.eq_def]
  exact if_pos h

theorem expandWithin_dollars (groups : Groups) (n : Nat) (cs : List Char) :
    expandWithin groups (n + 1) ('$' :: '$' :: cs) = '$' :: expandWithin groups n cs := by
  rw [expandWithin, if_neg (not_not.2 rfl)]

theorem expandWithin_dollar (groups : Groups) (n : Nat) (h : ∀ rest, cs ≠ '$' :: rest) :
    expandWithin groups (n + 1) ('$' :: cs) =
      match readReference? cs with
      | some (r, rest) => groups.resolve r ++ expandWithin groups n rest
      | none => '$' :: expandWithin groups n cs :=
  (expandWithin.eq_4 groups n '$' cs h).trans (if_neg (not_not.2 rfl))

/-- Fuel for the length of the template is enough, and more makes no difference. -/
theorem expandWithin_congr {m : Nat} (hm : cs.length ≤ m) (hn : cs.length ≤ n) :
    expandWithin groups m cs = expandWithin groups n cs := by
  -- A reference leaves a text that can be much shorter, so `n` and `cs` vary in the induction.
  induction m generalizing n cs with
  | zero =>
    obtain rfl : cs = [] := List.length_eq_zero_iff.1 (Nat.le_zero.1 hm)
    cases n <;> rfl
  | succ m ih =>
    cases cs with
    | nil => cases n <;> rfl
    | cons c cs =>
      obtain ⟨n, rfl⟩ := Nat.exists_eq_add_of_le' (Nat.le_trans (Nat.le_add_left 1 cs.length) hn)
      rw [List.length_cons, Nat.add_le_add_iff_right] at hm hn
      by_cases hc : c = '$'
      · subst hc
        by_cases hdollars : ∃ rest, cs = '$' :: rest
        · obtain ⟨rest, rfl⟩ := hdollars
          rw [List.length_cons] at hm hn
          rw [expandWithin_dollars, expandWithin_dollars,
            ih (Nat.le_of_succ_le hm) (Nat.le_of_succ_le hn)]
        · have hother : ∀ rest, cs ≠ '$' :: rest := fun rest h => hdollars ⟨rest, h⟩
          rw [expandWithin_dollar groups m hother, expandWithin_dollar groups n hother]
          cases href : readReference? cs with
          | none => exact congrArg _ (ih hm hn)
          | some found =>
            have hle := length_le_of_readReference? href
            exact congrArg _ (ih (Nat.le_trans hle hm) (Nat.le_trans hle hn))
      · rw [expandWithin_cons groups m hc, expandWithin_cons groups n hc, ih hm hn]

theorem expandWithin_eq_expand (h : cs.length ≤ n) : expandWithin groups n cs = expand groups cs :=
  expandWithin_congr h (Nat.le_refl _)

/-! ## Expansion from the left -/

theorem expand_cons (groups : Groups) (h : c ≠ '$') (cs : List Char) :
    expand groups (c :: cs) = c :: expand groups cs := expandWithin_cons groups cs.length h cs

theorem expand_dollars (groups : Groups) (cs : List Char) :
    expand groups ('$' :: '$' :: cs) = '$' :: expand groups cs := by
  rw [← expandWithin_eq_expand (Nat.le_succ cs.length)]
  exact expandWithin_dollars groups (cs.length + 1) cs

theorem readReference?_braces (h : '}' ∉ name) (rest : List Char) :
    readReference? ('{' :: (name ++ '}' :: rest)) = some (.ofName name, rest) := by
  have hname : ∀ c ∈ name, decide (c ≠ '}') = true := fun c hc =>
    decide_eq_true fun heq => h (heq ▸ hc)
  rw [readReference?, List.dropWhile_append_of_pos hname, List.takeWhile_append_of_pos hname]
  simp

theorem expand_braces (groups : Groups) (h : '}' ∉ name) (rest : List Char) :
    expand groups ('$' :: '{' :: (name ++ '}' :: rest)) =
      groups.resolve (.ofName name) ++ expand groups rest := by
  have hother : ∀ cs, '{' :: (name ++ '}' :: rest) ≠ '$' :: cs := by
    intro cs heq
    exact absurd (List.cons.inj heq).1 (by decide)
  have hle : rest.length ≤ ('{' :: (name ++ '}' :: rest)).length := by
    rw [List.length_cons, List.length_append, List.length_cons]
    omega
  rw [expand, List.length_cons, expandWithin_dollar groups _ hother, readReference?_braces h]
  exact congrArg _ (expandWithin_eq_expand hle)

end Replace
end Inlay
