import Mathlib.Data.List.Basic

/-!
# Sorting by a key

Sorting by a key is stable: members with one key keep their order (`filter_mergeSort_key`).  So what
holds of any two members in their order before sorting, still holds of those with one key, and two
members with different keys stand in the order of the keys (`pairwise_mergeSort_of_pairwise`).
-/

namespace Inlay

variable {α : Type} (key : α → Nat)

theorem keyLe_trans (a b c : α) (hab : decide (key a ≤ key b) = true)
    (hbc : decide (key b ≤ key c) = true) : decide (key a ≤ key c) = true := by
  rw [decide_eq_true_eq] at *
  exact Nat.le_trans hab hbc

theorem keyLe_total (a b : α) : (decide (key a ≤ key b) || decide (key b ≤ key a)) = true := by
  rw [Bool.or_eq_true, decide_eq_true_eq, decide_eq_true_eq]
  exact Nat.le_total ..

theorem pairwise_mergeSort_key (l : List α) :
    (l.mergeSort fun a b => key a ≤ key b).Pairwise fun a b => key a ≤ key b :=
  (List.pairwise_mergeSort (keyLe_trans key) (keyLe_total key) l).imp of_decide_eq_true

/-- Sorting is stable: the members with one key keep their order. -/
theorem filter_mergeSort_key (l : List α) (n : Nat) :
    (l.mergeSort fun a b => key a ≤ key b).filter (key · = n) = l.filter (key · = n) := by
  -- the members with one key are sorted already, so they survive as a part of the sorted list
  have hle : (l.filter (key · = n)).Pairwise fun a b => decide (key a ≤ key b) = true := by
    refine List.pairwise_of_forall_mem_list ?_
    intro a ha b hb
    have hkey : key a = key b := by
      have hkeya := of_decide_eq_true (List.mem_filter.1 ha).2
      have hkeyb := of_decide_eq_true (List.mem_filter.1 hb).2
      exact hkeya.trans hkeyb.symm
    exact decide_eq_true (Nat.le_of_eq hkey)
  have hsub := List.sublist_mergeSort (keyLe_trans key) (keyLe_total key) hle List.filter_sublist
  have hfilter := hsub.filter (key · = n)
  rw [List.filter_filter] at hfilter
  simp only [Bool.and_self] at hfilter
  have hlen := ((List.mergeSort_perm l fun a b => key a ≤ key b).filter (key · = n)).length_eq
  exact (hfilter.eq_of_length hlen.symm).symm

/-- A relation between the members in their order goes on to hold of those with one key. -/
theorem pairwise_mergeSort_of_pairwise {l : List α} {relation : α → α → Prop}
    (h : l.Pairwise relation) :
    (l.mergeSort fun a b => key a ≤ key b).Pairwise fun a b =>
      key a < key b ∨ key a = key b ∧ relation a b := by
  rw [List.pairwise_iff_forall_sublist]
  intro a b hab
  have hle : key a ≤ key b := by
    have hpair := (pairwise_mergeSort_key key l).sublist hab
    exact (List.pairwise_cons.1 hpair).1 b (List.mem_singleton_self b)
  rcases Nat.lt_or_eq_of_le hle with hlt | heq
  · exact Or.inl hlt
  · have hsub : [a, b].Sublist l := by
      have hfilter := hab.filter (key · = key a)
      rw [filter_mergeSort_key] at hfilter
      simp only [List.filter_cons, heq, decide_true, ite_true, List.filter_nil] at hfilter
      exact hfilter.trans List.filter_sublist
    exact Or.inr ⟨heq, List.pairwise_iff_forall_sublist.1 h hsub⟩

end Inlay
