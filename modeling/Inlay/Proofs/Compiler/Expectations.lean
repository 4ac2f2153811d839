import Inlay.Compiler.ParseSummary
import Inlay.Proofs.Sorting
import Inlay.Proofs.Text.Trimming
import Mathlib.Data.List.Induction
import Mathlib.Data.List.Perm.Subperm

/-!
# The expectations of a summary

`Lists` says which entries a summary has for the lines that expectations are on, without saying how
they are found: what is listed, in which order, and what may be left out.  At most one list of
entries fits (`Lists.unique`), because what only one of two lists has would come after all of the
other.

The entries are the first lines of all categories (`leading`, followed line by line), in a stable
order by rank (`ranked`), of which the first ones stay (`lists_take_ranked`).
-/

namespace Inlay
namespace ParseSummary

open Text (trim allBlank)

/-- The number of the first line of a category. -/
def appearance (lines : List (List Char)) (entry : List Char) : Nat :=
  lines.findIdx fun line => category line = category entry

/-- The order of entries: by the rank of their categories, and then by where these appear first. -/
def GoesBefore (lines : List (List Char)) (a b : List Char) : Prop :=
  rank a < rank b ∨ rank a = rank b ∧ appearance lines a < appearance lines b

/-- The entries of a summary, for the lines that expectations are on: at most five, of different
categories and in their order.  Each is the first line of its category, and what is left out comes
after five others. -/
structure Lists (lines entries : List (List Char)) : Prop where
  length_le : entries.length ≤ 5
  distinct : (entries.map category).Nodup
  first : ∀ entry ∈ entries, ∃ line,
    lines.find? (fun l => category l = category entry) = some line ∧ allBlank line = false ∧
      entry = trim line
  ordered : entries.Pairwise (GoesBefore lines)
  leaves_out : ∀ line ∈ lines, allBlank line = false → category line ∉ entries.map category →
    entries.length = 5 ∧ ∀ entry ∈ entries, GoesBefore lines entry line

variable {lines entries others : List (List Char)} {a b c : List Char}

theorem category_trim (line : List Char) : category (trim line) = category line :=
  Text.firstWord_trim line

theorem GoesBefore.asymm (h : GoesBefore lines a b) : ¬ GoesBefore lines b a := by
  unfold GoesBefore at *
  omega

theorem GoesBefore.congr_right (h : GoesBefore lines a b) (hsame : category b = category c) :
    GoesBefore lines a c := by
  have hrank : rank b = rank c := by rw [rank, rank, hsame]
  have happearance : appearance lines b = appearance lines c := by
    rw [appearance, appearance, hsame]
  rwa [GoesBefore, ← hrank, ← happearance]

theorem GoesBefore.category_ne (h : GoesBefore lines a b) : category a ≠ category b := by
  intro hsame
  exact (h.congr_right hsame.symm).asymm (h.congr_right hsame.symm)

theorem map_category_nodup (h : entries.Pairwise (GoesBefore lines)) :
    (entries.map category).Nodup :=
  List.pairwise_map.2 (h.imp GoesBefore.category_ne)

theorem Lists.nodup (h : Lists lines entries) : entries.Nodup :=
  h.ordered.imp fun hab hsame => hab.category_ne (congrArg category hsame)

/-- What only one of two lists has is left out of the other one, so it comes after all of that. -/
theorem Lists.goesBefore_of_notMem (h : Lists lines entries) (hothers : Lists lines others)
    {entry : List Char} (hentry : entry ∈ entries) (hnot : entry ∉ others) :
    others.length = 5 ∧ ∀ other ∈ others, GoesBefore lines other entry := by
  obtain ⟨line, hfind, hblank, rfl⟩ := h.first entry hentry
  have hcategory : category line ∉ others.map category := by
    intro hin
    obtain ⟨other, hother, hsame⟩ := List.mem_map.1 hin
    obtain ⟨line', hfind', -, rfl⟩ := hothers.first other hother
    rw [hsame, ← category_trim line, hfind] at hfind'
    obtain rfl := Option.some.inj hfind'
    exact hnot hother
  obtain ⟨hfull, hbefore⟩ :=
    hothers.leaves_out line (List.mem_of_find?_eq_some hfind) hblank hcategory
  exact ⟨hfull, fun other hother => (hbefore other hother).congr_right (category_trim line).symm⟩

theorem Lists.mem_of_mem (h : Lists lines entries) (hothers : Lists lines others)
    {entry : List Char} (hentry : entry ∈ entries) : entry ∈ others := by
  by_contra hnot
  obtain ⟨hfull, hbefore⟩ := h.goesBefore_of_notMem hothers hentry hnot
  -- nothing can be missing on both sides, so the first list has all of the other one and one more
  have hsub : others ⊆ entries := by
    intro other hother
    by_contra hmissing
    have hafter := (hothers.goesBefore_of_notMem h hother hmissing).2 entry hentry
    exact hafter.asymm (hbefore other hother)
  have hmore : entry :: others ⊆ entries := List.cons_subset.2 ⟨hentry, hsub⟩
  have hnodup : (entry :: others).Nodup := List.nodup_cons.2 ⟨hnot, hothers.nodup⟩
  have hlength := (List.subperm_of_subset hnodup hmore).length_le
  have hle := h.length_le
  rw [List.length_cons] at hlength
  omega

/-- There is only one list of entries for given lines. -/
theorem Lists.unique (h : Lists lines entries) (hothers : Lists lines others) :
    entries = others := by
  have hperm : entries.Perm others := (List.perm_ext_iff_of_nodup h.nodup hothers.nodup).2
    fun _ => ⟨h.mem_of_mem hothers, hothers.mem_of_mem h⟩
  exact hperm.eq_of_pairwise (fun _ _ _ _ hab hba => absurd hba hab.asymm) h.ordered hothers.ordered

/-! ## The first line of each category -/

theorem firstOfEach_append_singleton (entries : List (List Char)) (entry : List Char) :
    firstOfEach (entries ++ [entry]) =
      if category entry ∈ (firstOfEach entries).map category then firstOfEach entries
      else firstOfEach entries ++ [entry] := by
  rw [firstOfEach, List.foldl_append, List.foldl_cons, List.foldl_nil]
  split
  case isTrue hany =>
    have hmem : category entry ∈ (firstOfEach entries).map category := by
      obtain ⟨k, hk, hsame⟩ := List.any_eq_true.1 hany
      exact List.mem_map.2 ⟨k, List.mem_reverse.2 hk, of_decide_eq_true hsame⟩
    rw [if_pos hmem, firstOfEach]
  case isFalse hany =>
    have hmem : category entry ∉ (firstOfEach entries).map category := by
      intro hin
      obtain ⟨k, hk, hsame⟩ := List.mem_map.1 hin
      exact hany (List.any_eq_true.2 ⟨k, List.mem_reverse.1 hk, decide_eq_true hsame⟩)
    rw [if_neg hmem, List.reverse_cons, firstOfEach]

/-- The first line of each category, trimmed, in the order of the lines. -/
def leading (lines : List (List Char)) : List (List Char) :=
  firstOfEach ((lines.map trim).filter fun entry => entry ≠ [])

/-- A further line is an entry of its own if it is not blank and of a new category. -/
theorem leading_append_singleton (lines : List (List Char)) (line : List Char) :
    leading (lines ++ [line]) =
      if allBlank line = true ∨ category line ∈ (leading lines).map category then leading lines
      else leading lines ++ [trim line] := by
  have hentry := Text.trim_eq_nil_iff line
  rw [leading, leading, List.map_append, List.filter_append, List.map_singleton,
    List.filter_singleton]
  by_cases hblank : allBlank line = true
  · rw [if_pos (Or.inl hblank), hentry.2 hblank]
    simp
  · rw [decide_eq_true (mt hentry.1 hblank), cond_true, firstOfEach_append_singleton,
      category_trim]
    exact (if_congr (or_iff_right hblank) rfl rfl).symm

/-- The categories of the entries are those of the lines that are not blank. -/
theorem mem_map_category_leading {word : List Char} :
    word ∈ (leading lines).map category ↔
      ∃ line ∈ lines, allBlank line = false ∧ category line = word := by
  induction lines using List.reverseRecOn with
  | nil => simp [leading, firstOfEach]
  | append_singleton lines line ih =>
    rw [leading_append_singleton]
    split
    case isTrue hknown =>
      rw [ih]
      constructor
      · intro h
        obtain ⟨l, hl, hword⟩ := h
        exact ⟨l, List.mem_append_left _ hl, hword⟩
      · intro h
        obtain ⟨l, hl, hblank, hword⟩ := h
        rcases List.mem_append.1 hl with hl | hl
        · exact ⟨l, hl, hblank, hword⟩
        · obtain rfl := List.mem_singleton.1 hl
          rcases hknown with hyes | hin
          · rw [hyes] at hblank
            contradiction
          · rw [← ih, ← hword]
            exact hin
    case isFalse hnew =>
      have hblank : allBlank line = false := by simpa using fun h => hnew (Or.inl h)
      rw [List.map_append, List.mem_append, ih, List.map_singleton, List.mem_singleton,
        category_trim, @eq_comm _ word]
      simp only [List.mem_append, List.mem_singleton, or_and_right, exists_or, exists_eq_left,
        hblank, true_and]

theorem category_ne_of_notMem {line : List Char} (hblank : allBlank line = false)
    (hnew : category line ∉ (leading lines).map category) :
    ∀ l ∈ lines, category l ≠ category line := by
  intro l hl hsame
  refine hnew (mem_map_category_leading.2 ⟨l, hl, ?_, hsame⟩)
  -- blank lines are all of the empty category, so `l` is none
  rw [← Bool.not_eq_true, ← Text.firstWord_eq_nil_iff] at hblank ⊢
  rwa [← category, hsame]

theorem exists_find?_of_mem_leading {entry : List Char} (h : entry ∈ leading lines) :
    ∃ line, lines.find? (fun l => category l = category entry) = some line ∧
      allBlank line = false ∧ entry = trim line := by
  induction lines using List.reverseRecOn with
  | nil => simp [leading, firstOfEach] at h
  | append_singleton lines line ih =>
    rw [leading_append_singleton] at h
    have hbefore (h : entry ∈ leading lines) :
        ∃ l, (lines ++ [line]).find? (fun l => category l = category entry) = some l ∧
          allBlank l = false ∧ entry = trim l := by
      obtain ⟨l, hfind, hl⟩ := ih h
      refine ⟨l, ?_, hl⟩
      rw [List.find?_append, hfind, Option.some_or]
    split at h
    case isTrue => exact hbefore h
    case isFalse hnew =>
      rw [not_or, Bool.not_eq_true] at hnew
      rcases List.mem_append.1 h with h | h
      · exact hbefore h
      · obtain rfl := List.mem_singleton.1 h
        refine ⟨line, ?_, hnew.1, rfl⟩
        have hnone : lines.find? (fun l => category l = category line) = none := by
          rw [List.find?_eq_none]
          intro l hl
          exact mt of_decide_eq_true (category_ne_of_notMem hnew.1 hnew.2 l hl)
        rw [category_trim, List.find?_append, hnone, Option.none_or]
        exact List.find?_cons_of_pos (decide_eq_true rfl)

theorem appearance_lt_length (h : ∃ l ∈ lines, category l = category a) :
    appearance lines a < lines.length := by
  obtain ⟨l, hl, hsame⟩ := h
  exact List.findIdx_lt_length_of_exists ⟨l, hl, decide_eq_true hsame⟩

theorem appearance_append (h : appearance lines a < lines.length) (more : List (List Char)) :
    appearance (lines ++ more) a = appearance lines a := by
  rw [appearance, List.findIdx_append]
  exact if_pos h

theorem length_le_appearance_append (h : ∀ l ∈ lines, category l ≠ category a)
    (more : List (List Char)) : lines.length ≤ appearance (lines ++ more) a := by
  have hnone : lines.findIdx (fun l => category l = category a) = lines.length := by
    rw [List.findIdx_eq_length]
    exact fun l hl => decide_eq_false (h l hl)
  rw [appearance, List.findIdx_append, hnone, if_neg (Nat.lt_irrefl _)]
  exact Nat.le_add_left ..

theorem leading_pairwise (lines : List (List Char)) :
    (leading lines).Pairwise fun a b => appearance lines a < appearance lines b := by
  induction lines using List.reverseRecOn with
  | nil => simp [leading, firstOfEach]
  | append_singleton lines line ih =>
    have hknown : ∀ entry ∈ leading lines, appearance lines entry < lines.length := by
      intro entry hentry
      obtain ⟨l, hl, -, hsame⟩ := mem_map_category_leading.1 (List.mem_map_of_mem hentry)
      exact appearance_lt_length ⟨l, hl, hsame⟩
    have hstill : (leading lines).Pairwise fun a b =>
        appearance (lines ++ [line]) a < appearance (lines ++ [line]) b := by
      refine ih.imp_of_mem ?_
      intro a b ha hb hab
      rwa [appearance_append (hknown a ha), appearance_append (hknown b hb)]
    rw [leading_append_singleton]
    split
    case isTrue => exact hstill
    case isFalse hnew =>
      rw [not_or, Bool.not_eq_true] at hnew
      refine List.pairwise_append.2 ⟨hstill, List.pairwise_singleton .., ?_⟩
      intro a ha b hb
      obtain rfl := List.mem_singleton.1 hb
      have hfirst : ∀ l ∈ lines, category l ≠ category (trim line) := by
        rw [category_trim]
        exact category_ne_of_notMem hnew.1 hnew.2
      calc appearance (lines ++ [line]) a = appearance lines a :=
            appearance_append (hknown a ha) _
        _ < lines.length := hknown a ha
        _ ≤ appearance (lines ++ [line]) (trim line) := length_le_appearance_append hfirst _

/-- A blank line, and a line of a category that there was before. -/
example : leading [" EOS".toList, "\t".toList, "Word a b".toList, " Word".toList] =
    ["EOS".toList, "Word a b".toList] := by decide

/-! ## The entries of a summary -/

/-- The entries in their order, before they are cut. -/
def ranked (lines : List (List Char)) : List (List Char) :=
  (leading lines).mergeSort fun a b => rank a ≤ rank b

theorem mem_ranked {entry : List Char} : entry ∈ ranked lines ↔ entry ∈ leading lines :=
  List.mem_mergeSort

theorem ranked_pairwise (lines : List (List Char)) : (ranked lines).Pairwise (GoesBefore lines) :=
  pairwise_mergeSort_of_pairwise rank (leading_pairwise lines)

/-- What the cut leaves out comes after the entries that stay. -/
theorem lists_take_ranked (lines : List (List Char)) : Lists lines ((ranked lines).take 5) where
  length_le := List.length_take_le ..
  distinct := map_category_nodup ((ranked_pairwise lines).sublist (List.take_sublist ..))
  first entry hentry := exists_find?_of_mem_leading (mem_ranked.1 (List.mem_of_mem_take hentry))
  ordered := (ranked_pairwise lines).sublist (List.take_sublist ..)
  leaves_out line hline hblank hout := by
    obtain ⟨entry, hentry, hsame⟩ :=
      List.mem_map.1 (mem_map_category_leading.2 ⟨line, hline, hblank, rfl⟩)
    have hin : entry ∈ (ranked lines).take 5 ++ (ranked lines).drop 5 := by
      rwa [List.take_append_drop, mem_ranked]
    have hdrop : entry ∈ (ranked lines).drop 5 :=
      (List.mem_append.1 hin).resolve_left fun htake => hout (List.mem_map.2 ⟨entry, htake, hsame⟩)
    constructor
    · have hlength := List.length_pos_of_mem hdrop
      rw [List.length_drop] at hlength
      rw [List.length_take]
      omega
    · intro other hother
      have hordered := ranked_pairwise lines
      rw [← List.take_append_drop 5 (ranked lines), List.pairwise_append] at hordered
      exact (hordered.2.2 other hother entry hdrop).congr_right hsame

end ParseSummary
end Inlay
