import Inlay.Proofs.Text.Lines

/-!
# Trimmed texts and first words

A text is what trimming leaves of it between two blank texts (`exists_eq_trim`), and neither
trimming nor the first word sees blank texts at the ends (`trim_surround`, `firstWord_surround`).
So trimming twice is trimming once, and a text keeps its first word.  A line that ends in a carriage
return trims to the same text with it and without it, which is why it does not matter for `trim` how
the lines of a text end (`exists_trim_eq_of_mem_lines`).
-/

namespace Inlay
namespace Text

variable {lead cs tail : List Char}

theorem isBlank_of_allBlank (h : allBlank cs = true) : ∀ c ∈ cs, isBlank c = true :=
  List.all_eq_true.1 h

theorem allBlank_append (a b : List Char) :
    allBlank (a ++ b) = (allBlank a && allBlank b) := List.all_append

/-! ## Blank texts at the ends -/

theorem trimStart_append_left (h : allBlank lead = true) (cs : List Char) :
    trimStart (lead ++ cs) = trimStart cs :=
  List.dropWhile_append_of_pos (isBlank_of_allBlank h)

theorem trimStart_append_right (h : allBlank tail = true) (cs : List Char) :
    trimStart (cs ++ tail) = if allBlank cs then [] else trimStart cs ++ tail := by
  have htail : tail.dropWhile isBlank = [] := (trimStart_eq_nil_iff tail).2 h
  have hempty : (cs.dropWhile isBlank).isEmpty = allBlank cs := by
    rw [Bool.eq_iff_iff, List.isEmpty_iff]
    exact trimStart_eq_nil_iff cs
  rw [trimStart, List.dropWhile_append, htail, hempty, trimStart]

theorem trimEnd_append_right (h : allBlank tail = true) (cs : List Char) :
    trimEnd (cs ++ tail) = trimEnd cs := by
  have hreverse : ∀ c ∈ tail.reverse, isBlank c = true := by
    intro c hc
    exact isBlank_of_allBlank h c (List.mem_reverse.1 hc)
  rw [trimEnd, List.reverse_append, List.dropWhile_append_of_pos hreverse, trimEnd]

/-- Trimming takes blank texts off both ends. -/
theorem trim_surround (hlead : allBlank lead = true) (htail : allBlank tail = true)
    (cs : List Char) : trim (lead ++ cs ++ tail) = trim cs := by
  rw [List.append_assoc, trim, trimStart_append_left hlead, trimStart_append_right htail]
  split
  case isTrue hcs => rw [trim, (trimStart_eq_nil_iff cs).2 hcs]
  case isFalse => rw [trimEnd_append_right htail, trim]

/-- Blank texts at the ends do not matter for the first word. -/
theorem firstWord_surround (hlead : allBlank lead = true) (htail : allBlank tail = true)
    (cs : List Char) : firstWord (lead ++ cs ++ tail) = firstWord cs := by
  have hnone : tail.takeWhile (fun c => !isBlank c) = [] := by
    cases tail with
    | nil => rfl
    | cons c tail =>
      have hc := isBlank_of_allBlank htail c List.mem_cons_self
      rw [List.takeWhile_cons_of_neg (by simp [hc])]
  rw [List.append_assoc, firstWord, trimStart_append_left hlead, trimStart_append_right htail,
    firstWord]
  split
  case isTrue hcs => rw [(trimStart_eq_nil_iff cs).2 hcs]
  case isFalse =>
    rw [List.takeWhile_append, hnone, List.append_nil]
    split
    case isTrue hlength => exact ((List.takeWhile_prefix _).eq_of_length hlength).symm
    case isFalse => rfl

theorem allBlank_takeWhile (cs : List Char) : allBlank (cs.takeWhile isBlank) = true :=
  List.all_takeWhile

theorem exists_eq_trim (cs : List Char) :
    ∃ lead tail, allBlank lead = true ∧ allBlank tail = true ∧ cs = lead ++ trim cs ++ tail := by
  have htail : allBlank ((trimStart cs).reverse.takeWhile isBlank).reverse = true := by
    rw [allBlank, List.all_reverse]
    exact allBlank_takeWhile _
  refine ⟨cs.takeWhile isBlank, _, allBlank_takeWhile cs, htail, ?_⟩
  have hstart : trimStart cs = trim cs ++ ((trimStart cs).reverse.takeWhile isBlank).reverse := by
    rw [trim, trimEnd, ← List.reverse_append, List.takeWhile_append_dropWhile, List.reverse_reverse]
  rw [List.append_assoc, ← hstart, trimStart, List.takeWhile_append_dropWhile]

theorem mem_of_mem_trim {c : Char} (h : c ∈ trim cs) : c ∈ cs := by
  obtain ⟨lead, tail, -, -, hcs⟩ := exists_eq_trim cs
  rw [hcs]
  exact List.mem_append_left _ (List.mem_append_right _ h)

theorem trim_trim (cs : List Char) : trim (trim cs) = trim cs := by
  obtain ⟨lead, tail, hlead, htail, hcs⟩ := exists_eq_trim cs
  calc trim (trim cs) = trim (lead ++ trim cs ++ tail) := (trim_surround hlead htail _).symm
    _ = trim cs := by rw [← hcs]

theorem firstWord_trim (cs : List Char) : firstWord (trim cs) = firstWord cs := by
  obtain ⟨lead, tail, hlead, htail, hcs⟩ := exists_eq_trim cs
  calc firstWord (trim cs) = firstWord (lead ++ trim cs ++ tail) :=
        (firstWord_surround hlead htail _).symm
    _ = firstWord cs := by rw [← hcs]

theorem trim_eq_nil_iff (cs : List Char) : trim cs = [] ↔ allBlank cs = true := by
  constructor
  · intro h
    obtain ⟨lead, tail, hlead, htail, hcs⟩ := exists_eq_trim cs
    rw [hcs, h, List.append_nil, allBlank_append, hlead, htail]
    rfl
  · intro h
    rw [trim, (trimStart_eq_nil_iff cs).2 h]
    rfl

theorem firstWord_eq_nil_iff (cs : List Char) : firstWord cs = [] ↔ allBlank cs = true := by
  rw [← trimStart_eq_nil_iff, firstWord]
  cases hstart : trimStart cs with
  | nil => simp
  | cons c rest =>
    have hc : isBlank c = false := by
      have hfirst := List.head?_dropWhile_not isBlank cs
      rw [show cs.dropWhile isBlank = c :: rest from hstart] at hfirst
      exact hfirst
    simp [hc]

/-! ## Lines -/

theorem notMem_of_mem_lines {line : List Char} (h : line ∈ lines cs) : '\n' ∉ line := by
  induction cs using line_induction with
  | last cs hcs =>
    rw [lines, chunks_of_notMem hcs] at h
    split at h
    case isTrue => simp at h
    case isFalse =>
      rw [List.map_singleton, List.mem_singleton, dropEnding_of_notMem hcs] at h
      exact h ▸ hcs
  | line first rest hfirst ih =>
    rw [lines, chunks_line hfirst, List.map_cons, List.mem_cons] at h
    rcases h with rfl | h
    · intro hmem
      rcases dropEnding_line first with hsame | hreturn
      · exact hfirst (hsame ▸ hmem)
      · exact hfirst (hreturn ▸ List.mem_append_left _ hmem)
    · exact ih h

/-- Without a carriage return at its end a line trims to the same text. -/
theorem exists_trim_eq_of_mem_lines {line : List Char} (h : line ∈ lines cs) :
    ∃ piece ∈ pieces '\n' cs, trim piece = trim line := by
  induction cs using line_induction with
  | last cs hcs =>
    rw [lines, chunks_of_notMem hcs] at h
    rw [pieces_of_notMem hcs]
    split at h
    case isTrue => simp at h
    case isFalse =>
      rw [List.map_singleton, List.mem_singleton, dropEnding_of_notMem hcs] at h
      exact ⟨cs, List.mem_singleton_self cs, congrArg trim h.symm⟩
  | line first rest hfirst ih =>
    rw [lines, chunks_line hfirst, List.map_cons, List.mem_cons] at h
    rw [pieces_line hfirst]
    rcases h with rfl | h
    · refine ⟨first, List.mem_cons_self, ?_⟩
      rcases dropEnding_line first with hsame | hreturn
      · rw [hsame]
      · have hblank : allBlank ['\r'] = true := by decide
        have hempty : allBlank [] = true := rfl
        have htrim := trim_surround hempty hblank (dropEnding (first ++ ['\n']))
        rwa [List.nil_append, ← hreturn] at htrim
    · obtain ⟨piece, hpiece, htrim⟩ := ih h
      exact ⟨piece, List.mem_cons_of_mem _ hpiece, htrim⟩

end Text
end Inlay
