import Inlay.SourceMap.Lookup
import Inlay.Proofs.Sorting

/-!
# The nearest segment

`Nearest line column s` says which segment of a line a column belongs to, on the line as it was
given: one with the greatest generated column that is not behind, the first of these in the order of
the line when the column is hit exactly, and the last of them otherwise.  Looking up a sorted line
finds exactly this segment (`segmentAt?_sortLine_eq_some_iff`), whatever the order of the line was;
`originAt?_ofMappings_nearest` says it for whole mappings, with the column that is hit computed.

The relation carries what chaining needs of a lookup: leaving other segments out does not move it
(`Nearest.filter`), and rewriting segments in place rewrites it (`segmentAt?_sortLine_filterMap`).
-/

namespace Inlay
namespace Lookup

/-- The segments of a line at a generated column, in the order of the line. -/
def atColumn (line : List Segment) (column : Nat) : List Segment :=
  line.filter (·.generatedColumn = column)

/-- A column belongs to a segment of a line. -/
structure Nearest (line : List Segment) (column : Nat) (s : Segment) : Prop where
  le : s.generatedColumn ≤ column
  greatest : ∀ t ∈ line, t.generatedColumn ≤ column → t.generatedColumn ≤ s.generatedColumn
  chosen : (if s.generatedColumn = column then (atColumn line s.generatedColumn).head?
    else (atColumn line s.generatedColumn).getLast?) = some s

/-! ## Sorting -/

theorem sortLine_perm (line : List Segment) : (sortLine line).Perm line := List.mergeSort_perm ..

theorem mem_sortLine {line : List Segment} {s : Segment} : s ∈ sortLine line ↔ s ∈ line :=
  (sortLine_perm line).mem_iff

/-- Lines that are sorted already stay as they are. -/
theorem ofMappings_of_sorted {m : Mappings}
    (h : ∀ line ∈ m, line.Pairwise fun a b => a.generatedColumn ≤ b.generatedColumn) :
    ofMappings m = ⟨m⟩ := by
  have hline : ∀ line ∈ m, sortLine line = line := by
    intro line hmem
    exact List.mergeSort_of_pairwise ((h line hmem).imp fun hle => decide_eq_true hle)
  rw [ofMappings, List.map_congr_left hline, List.map_id']

theorem sortLine_pairwise (line : List Segment) :
    (sortLine line).Pairwise fun a b => a.generatedColumn ≤ b.generatedColumn :=
  pairwise_mergeSort_key Segment.generatedColumn line

theorem mem_atColumn {line : List Segment} {column : Nat} {s : Segment} :
    s ∈ atColumn line column ↔ s ∈ line ∧ s.generatedColumn = column := by
  rw [atColumn, List.mem_filter, decide_eq_true_eq]

/-- Sorting is stable: the segments at one column keep their order. -/
theorem atColumn_sortLine (line : List Segment) (column : Nat) :
    atColumn (sortLine line) column = atColumn line column :=
  filter_mergeSort_key Segment.generatedColumn line column

/-! ## The segments that a column reaches -/

/-- On a sorted line the segments up to a column come first. -/
theorem takeWhile_eq_filter {line : List Segment} {column : Nat}
    (h : line.Pairwise fun a b => a.generatedColumn ≤ b.generatedColumn) :
    line.takeWhile (·.generatedColumn ≤ column) = line.filter (·.generatedColumn ≤ column) := by
  induction line with
  | nil => rfl
  | cons s line ih =>
    obtain ⟨hs, hline⟩ := List.pairwise_cons.1 h
    by_cases hle : s.generatedColumn ≤ column
    · rw [List.takeWhile_cons_of_pos (by simpa using hle),
        List.filter_cons_of_pos (by simpa using hle), ih hline]
    · have hnone : line.filter (·.generatedColumn ≤ column) = [] := by
        rw [List.filter_eq_nil_iff]
        intro t ht htle
        exact hle (Nat.le_trans (hs t ht) (of_decide_eq_true htle))
      rw [List.takeWhile_cons_of_neg (by simpa using hle),
        List.filter_cons_of_neg (by simpa using hle), hnone]

/-- What a lookup searches: the segments up to the column, sorted. -/
def reached (line : List Segment) (column : Nat) : List Segment :=
  (sortLine line).filter (·.generatedColumn ≤ column)

theorem mem_reached {line : List Segment} {column : Nat} {s : Segment} :
    s ∈ reached line column ↔ s ∈ line ∧ s.generatedColumn ≤ column := by
  rw [reached, List.mem_filter, mem_sortLine, decide_eq_true_eq]

theorem atColumn_reached {line : List Segment} {column c : Nat} (hc : c ≤ column) :
    atColumn (reached line column) c = atColumn line c := by
  rw [← atColumn_sortLine line c, reached, atColumn, List.filter_filter]
  refine List.filter_congr ?_
  intro s _
  by_cases hs : s.generatedColumn = c
  · simp [hs, hc]
  · simp [hs]

theorem le_getLast_reached {line : List Segment} {column : Nat} {last : Segment}
    (hlast : (reached line column).getLast? = some last) {t : Segment} (ht : t ∈ line)
    (hle : t.generatedColumn ≤ column) : t.generatedColumn ≤ last.generatedColumn := by
  obtain ⟨front, hfront⟩ := List.getLast?_eq_some_iff.1 hlast
  have hmem : t ∈ front ++ [last] := hfront ▸ mem_reached.2 ⟨ht, hle⟩
  have hsorted : (front ++ [last]).Pairwise fun a b => a.generatedColumn ≤ b.generatedColumn :=
    hfront ▸ (sortLine_pairwise line).filter _
  rcases List.mem_append.1 hmem with hmem | hmem
  · exact (List.pairwise_append.1 hsorted).2.2 t hmem last List.mem_cons_self
  · exact (List.mem_singleton.1 hmem) ▸ Nat.le_refl _

theorem segmentAt?_sortLine (line : List Segment) (column : Nat) :
    segmentAt? (sortLine line) column =
      match (reached line column).getLast? with
      | none => none
      | some last =>
        if last.generatedColumn = column then (atColumn line column).head? else some last := by
  have htake : (sortLine line).takeWhile (·.generatedColumn ≤ column) = reached line column :=
    takeWhile_eq_filter (sortLine_pairwise line)
  rw [segmentAt?, htake]
  cases (reached line column).getLast? with
  | none => rfl
  | some last =>
    show (if last.generatedColumn = column then _ else _) = _
    rw [← List.head?_filter, ← atColumn, atColumn_reached (Nat.le_refl column)]

theorem nearest_of_segmentAt? {line : List Segment} {column : Nat} {s : Segment}
    (h : segmentAt? (sortLine line) column = some s) : Nearest line column s := by
  rw [segmentAt?_sortLine] at h
  cases hlast : (reached line column).getLast? with
  | none => simp [hlast] at h
  | some last =>
    simp only [hlast] at h
    have hmem : last ∈ line ∧ last.generatedColumn ≤ column :=
      mem_reached.1 (List.mem_of_getLast? hlast)
    by_cases hc : last.generatedColumn = column
    · rw [if_pos hc] at h
      have hs : s.generatedColumn = column := (mem_atColumn.1 (List.mem_of_head? h)).2
      refine ⟨Nat.le_of_eq hs, fun t _ ht => hs ▸ ht, ?_⟩
      rw [if_pos hs, hs, h]
    · rw [if_neg hc, Option.some.injEq] at h
      subst h
      refine ⟨hmem.2, fun t ht hle => le_getLast_reached hlast ht hle, ?_⟩
      rw [if_neg hc, ← atColumn_reached hmem.2]
      obtain ⟨front, hfront⟩ := List.getLast?_eq_some_iff.1 hlast
      rw [hfront, atColumn, List.filter_append]
      simp

theorem Nearest.mem {line : List Segment} {column : Nat} {s : Segment}
    (h : Nearest line column s) : s ∈ line := by
  have hchosen := h.chosen
  by_cases hc : s.generatedColumn = column
  · rw [if_pos hc] at hchosen
    exact (mem_atColumn.1 (List.mem_of_head? hchosen)).1
  · rw [if_neg hc] at hchosen
    exact (mem_atColumn.1 (List.mem_of_getLast? hchosen)).1

theorem Nearest.unique {line : List Segment} {column : Nat} {s t : Segment}
    (hs : Nearest line column s) (ht : Nearest line column t) : s = t := by
  have hcolumn : s.generatedColumn = t.generatedColumn :=
    Nat.le_antisymm (ht.greatest s hs.mem hs.le) (hs.greatest t ht.mem ht.le)
  have hchosen := hs.chosen
  rw [hcolumn, ht.chosen] at hchosen
  exact (Option.some.inj hchosen).symm

/-- Looking up a sorted line finds exactly the nearest segment. -/
theorem segmentAt?_sortLine_eq_some_iff {line : List Segment} {column : Nat} {s : Segment} :
    segmentAt? (sortLine line) column = some s ↔ Nearest line column s := by
  refine ⟨nearest_of_segmentAt?, ?_⟩
  intro h
  have hfound : ∃ t, segmentAt? (sortLine line) column = some t := by
    rw [segmentAt?_sortLine]
    have hreached := mem_reached.2 ⟨h.mem, h.le⟩
    cases hlast : (reached line column).getLast? with
    | none => exact absurd hreached (by simp [List.getLast?_eq_none_iff.1 hlast])
    | some last =>
      by_cases hc : last.generatedColumn = column
      · have hmem : last ∈ atColumn line column :=
          mem_atColumn.2 ⟨(mem_reached.1 (List.mem_of_getLast? hlast)).1, hc⟩
        simp only [if_pos hc]
        exact ⟨_, List.head?_eq_some_head (List.ne_nil_of_mem hmem)⟩
      · exact ⟨last, if_neg hc⟩
  obtain ⟨t, ht⟩ := hfound
  rw [ht, (nearest_of_segmentAt? ht).unique h]

/-! ## Lines with segments left out or rewritten -/

/-- A nearest segment stays the nearest one when others are left out. -/
theorem Nearest.filter {line : List Segment} {column : Nat} {s : Segment} {keep : Segment → Bool}
    (h : Nearest line column s) (hs : keep s) : Nearest (line.filter keep) column s := by
  refine ⟨h.le, fun t ht => h.greatest t (List.mem_filter.1 ht).1, ?_⟩
  have hswap : atColumn (line.filter keep) s.generatedColumn =
      (atColumn line s.generatedColumn).filter keep := by
    rw [atColumn, atColumn, List.filter_filter, List.filter_filter]
    exact List.filter_congr fun t _ => Bool.and_comm ..
  have hchosen := h.chosen
  by_cases hc : s.generatedColumn = column
  · rw [if_pos hc] at hchosen ⊢
    rw [hswap, List.head?_filter]
    obtain ⟨rest, hrest⟩ := List.head?_eq_some_iff.1 hchosen
    rw [hrest, List.find?_cons_of_pos hs]
  · rw [if_neg hc] at hchosen ⊢
    obtain ⟨front, hfront⟩ := List.getLast?_eq_some_iff.1 hchosen
    rw [hswap, hfront, List.filter_append, List.filter_singleton, hs]
    exact List.getLast?_concat

theorem sortLine_map {g : Segment → Segment}
    (hg : ∀ s, (g s).generatedColumn = s.generatedColumn) (line : List Segment) :
    sortLine (line.map g) = (sortLine line).map g := by
  refine (List.map_mergeSort ?_).symm
  intro a _ b _
  rw [hg, hg]

theorem segmentAt?_map {g : Segment → Segment}
    (hg : ∀ s, (g s).generatedColumn = s.generatedColumn) (line : List Segment) (column : Nat) :
    segmentAt? (line.map g) column = (segmentAt? line column).map g := by
  have htake : (line.map g).takeWhile (·.generatedColumn ≤ column) =
      (line.takeWhile (·.generatedColumn ≤ column)).map g := by
    rw [List.takeWhile_map]
    simp only [Function.comp_def, hg]
  rw [segmentAt?, segmentAt?, htake, List.getLast?_map, List.find?_map]
  cases (line.takeWhile (·.generatedColumn ≤ column)).getLast? with
  | none => rfl
  | some last =>
    show (if (g last).generatedColumn = column then _ else _) = Option.map g (if _ then _ else _)
    rw [hg]
    by_cases hc : last.generatedColumn = column
    · rw [if_pos hc, if_pos hc]
      simp only [Function.comp_def, hg]
    · rw [if_neg hc, if_neg hc]
      rfl

/-- Rewriting the segments of a line in place, some of them left out, rewrites the nearest of those
that stay. -/
theorem segmentAt?_sortLine_filterMap {f : Segment → Option Segment}
    (hf : ∀ s t, f s = some t → t.generatedColumn = s.generatedColumn) (line : List Segment)
    (column : Nat) :
    segmentAt? (sortLine (line.filterMap f)) column =
      (segmentAt? (sortLine (line.filter fun s => (f s).isSome)) column).bind f := by
  let g (s : Segment) : Segment := (f s).getD s
  have hg : ∀ s, (g s).generatedColumn = s.generatedColumn := by
    intro s
    cases hs : f s with
    | none => simp [g, hs]
    | some t => simpa [g, hs] using hf s t hs
  have hsplit : line.filterMap f = (line.filter fun s => (f s).isSome).map g := by
    induction line with
    | nil => rfl
    | cons s line ih =>
      cases hs : f s with
      | none => simp [hs, ih]
      | some t => simp [hs, ih, g]
  rw [hsplit, sortLine_map hg, segmentAt?_map hg]
  cases hfound : segmentAt? (sortLine (line.filter fun s => (f s).isSome)) column with
  | none => rfl
  | some s =>
    have hs : (f s).isSome := (List.mem_filter.1 (nearest_of_segmentAt? hfound).mem).2
    obtain ⟨t, ht⟩ := Option.isSome_iff_exists.1 hs
    simp [g, ht]

/-! ## Lookups in whole mappings -/

theorem originAt?_ofMappings (m : Mappings) (line column : Nat) :
    (ofMappings m).originAt? line column =
      m[line]?.bind fun segments => (segmentAt? (sortLine segments) column).bind (·.origin) := by
  simp only [originAt?, ofMappings, List.getElem?_map]
  cases m[line]? <;> rfl

theorem exists_segment_of_originAt? {m : Mappings} {line column : Nat} {o : Origin}
    (h : (ofMappings m).originAt? line column = some o) :
    ∃ segments ∈ m, ∃ s ∈ segments, s.origin = some o := by
  rw [originAt?_ofMappings] at h
  obtain ⟨segments, hline, h⟩ := Option.bind_eq_some_iff.1 h
  obtain ⟨s, hs, ho⟩ := Option.bind_eq_some_iff.1 h
  exact ⟨segments, List.mem_of_getElem? hline, s, (nearest_of_segmentAt? hs).mem, ho⟩

/-! ## The rule of a lookup -/

/-- The greatest generated column of a line that is not behind a column. -/
def greatestColumn? (line : List Segment) (column : Nat) : Option Nat :=
  ((line.map (·.generatedColumn)).filter (· ≤ column)).max?

theorem greatestColumn?_eq_none_iff {line : List Segment} {column : Nat} :
    greatestColumn? line column = none ↔ ∀ s ∈ line, column < s.generatedColumn := by
  rw [greatestColumn?, List.max?_eq_none_iff, List.filter_eq_nil_iff, List.forall_mem_map]
  simp only [decide_eq_true_eq, Nat.not_le]

theorem greatestColumn?_eq_some_iff {line : List Segment} {column c : Nat} :
    greatestColumn? line column = some c ↔
      (∃ s ∈ line, s.generatedColumn = c) ∧ c ≤ column ∧
        ∀ s ∈ line, s.generatedColumn ≤ column → s.generatedColumn ≤ c := by
  rw [greatestColumn?, List.max?_eq_some_iff]
  simp only [List.mem_filter, List.mem_map, decide_eq_true_eq, and_imp, and_assoc,
    forall_exists_index, forall_apply_eq_imp_iff₂]

theorem segmentAt?_sortLine_of_behind {line : List Segment} {column : Nat}
    (h : ∀ s ∈ line, column < s.generatedColumn) : segmentAt? (sortLine line) column = none := by
  rw [Option.eq_none_iff_forall_ne_some]
  intro s hs
  have hnearest := segmentAt?_sortLine_eq_some_iff.1 hs
  exact absurd hnearest.le (Nat.not_le.2 (h s hnearest.mem))

/-- One of the segments at the greatest column that is not behind is the nearest one. -/
theorem exists_nearest_of_greatestColumn? {line : List Segment} {column c : Nat}
    (h : greatestColumn? line column = some c) :
    ∃ s, s.generatedColumn = c ∧ Nearest line column s := by
  obtain ⟨⟨t, ht, htc⟩, hle, hgreatest⟩ := greatestColumn?_eq_some_iff.1 h
  have hne : atColumn line c ≠ [] := List.ne_nil_of_mem (mem_atColumn.2 ⟨ht, htc⟩)
  by_cases hc : c = column
  · obtain ⟨s, hfirst⟩ : ∃ s, (atColumn line c).head? = some s := ⟨_, List.head?_eq_some_head hne⟩
    obtain rfl : s.generatedColumn = c := (mem_atColumn.1 (List.mem_of_head? hfirst)).2
    exact ⟨s, rfl, hle, hgreatest, by rwa [if_pos hc]⟩
  · obtain ⟨s, hlast⟩ : ∃ s, (atColumn line c).getLast? = some s :=
      ⟨_, List.getLast?_eq_some_getLast hne⟩
    obtain rfl : s.generatedColumn = c := (mem_atColumn.1 (List.mem_of_getLast? hlast)).2
    exact ⟨s, rfl, hle, hgreatest, by rwa [if_neg hc]⟩

/-- A lookup finds nothing on a line that is not there, or all of whose segments are behind the
column.  Otherwise it finds the origin of a segment at the greatest column that is not behind: of
the first such segment of the line as it was given if that is the column asked for, and of the last
one if not. -/
theorem originAt?_ofMappings_nearest (m : Mappings) (line column : Nat) :
    let found := (ofMappings m).originAt? line column
    match m[line]? with
    | none => found = none
    | some segments =>
      match greatestColumn? segments column with
      | none => (∀ s ∈ segments, column < s.generatedColumn) ∧ found = none
      | some c =>
        ∃ s ∈ segments, s.generatedColumn = c ∧ c ≤ column ∧ found = s.origin ∧
          if c = column then (atColumn segments c).head? = some s
          else (atColumn segments c).getLast? = some s := by
  intro found
  have hfound : found = m[line]?.bind fun segments =>
      (segmentAt? (sortLine segments) column).bind (·.origin) := originAt?_ofMappings m line column
  cases hline : m[line]? with
  | none => rw [hfound, hline]; rfl
  | some segments =>
    rw [hline, Option.bind_some] at hfound
    dsimp only
    cases hc : greatestColumn? segments column with
    | none =>
      have hbehind := greatestColumn?_eq_none_iff.1 hc
      refine ⟨hbehind, ?_⟩
      rw [hfound, segmentAt?_sortLine_of_behind hbehind]
      rfl
    | some c =>
      obtain ⟨s, rfl, hnearest⟩ := exists_nearest_of_greatestColumn? hc
      have hsegment := segmentAt?_sortLine_eq_some_iff.2 hnearest
      refine ⟨s, hnearest.mem, rfl, hnearest.le, by rw [hfound, hsegment]; rfl, ?_⟩
      have hchosen := hnearest.chosen
      by_cases hexact : s.generatedColumn = column
      · rwa [if_pos hexact] at hchosen ⊢
      · rwa [if_neg hexact] at hchosen ⊢

end Lookup
end Inlay
