import Inlay.Files.Path
import Inlay.Proofs.Text.Pieces

/-!
# The directories above a path

The parent of a path has the components of the path without the last one (`components_of_parent?`).
So the way up from a path ends, and the list of its ancestors is the path with the ancestors of its
parent behind it (`ancestors_eq`).  `Climb` is the same way up as a relation, which also says what
lies below the place that is reached (`climb_iff`).
-/

namespace Inlay
namespace Path

variable {path above directory : String} {passed : List String}

/-! ## Parts of parents -/

/-- Up to the end of a part a path has the parts in front of it, and that one. -/
theorem parts_upTo (path : String) (index : Nat) :
    parts (upTo path index) = (parts path).take (index + 1) := by
  have htext : (upTo path index).toList =
      Text.joinWith ['/'] ((Text.pieces '/' path.toList).take (index + 1)) := by
    rw [upTo, parts, String.toList_intercalate, Text.joinWith_eq_intercalate, ← List.map_take,
      List.map_map]
    simp [Function.comp_def]
  rw [parts, htext, Text.pieces_joinWith, List.map_take, ← parts]
  · exact fun part hpart => Text.notMem_of_mem_pieces (List.mem_of_mem_take hpart)
  · rw [ne_eq, List.take_eq_nil_iff, not_or]
    exact ⟨Nat.succ_ne_zero index, Text.pieces_ne_nil '/' path.toList⟩

/-- The components of a path, each with the index of its part. -/
def indexed (path : String) : List (String × Nat) :=
  (parts path).zipIdx.filter fun (part, index) => isComponent index part

theorem components_eq_map (path : String) : components path = (indexed path).map (·.1) := rfl

theorem componentIndices_eq_map (path : String) :
    componentIndices path = (indexed path).map (·.2) := rfl

theorem pairwise_indexed (path : String) : (indexed path).Pairwise fun a b => a.2 < b.2 := by
  have hall : (parts path).zipIdx.Pairwise fun a b => a.2 < b.2 := by
    rw [← List.pairwise_map (f := Prod.snd) (R := (· < ·)), List.zipIdx_map_snd]
    exact List.pairwise_lt_range'
  exact hall.sublist List.filter_sublist

/-- The components that are not behind the end of a part are those of the path up to there. -/
theorem indexed_upTo {index : Nat} (h : index < (parts path).length) :
    indexed (upTo path index) = (indexed path).filter fun entry => entry.2 ≤ index := by
  have hlength : ((parts path).take (index + 1)).length = index + 1 := by
    rw [List.length_take]
    omega
  have hsplit : (parts path).zipIdx = ((parts path).take (index + 1)).zipIdx ++
      ((parts path).drop (index + 1)).zipIdx (index + 1) := by
    have happend := @List.zipIdx_append _ ((parts path).take (index + 1))
      ((parts path).drop (index + 1)) 0
    rwa [List.take_append_drop, hlength, Nat.zero_add] at happend
  have hfront : ∀ entry ∈ indexed (upTo path index), entry.2 ≤ index := by
    intro entry hentry
    rw [indexed, parts_upTo] at hentry
    have hlt := List.snd_lt_of_mem_zipIdx (List.mem_filter.1 hentry).1
    omega
  have hback : ∀ entry ∈ (((parts path).drop (index + 1)).zipIdx (index + 1)).filter
      (fun (part, index) => isComponent index part), ¬ entry.2 ≤ index := by
    intro entry hentry
    have hle := List.le_snd_of_mem_zipIdx (List.mem_filter.1 hentry).1
    omega
  have hindexed : indexed path = indexed (upTo path index) ++
      (((parts path).drop (index + 1)).zipIdx (index + 1)).filter
        fun (part, index) => isComponent index part := by
    rw [indexed, hsplit, List.filter_append, ← parts_upTo, ← indexed]
  rw [hindexed, List.filter_append, List.filter_eq_self.2 (by simpa using hfront),
    List.filter_eq_nil_iff.2 (by simpa using hback), List.append_nil]

/-! ## Parents -/

theorem parent?_eq_none_iff : parent? path = none ↔ components path = [] := by
  have hmap : components path = [] ↔ componentIndices path = [] := by
    rw [components_eq_map, componentIndices_eq_map, List.map_eq_nil_iff, List.map_eq_nil_iff]
  rw [hmap, ← List.reverse_eq_nil_iff, parent?]
  split <;> simp_all

/-- The root and the empty path are above a path with one component. -/
theorem components_root : components "/" = [] ∧ components "" = [] := by
  constructor <;> decide

theorem components_of_parent? (h : parent? path = some above) :
    components above = (components path).dropLast := by
  rw [parent?, componentIndices_eq_map, ← List.map_reverse] at h
  split at h
  · cases h
  · rename_i last hlast
    obtain ⟨entry, hentry, -⟩ := List.map_eq_singleton_iff.1 hlast
    rw [List.reverse_eq_iff, List.reverse_singleton] at hentry
    rw [components_eq_map path, hentry]
    obtain rfl := Option.some.inj h
    split
    · exact components_root.1
    · exact components_root.2
  · rename_i last before more hindices
    obtain ⟨entry, others, hreverse, -, hothers⟩ := List.map_eq_cons_iff.1 hindices
    obtain ⟨next, front, rfl, hnext, -⟩ := List.map_eq_cons_iff.1 hothers
    rw [List.reverse_eq_iff, List.reverse_cons, List.reverse_cons] at hreverse
    have hsorted := pairwise_indexed path
    rw [hreverse, List.pairwise_append, List.pairwise_append] at hsorted
    obtain ⟨⟨-, -, hfront⟩, -, hlast⟩ := hsorted
    have hmem : next ∈ indexed path := by
      rw [hreverse]
      simp
    have hlt : before < (parts path).length :=
      hnext ▸ List.snd_lt_of_mem_zipIdx (List.mem_filter.1 hmem).1
    obtain rfl := Option.some.inj h
    have hkept : (front.reverse ++ [next]).filter (fun entry => entry.2 ≤ before) =
        front.reverse ++ [next] := by
      refine List.filter_eq_self.2 fun e he => decide_eq_true ?_
      rcases List.mem_append.1 he with he | he
      · exact hnext ▸ Nat.le_of_lt (hfront e he next (List.mem_singleton_self next))
      · exact (List.mem_singleton.1 he) ▸ Nat.le_of_eq hnext
    have hdropped : ¬ entry.2 ≤ before := by
      rw [← hnext, Nat.not_le]
      exact hlast next (by simp) entry (List.mem_singleton_self entry)
    rw [components_eq_map, components_eq_map, indexed_upTo hlt, hreverse, List.filter_append, hkept,
      List.filter_eq_nil_iff.2 (by simpa using hdropped)]
    simp

/-! ## The way up -/

theorem length_componentIndices (path : String) :
    (componentIndices path).length = (components path).length := by
  rw [componentIndices_eq_map, components_eq_map, List.length_map, List.length_map]

/-- More steps than there are components make no difference. -/
theorem ancestorsWithin_congr {m n : Nat} (hm : (components path).length ≤ m)
    (hn : (components path).length ≤ n) : ancestorsWithin m path = ancestorsWithin n path := by
  induction m generalizing n path with
  | zero =>
    have hnone : parent? path = none :=
      parent?_eq_none_iff.2 (List.length_eq_zero_iff.1 (Nat.le_zero.1 hm))
    cases n with
    | zero => rfl
    | succ n => rw [ancestorsWithin, ancestorsWithin, hnone]
  | succ m ih =>
    cases n with
    | zero =>
      have hnone : parent? path = none :=
        parent?_eq_none_iff.2 (List.length_eq_zero_iff.1 (Nat.le_zero.1 hn))
      rw [ancestorsWithin, ancestorsWithin, hnone]
    | succ n =>
      rw [ancestorsWithin, ancestorsWithin]
      cases hparent : parent? path with
      | none => rfl
      | some above =>
        have hlength := congrArg List.length (components_of_parent? hparent)
        rw [List.length_dropLast] at hlength
        exact congrArg (path :: ·) (ih (by omega) (by omega))

theorem ancestors_eq (path : String) :
    ancestors path =
      match parent? path with
      | none => [path]
      | some above => path :: ancestors above := by
  have hmore : ancestors path = ancestorsWithin ((components path).length + 1) path := by
    rw [ancestors, length_componentIndices]
    exact ancestorsWithin_congr (Nat.le_refl _) (Nat.le_succ _)
  rw [hmore, ancestorsWithin]
  cases hparent : parent? path with
  | none => rfl
  | some above =>
    have hlength := congrArg List.length (components_of_parent? hparent)
    rw [List.length_dropLast] at hlength
    show path :: ancestorsWithin _ above = path :: ancestors above
    rw [ancestors, length_componentIndices, ancestorsWithin_congr (by omega) (Nat.le_refl _)]

/-- From a path one comes up to a directory, past others that lie below it. -/
inductive Climb : String → List String → String → Prop
  | stay (path : String) : Climb path [] path
  | up {path above directory : String} {passed : List String} (h : parent? path = some above)
      (further : Climb above passed directory) : Climb path (path :: passed) directory

/-- The places that one comes to are those in the list of ancestors, in its order. -/
theorem climb_iff :
    Climb path passed directory ↔ ∃ rest, ancestors path = passed ++ directory :: rest := by
  constructor
  · intro h
    induction h with
    | stay path =>
      rw [ancestors_eq]
      split
      · exact ⟨[], rfl⟩
      · exact ⟨_, rfl⟩
    | up h _ ih =>
      obtain ⟨rest, hrest⟩ := ih
      rw [ancestors_eq, h]
      exact ⟨rest, congrArg (_ :: ·) hrest⟩
  · rintro ⟨rest, h⟩
    induction passed generalizing path with
    | nil =>
      obtain rfl : path = directory := by
        rw [ancestors_eq] at h
        split at h
        · exact (List.cons.inj h).1
        · exact (List.cons.inj h).1
      exact .stay path
    | cons first passed ih =>
      rw [ancestors_eq] at h
      split at h
      · have hnil := (List.cons.inj h).2
        exact absurd hnil.symm (by simp)
      · rename_i above habove
        obtain rfl := (List.cons.inj h).1
        exact .up habove (ih (List.cons.inj h).2)

end Path
end Inlay
