import Inlay.Files.Path
import Inlay.Proofs.Text.Lines

/-!
# The last component of a path

Behind the last component of a path only slashes and components `.` can stand, and in front of it
the path is empty or ends with a slash (`LastComponent`).  A path without one is made of slashes and
`.` alone.  `fileName?_eq_some_iff` says that the name of the file is this component, unless it
leads upwards.
-/

namespace Inlay
namespace Path

variable {path trailing component : List Char} {text name : String}

/-- Slashes and components `.` behind a component, which do not count. -/
inductive IsTrailing : List Char → Prop
  | nil : IsTrailing []
  | slash {rest : List Char} (h : IsTrailing rest) : IsTrailing ('/' :: rest)
  | dot {rest : List Char} (h : IsTrailing rest) : IsTrailing ('/' :: '.' :: rest)

/-- The last component of a path.  A component `.` names nothing of its own. -/
structure LastComponent (path component : List Char) : Prop where
  split : ∃ front trailing, path = front ++ component ++ trailing ∧
    (front = [] ∨ ∃ directory, front = directory ++ ['/']) ∧ IsTrailing trailing
  notMem : '/' ∉ component
  ne_nil : component ≠ []
  ne_dot : component ≠ ['.']

/-! ## Parts -/

/-- A part that is empty or `.`. -/
def IsIdle (part : List Char) : Prop := part = [] ∨ part = ['.']

theorem exists_pieces_trailing (h : IsTrailing trailing) (hcomponent : '/' ∉ component) :
    ∃ rest, Text.pieces '/' (component ++ trailing) = component :: rest ∧
      ∀ part ∈ rest, IsIdle part := by
  -- What follows a slash is again a part with something trailing, so `component` varies.
  induction h generalizing component with
  | nil =>
    refine ⟨[], ?_, fun part hpart => nomatch hpart⟩
    rw [List.append_nil, Text.pieces_of_notMem hcomponent]
  | slash h ih =>
    obtain ⟨rest, hrest, hidle⟩ := ih List.not_mem_nil
    refine ⟨[] :: rest, ?_, List.forall_mem_cons.2 ⟨.inl rfl, hidle⟩⟩
    rw [Text.pieces_line hcomponent]
    exact congrArg _ hrest
  | dot h ih =>
    have hdot : '/' ∉ ['.'] := by decide
    obtain ⟨rest, hrest, hidle⟩ := ih hdot
    refine ⟨['.'] :: rest, ?_, List.forall_mem_cons.2 ⟨.inr rfl, hidle⟩⟩
    rw [Text.pieces_line hcomponent]
    exact congrArg _ hrest

theorem isTrailing_of_isIdle {parts : List (List Char)} (h : ∀ part ∈ parts, IsIdle part) :
    IsTrailing (parts.flatMap ('/' :: ·)) := by
  induction parts with
  | nil => exact .nil
  | cons part parts ih =>
    obtain ⟨hpart, hparts⟩ := List.forall_mem_cons.1 h
    rcases hpart with rfl | rfl
    · exact .slash (ih hparts)
    · exact .dot (ih hparts)

theorem joinWith_cons (part : List Char) (parts : List (List Char)) :
    Text.joinWith ['/'] (part :: parts) = part ++ parts.flatMap ('/' :: ·) := by
  induction parts generalizing part with
  | nil => exact (List.append_nil part).symm
  | cons next parts ih => rw [Text.joinWith, ih, List.append_assoc]; rfl

/-- The last component is the last part that is not idle. -/
theorem lastComponent_iff :
    LastComponent path component ↔ ∃ before behind,
      Text.pieces '/' path = before ++ component :: behind ∧ ¬ IsIdle component ∧
        ∀ part ∈ behind, IsIdle part := by
  constructor
  · rintro ⟨⟨front, trailing, rfl, hfront, htrailing⟩, hcomponent, hne, hdot⟩
    obtain ⟨behind, hpieces, hbehind⟩ := exists_pieces_trailing htrailing hcomponent
    have hbusy : ¬ IsIdle component := not_or.2 ⟨hne, hdot⟩
    rcases hfront with rfl | ⟨directory, rfl⟩
    · exact ⟨[], behind, hpieces, hbusy, hbehind⟩
    · refine ⟨Text.pieces '/' directory, behind, ?_, hbusy, hbehind⟩
      rw [List.append_assoc, List.append_assoc, List.singleton_append, Text.pieces_append_cons,
        hpieces]
  · rintro ⟨before, behind, hpieces, hbusy, hbehind⟩
    have hpath := (Text.joinWith_pieces '/' path).symm
    have hmem : component ∈ Text.pieces '/' path := by
      rw [hpieces]
      exact List.mem_append_right _ List.mem_cons_self
    have hcomponent : '/' ∉ component := Text.notMem_of_mem_pieces hmem
    refine ⟨?_, hcomponent, (not_or.1 hbusy).1, (not_or.1 hbusy).2⟩
    rw [hpieces] at hpath
    cases before with
    | nil =>
      rw [List.nil_append, joinWith_cons] at hpath
      exact ⟨[], _, hpath, .inl rfl, isTrailing_of_isIdle hbehind⟩
    | cons first before =>
      refine ⟨first ++ before.flatMap ('/' :: ·) ++ ['/'], _, ?_, .inr ⟨_, rfl⟩,
        isTrailing_of_isIdle hbehind⟩
      rw [hpath, List.cons_append, joinWith_cons]
      simp

/-! ## Components -/

theorem isComponent_succ (k : Nat) (part : String) :
    isComponent (k + 1) part = decide (part ≠ "" ∧ part ≠ ".") := by
  simp [isComponent]

theorem map_filter_zipIdx (rest : List String) (k : Nat) :
    ((rest.zipIdx (k + 1)).filter fun (part, index) => isComponent index part).map (·.1) =
      rest.filter fun part => part ≠ "" ∧ part ≠ "." := by
  induction rest generalizing k with
  | nil => rfl
  | cons part rest ih =>
    simp only [List.zipIdx_cons, List.filter_cons, isComponent_succ]
    split
    · rw [List.map_cons, ih]
    · exact ih (k + 1)

/-- A part `.` counts only as the first one. -/
theorem components_eq {first : String} {rest : List String} (h : parts text = first :: rest) :
    components text =
      (if first = "" then [] else [first]) ++ rest.filter fun part => part ≠ "" ∧ part ≠ "." := by
  rw [components, h, List.zipIdx_cons, List.filter_cons, ← map_filter_zipIdx rest 0]
  by_cases hfirst : first = ""
  · simp [hfirst, isComponent]
  · simp [hfirst, isComponent]

theorem isIdle_toList {part : String} : IsIdle part.toList ↔ ¬ (part ≠ "" ∧ part ≠ ".") := by
  have hempty : part.toList = [] ↔ part = "" := by rw [← String.toList_inj]; rfl
  have hdot : part.toList = ['.'] ↔ part = "." := by rw [← String.toList_inj]; rfl
  rw [IsIdle, hempty, hdot, Classical.not_and_iff_not_or_not, Classical.not_not, Classical.not_not]

theorem lastComponent_toList_iff :
    LastComponent text.toList name.toList ↔ ∃ before behind,
      parts text = before ++ name :: behind ∧ ¬ IsIdle name.toList ∧
        ∀ part ∈ behind, IsIdle part.toList := by
  rw [lastComponent_iff, parts]
  constructor
  · rintro ⟨before, behind, hpieces, hname, hbehind⟩
    refine ⟨before.map String.ofList, behind.map String.ofList, ?_, hname, ?_⟩
    · rw [hpieces, List.map_append, List.map_cons, String.ofList_toList]
    · simpa using hbehind
  · rintro ⟨before, behind, hparts, hname, hbehind⟩
    obtain ⟨front, rest, hpieces, -, hrest⟩ := List.map_eq_append_iff.1 hparts
    obtain ⟨component, rest, rfl, rfl, rfl⟩ := List.map_eq_cons_iff.1 hrest
    refine ⟨front, rest, ?_, hname, ?_⟩
    · rw [hpieces, String.toList_ofList]
    · simpa using hbehind

/-- The last of the components is the last part that is not idle, except in a path that only has a
component `.`. -/
theorem getLast?_components :
    (components text).getLast? = some name ∧ name ≠ "." ↔
      LastComponent text.toList name.toList := by
  obtain ⟨first, rest, hparts⟩ : ∃ first rest, parts text = first :: rest := by
    refine List.exists_cons_of_ne_nil ?_
    rw [parts, ne_eq, List.map_eq_nil_iff]
    exact Text.pieces_ne_nil '/' text.toList
  rw [lastComponent_toList_iff, components_eq hparts, hparts]
  simp only [isIdle_toList, Classical.not_not]
  constructor
  · rintro ⟨hlast, hdot⟩
    by_cases hrest : rest.filter (fun part => part ≠ "" ∧ part ≠ ".") = []
    · rw [hrest, List.append_nil] at hlast
      by_cases hfirst : first = ""
      · rw [if_pos hfirst] at hlast
        cases hlast
      · rw [if_neg hfirst] at hlast
        obtain rfl := Option.some.inj hlast
        refine ⟨[], rest, rfl, ⟨hfirst, hdot⟩, ?_⟩
        simpa [List.filter_eq_nil_iff] using hrest
    · rw [List.getLast?_append, List.getLast?_eq_some_getLast hrest, Option.some_or] at hlast
      have hkept := List.dropLast_concat_getLast hrest
      rw [Option.some.inj hlast, eq_comm] at hkept
      obtain ⟨before, more, rfl, -, hmore⟩ := List.filter_eq_append_iff.1 hkept
      obtain ⟨idle, behind, rfl, -, hname, hbehind⟩ := List.filter_eq_cons_iff.1 hmore
      refine ⟨first :: (before ++ idle), behind, by simp, of_decide_eq_true hname, ?_⟩
      simpa [List.filter_eq_nil_iff] using hbehind
  · rintro ⟨before, behind, hsplit, hname, hbehind⟩
    have hidle : behind.filter (fun part => part ≠ "" ∧ part ≠ ".") = [] := by
      simpa [List.filter_eq_nil_iff] using hbehind
    refine ⟨?_, hname.2⟩
    cases before with
    | nil =>
      obtain ⟨rfl, hrest⟩ := List.cons.inj hsplit
      rw [hrest, hidle, if_neg hname.1]
      rfl
    | cons head before =>
      have hrest : rest = before ++ name :: behind := (List.cons.inj hsplit).2
      rw [hrest, List.filter_append, List.filter_cons, if_pos (decide_eq_true hname), hidle,
        ← List.append_assoc, List.getLast?_append]
      rfl

theorem fileName?_eq_some_iff :
    fileName? text = some name ↔ LastComponent text.toList name.toList ∧ name ≠ ".." := by
  rw [← getLast?_components, fileName?]
  cases (components text).getLast? with
  | none => simp
  | some last =>
    simp only [Option.ite_none_left_eq_some, Option.some.injEq, Bool.or_eq_true, decide_eq_true_eq]
    grind

end Path
end Inlay
