import Inlay.Pattern.Expr

/-!
Building patterns in normal form.

Concatenations and choices are nested to the right and hold neither concatenations nor choices as
their members, literals that stand next to each other are one literal, and a choice between single
characters or between sets is one set.  A choice whose branches all start with the same parts has
these parts in front of it: `ab.|ab,` is `ab(?:.|,)`.

The last rule decides what is found, because the branches then share one attempt at the common
parts: with `.*x|.*y` the text `xay` is matched as a whole, since the longest `.*` is tried with
both endings before a shorter one.
-/

namespace Inlay
namespace Pattern
namespace Expr

/-! ## Views -/

/-- The parts of a concatenation; the empty pattern has none. -/
def parts : Expr → List Expr
  | .empty => []
  | .concat first rest => first :: rest.parts
  | e => [e]

/-- The branches of a choice, the preferred ones first. -/
def branches : Expr → List Expr
  | .either preferred other => preferred :: other.branches
  | e => [e]

def ofParts : List Expr → Expr
  | [] => .empty
  | [e] => e
  | e :: es => .concat e (ofParts es)

def ofBranches : List Expr → Expr
  | [] => .set .empty
  | [e] => e
  | e :: es => .either e (ofBranches es)

/-! ## Sets and literals -/

/-- The pattern of a set, which is a literal if the set has one member. -/
def ofSet (s : CharSet) : Expr :=
  match s.single? with
  | some c => .literal [c]
  | none => .set s

def char? : Expr → Option Char
  | .literal [c] => some c
  | _ => none

def set? : Expr → Option CharSet
  | .set s => some s
  | _ => none

/-- The set that a choice amounts to, if its branches are all characters or all sets. -/
def unionOf? (branches : List Expr) : Option CharSet :=
  match branches.mapM char? with
  | some cs => some (CharSet.ofList cs)
  | none => (branches.mapM set?).map fun sets => sets.foldl CharSet.union CharSet.empty

/-! ## Concatenation -/

/-- Joins literals that stand next to each other. -/
def joinLiterals : List Expr → List Expr
  | [] => []
  | .literal text :: rest =>
    match joinLiterals rest with
    | .literal more :: behind => .literal (text ++ more) :: behind
    | behind => .literal text :: behind
  | e :: rest => e :: joinLiterals rest

def sequence (es : List Expr) : Expr := ofParts (joinLiterals (es.flatMap parts))

/-! ## Choice -/

/-- The choice between patterns without regard to what they have in common. -/
def choice (es : List Expr) : Expr :=
  match es.flatMap branches with
  | e :: f :: rest =>
    match unionOf? (e :: f :: rest) with
    | some s => ofSet s
    | none => ofBranches (e :: f :: rest)
  | few => ofBranches few

/-- The parts of a pattern that has at least two. -/
def partsOfConcat? : Expr → Option (List Expr)
  | .concat first rest => some (first :: rest.parts)
  | _ => none

/-- The parts at the start of two concatenations up to the first difference. -/
def commonFront : List Expr → List Expr → List Expr
  | a :: as, b :: bs => if a = b then a :: commonFront as bs else []
  | _, _ => []

/-- The choice between patterns, of which earlier ones are preferred.  What all of them start with
stands in front of the choice.  Then nothing is left that all of them start with, so this is done
once. -/
def alternatives (es : List Expr) : Expr :=
  match (es.flatMap branches).mapM partsOfConcat? with
  | some (first :: second :: rest) =>
    let front := (second :: rest).foldl commonFront first
    if front.isEmpty then choice es
    else
      let behind := (first :: second :: rest).map fun parts => ofParts (parts.drop front.length)
      sequence (front ++ [choice behind])
  | _ => choice es

/-! ## Repetition -/

/-- Repeats a pattern.  A body that matches no characters is repeated once at most, a repetition
without repetitions is empty, and a single one is its body. -/
def repetition (body : Expr) (least : Nat) (most : Option Nat) (greedy : Bool) : Expr :=
  let (least, most) : Nat × Option Nat :=
    if body.isZeroWidth then (min least 1, some (min (most.getD 1) 1)) else (least, most)
  if least = 0 ∧ most = some 0 then .empty
  else if least = 1 ∧ most = some 1 then body
  else .repeated body least most greedy

/-! ## Laws -/

/-- A concatenation has the parts that it is made of, if none of them is a concatenation. -/
theorem parts_ofParts {es : List Expr} (h : ∀ e ∈ es, e.parts = [e]) :
    (ofParts es).parts = es := by
  induction es with
  | nil => rfl
  | cons e rest ih =>
    cases rest with
    | nil => exact h e (List.mem_cons_self ..)
    | cons f more =>
      simp only [ofParts, parts]
      rw [ih fun g hg => h g (List.mem_cons_of_mem _ hg)]

/-- A choice has the branches that it is made of, if none of them is a choice. -/
theorem branches_ofBranches {es : List Expr} (hne : es ≠ [])
    (h : ∀ e ∈ es, e.branches = [e]) : (ofBranches es).branches = es := by
  induction es with
  | nil => exact absurd rfl hne
  | cons e rest ih =>
    cases rest with
    | nil => exact h e (List.mem_cons_self ..)
    | cons f more =>
      simp only [ofBranches, branches]
      rw [ih (List.cons_ne_nil _ _) fun g hg => h g (List.mem_cons_of_mem _ hg)]

/-- The common front of two concatenations is a start of the first. -/
theorem commonFront_prefix_left (as bs : List Expr) : commonFront as bs <+: as := by
  induction as generalizing bs with
  | nil => cases bs <;> simp [commonFront]
  | cons a as ih =>
    cases bs with
    | nil => simp [commonFront]
    | cons b bs =>
      simp only [commonFront]
      split
      · exact List.cons_prefix_cons.2 ⟨rfl, ih bs⟩
      · exact ⟨a :: as, rfl⟩

/-- The common front of two concatenations is a start of the second. -/
theorem commonFront_prefix_right (as bs : List Expr) : commonFront as bs <+: bs := by
  induction as generalizing bs with
  | nil => cases bs <;> simp [commonFront]
  | cons a as ih =>
    cases bs with
    | nil => simp [commonFront]
    | cons b bs =>
      simp only [commonFront]
      split
      · rename_i h
        subst h
        exact List.cons_prefix_cons.2 ⟨rfl, ih bs⟩
      · exact ⟨b :: bs, rfl⟩

end Expr
end Pattern
end Inlay
