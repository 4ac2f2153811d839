import Inlay.Pattern.CaseTable
import Inlay.Pattern.WordTable
import Inlay.Text.Blank

/-!
Sets of characters.

A set is a list of ranges of code points with a gap between any two of them, in increasing order.
A set has one such list only, so sets with the same members are equal and can be compared.  Every
operation builds its list by `CodeRanges.insert`, which joins the ranges that meet a new one; it
keeps the gaps, `Spaced.insert`, and it adds the characters of the new range and no others,
`contains_insert_iff`.
-/

namespace Inlay
namespace Pattern

/-! ## Ranges of code points -/

/-- Whether a code point lies in one of several ranges, which increase. -/
def inRanges (n : Nat) : List (Nat × Nat) → Bool
  | [] => false
  | (first, last) :: rest => first ≤ n && (n ≤ last || inRanges n rest)

namespace CodeRanges

/-- Adds a range, joined with the ranges that overlap or touch it. -/
def insert (first last : Nat) : List (Nat × Nat) → List (Nat × Nat)
  | [] => [(first, last)]
  | (a, b) :: rest =>
    if last + 1 < a then (first, last) :: (a, b) :: rest
    else if b + 1 < first then (a, b) :: insert first last rest
    else insert (min a first) (max b last) rest

/-- Each range holds a code point, and at least one lies between a range and the next. -/
def Spaced (ranges : List (Nat × Nat)) : Prop :=
  (∀ r ∈ ranges, r.1 ≤ r.2) ∧ ranges.Pairwise fun r s => r.2 + 1 < s.1

/-- What lies in front of the new range and of all ranges lies in front of the joined ones. -/
theorem lt_of_mem_insert {k first last : Nat} {ranges : List (Nat × Nat)} (hk : k < first)
    (h : ∀ r ∈ ranges, k < r.1) : ∀ r ∈ insert first last ranges, k < r.1 := by
  induction ranges generalizing first last with
  | nil => simpa [insert] using hk
  | cons range rest ih =>
    obtain ⟨a, b⟩ := range
    have ha : k < a := h (a, b) (List.mem_cons_self ..)
    have hrest : ∀ r ∈ rest, k < r.1 := fun r hr => h r (List.mem_cons_of_mem _ hr)
    simp only [insert]
    split
    · intro r hr
      rcases List.mem_cons.1 hr with rfl | hr
      · exact hk
      · exact h r hr
    · split
      · intro r hr
        rcases List.mem_cons.1 hr with rfl | hr
        · exact ha
        · exact ih hk hrest r hr
      · exact ih (by omega) hrest

theorem Spaced.insert {first last : Nat} {ranges : List (Nat × Nat)} (h : Spaced ranges)
    (hle : first ≤ last) : Spaced (CodeRanges.insert first last ranges) := by
  induction ranges generalizing first last with
  | nil => simpa [CodeRanges.insert, Spaced] using hle
  | cons range rest ih =>
    obtain ⟨a, b⟩ := range
    obtain ⟨hvalid, hgaps⟩ := h
    obtain ⟨hhead, htail⟩ := List.pairwise_cons.1 hgaps
    have hab : a ≤ b := hvalid (a, b) (List.mem_cons_self ..)
    have hrest : Spaced rest := ⟨fun r hr => hvalid r (List.mem_cons_of_mem _ hr), htail⟩
    simp only [CodeRanges.insert]
    split
    · rename_i hlast
      refine ⟨fun r hr => ?_, List.pairwise_cons.2 ⟨fun r hr => ?_, hgaps⟩⟩
      · rcases List.mem_cons.1 hr with rfl | hr
        · exact hle
        · exact hvalid r hr
      · rcases List.mem_cons.1 hr with rfl | hr
        · exact hlast
        · have := hhead r hr
          simp only at this ⊢
          omega
    · split
      · rename_i hfirst
        obtain ⟨hv, hg⟩ := ih hrest hle
        refine ⟨fun r hr => ?_, List.pairwise_cons.2 ⟨?_, hg⟩⟩
        · rcases List.mem_cons.1 hr with rfl | hr
          · exact hab
          · exact hv r hr
        · exact lt_of_mem_insert hfirst hhead
      · exact ih hrest (by omega)

theorem inRanges_cons_iff {n first last : Nat} {rest : List (Nat × Nat)} :
    inRanges n ((first, last) :: rest) = true ↔
      first ≤ n ∧ (n ≤ last ∨ inRanges n rest = true) := by
  simp [inRanges]

theorem lt_of_inRanges {n k : Nat} {ranges : List (Nat × Nat)} (h : ∀ r ∈ ranges, k < r.1)
    (hn : inRanges n ranges = true) : k < n := by
  cases ranges with
  | nil => simp [inRanges] at hn
  | cons range rest =>
    have := h range (List.mem_cons_self ..)
    have := (inRanges_cons_iff.1 hn).1
    omega

/-- Insertion adds the members of the new range and no others. -/
theorem inRanges_insert_iff {n first last : Nat} {ranges : List (Nat × Nat)} (h : Spaced ranges)
    (hle : first ≤ last) :
    inRanges n (insert first last ranges) = true ↔
      first ≤ n ∧ n ≤ last ∨ inRanges n ranges = true := by
  induction ranges generalizing first last with
  | nil => simp [insert, inRanges]
  | cons range rest ih =>
    obtain ⟨a, b⟩ := range
    obtain ⟨hvalid, hgaps⟩ := h
    obtain ⟨hhead, htail⟩ := List.pairwise_cons.1 hgaps
    have hab : a ≤ b := hvalid (a, b) (List.mem_cons_self ..)
    have hrest : Spaced rest := ⟨fun r hr => hvalid r (List.mem_cons_of_mem _ hr), htail⟩
    have hfar : inRanges n rest = true → b + 1 < n := lt_of_inRanges hhead
    simp only [insert]
    split
    · simp only [inRanges_cons_iff]
      by_cases hn : inRanges n rest = true
      · have := hfar hn
        simp only [hn, or_true, and_true]
        omega
      · simp only [hn, Bool.false_eq_true, or_false]
        omega
    · split
      · simp only [inRanges_cons_iff, ih hrest hle]
        by_cases hn : inRanges n rest = true
        · have := hfar hn
          simp only [hn, or_true, and_true]
          omega
        · simp only [hn, Bool.false_eq_true, or_false]
          omega
      · rw [ih hrest (show min a first ≤ max b last by omega), inRanges_cons_iff]
        by_cases hn : inRanges n rest = true
        · have := hfar hn
          simp only [hn, or_true, and_true, true_iff]
          omega
        · simp only [hn, Bool.false_eq_true, or_false]
          omega

/-- The ranges between several ranges, from a code point on. -/
def gaps (start : Nat) : List (Nat × Nat) → List (Nat × Nat)
  | [] => [(start, 0x10FFFF)]
  | (first, last) :: rest =>
    if start < first then (start, first - 1) :: gaps (last + 1) rest else gaps (last + 1) rest

/-- Whether a code point is reserved for halves of characters, and so no character. -/
def isReserved (n : Nat) : Bool := 0xD800 ≤ n && n ≤ 0xDFFF

/-- A range whose ends are characters. -/
def betweenChars (range : Nat × Nat) : Nat × Nat :=
  (if isReserved range.1 then 0xE000 else range.1, if isReserved range.2 then 0xD7FF else range.2)

end CodeRanges

/-! ## Sets -/

structure CharSet where
  ranges : List (Nat × Nat)
  spaced : CodeRanges.Spaced ranges
deriving DecidableEq, Repr

namespace CharSet

def empty : CharSet := ⟨[], by simp [CodeRanges.Spaced]⟩

instance : Inhabited CharSet := ⟨empty⟩

def contains (s : CharSet) (c : Char) : Bool := inRanges c.toNat s.ranges

/-- Adds the code points of a range, of which there are none if it ends before it starts. -/
def insert (s : CharSet) (first last : Nat) : CharSet :=
  if h : first ≤ last then ⟨CodeRanges.insert first last s.ranges, s.spaced.insert h⟩ else s

theorem contains_insert_iff {s : CharSet} {first last : Nat} {c : Char} :
    (s.insert first last).contains c = true ↔
      first ≤ c.toNat ∧ c.toNat ≤ last ∨ s.contains c = true := by
  unfold insert contains
  split
  · rename_i h
    exact CodeRanges.inRanges_insert_iff s.spaced h
  · constructor
    · exact .inr
    · rintro (h | h)
      · omega
      · exact h

def ofRanges (ranges : List (Nat × Nat)) : CharSet :=
  ranges.foldr (fun r s => s.insert r.1 r.2) empty

def range (first last : Char) : CharSet := empty.insert first.toNat last.toNat

def single (c : Char) : CharSet := range c c

def ofList (cs : List Char) : CharSet := ofRanges (cs.map fun c => (c.toNat, c.toNat))

/-- The only member, if there is one. -/
def single? (s : CharSet) : Option Char :=
  match s.ranges with
  | [(first, last)] => if first = last then some (Char.ofNat first) else none
  | _ => none

def union (s t : CharSet) : CharSet := s.ranges.foldr (fun r acc => acc.insert r.1 r.2) t

def complement (s : CharSet) : CharSet :=
  ofRanges ((CodeRanges.gaps 0 s.ranges).map CodeRanges.betweenChars)

def diff (s t : CharSet) : CharSet := (s.complement.union t).complement

def inter (s t : CharSet) : CharSet := (s.complement.union t.complement).complement

def xor (s t : CharSet) : CharSet := (s.diff t).union (t.diff s)

def complementIf (negated : Bool) (s : CharSet) : CharSet := if negated then s.complement else s

end CharSet

/-! ## Case folding -/

/-- The code points of a run, each with the one that it folds to. -/
def FoldRun.pairs (run : FoldRun) : List (Nat × Nat) :=
  (List.range ((run.last - run.first) / run.stride + 1)).map fun k =>
    let n := run.first + k * run.stride
    (n, (n + run.offset).toNat)

/-- The code points that do not fold to themselves, each with its simple case folding. -/
def foldPairs : List (Nat × Nat) := foldRuns.flatMap FoldRun.pairs

namespace CharSet

/-- The set made insensitive to case: it has every character with the same simple case folding as
a member.  No code point folds to one that folds further, so it is enough to add what the members
fold to, and then what folds to a member. -/
def folded (s : CharSet) : CharSet :=
  let targets := foldPairs.foldl
    (fun t pair => if inRanges pair.1 s.ranges then t.insert pair.2 pair.2 else t) s
  foldPairs.foldl
    (fun t pair => if inRanges pair.2 targets.ranges then t.insert pair.1 pair.1 else t) targets

/-- The set, insensitive to case if that is asked for. -/
def foldIf (insensitive : Bool) (s : CharSet) : CharSet := if insensitive then s.folded else s

/-! ## Properties of characters -/

/-- The decimal digits of all scripts. -/
def digit : CharSet := ofRanges digitRanges

def word : CharSet := ((ofRanges alphabeticRanges).union digit).union (ofRanges joiningRanges)

def space : CharSet := ofRanges Text.blankRanges

end CharSet

/-- Whether a character has the property `Alphabetic`. -/
def isAlphabetic (c : Char) : Bool := inRanges c.toNat alphabeticRanges

/-- Whether a character is a letter or a number of some script. -/
def isAlphanumeric (c : Char) : Bool :=
  isAlphabetic c || inRanges c.toNat digitRanges || inRanges c.toNat otherNumberRanges

def isWordChar (c : Char) : Bool := CharSet.word.contains c

end Pattern
end Inlay
