/-!
The first occurrence of one text in another.

`cutAt? needle hay` gives what stands before and behind the leftmost occurrence; the empty text
occurs at the front of every text.
-/

namespace Inlay
namespace Text

/-- What follows `front` in a text that starts with it. -/
def dropFront? : List Char → List Char → Option (List Char)
  | [], cs => some cs
  | _ :: _, [] => none
  | f :: fs, c :: cs => if f = c then dropFront? fs cs else none

/-- The text before and the text behind the leftmost occurrence of `needle`. -/
def cutAt? (needle : List Char) : List Char → Option (List Char × List Char)
  | [] => if needle = [] then some ([], []) else none
  | c :: cs =>
    match dropFront? needle (c :: cs) with
    | some behind => some ([], behind)
    | none => (cutAt? needle cs).map fun (before, behind) => (c :: before, behind)

/-- Puts `new` in place of the leftmost occurrence of `old`. -/
def replaceFirst (old new cs : List Char) : List Char :=
  match cutAt? old cs with
  | some (before, behind) => before ++ new ++ behind
  | none => cs

/-- The text before and the text behind the last occurrence of a character. -/
def cutAtLast? (sep : Char) : List Char → Option (List Char × List Char)
  | [] => none
  | c :: cs =>
    match cutAtLast? sep cs with
    | some (before, behind) => some (c :: before, behind)
    | none => if c = sep then some ([], cs) else none

/-- The text before and the text behind the first occurrence of a character. -/
def cutAtFirst? (sep : Char) : List Char → Option (List Char × List Char)
  | [] => none
  | c :: cs =>
    if c = sep then some ([], cs)
    else (cutAtFirst? sep cs).map fun (before, behind) => (c :: before, behind)

/-- Dropping a front gives exactly the texts that start with it. -/
theorem dropFront?_eq_some_iff {front cs behind : List Char} :
    dropFront? front cs = some behind ↔ cs = front ++ behind := by
  induction front generalizing cs with
  | nil => simp [dropFront?, eq_comm]
  | cons f fs ih =>
    cases cs with
    | nil => simp [dropFront?]
    | cons c cs =>
      by_cases h : f = c
      · subst h; simp [dropFront?, ih]
      · simp [dropFront?, h, Ne.symm h]

/-- What is in front of the first occurrence of a character does not hold it. -/
theorem eq_of_cutAtFirst? {sep : Char} {cs before behind : List Char}
    (h : cutAtFirst? sep cs = some (before, behind)) :
    cs = before ++ sep :: behind ∧ sep ∉ before := by
  induction cs generalizing before with
  | nil => cases h
  | cons c cs ih =>
    rw [cutAtFirst?] at h
    split at h
    case isTrue hc =>
      obtain ⟨rfl, rfl⟩ := Prod.mk.inj (Option.some.inj h)
      exact ⟨congrArg (· :: cs) hc, List.not_mem_nil⟩
    case isFalse hc =>
      obtain ⟨⟨front, back⟩, hcut, heq⟩ := Option.map_eq_some_iff.1 h
      obtain ⟨rfl, rfl⟩ := Prod.mk.inj heq
      obtain ⟨rfl, hfront⟩ := ih hcut
      exact ⟨rfl, List.not_mem_cons_of_ne_of_not_mem (Ne.symm hc) hfront⟩

theorem notMem_of_cutAtFirst?_eq_none {sep : Char} {cs : List Char}
    (h : cutAtFirst? sep cs = none) : sep ∉ cs := by
  induction cs with
  | nil => exact List.not_mem_nil
  | cons c cs ih =>
    rw [cutAtFirst?] at h
    split at h
    case isTrue => cases h
    case isFalse hc =>
      exact List.not_mem_cons_of_ne_of_not_mem (Ne.symm hc) (ih (Option.map_eq_none_iff.1 h))

theorem eq_of_cutAt? {needle cs before behind : List Char}
    (h : cutAt? needle cs = some (before, behind)) : cs = before ++ needle ++ behind := by
  induction cs generalizing before with
  | nil =>
    simp only [cutAt?] at h
    split at h
    · rename_i hn; subst hn; simp at h; obtain ⟨rfl, rfl⟩ := h; rfl
    · simp at h
  | cons c cs ih =>
    simp only [cutAt?] at h
    split at h
    · rename_i rest hd
      simp only [Option.some.injEq, Prod.mk.injEq] at h
      obtain ⟨rfl, rfl⟩ := h
      simpa using dropFront?_eq_some_iff.1 hd
    · obtain ⟨⟨b, r⟩, hb, he⟩ := Option.map_eq_some_iff.1 h
      simp only [Prod.mk.injEq] at he
      obtain ⟨rfl, rfl⟩ := he
      rw [ih hb]; simp

end Text
end Inlay
