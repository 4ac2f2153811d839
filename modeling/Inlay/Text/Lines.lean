/-!
Cutting a text at a separator.  `pieces` cuts at every occurrence of a character and drops it,
`chunks` cuts behind every line feed and keeps it, and `lines` drops the line endings of the
chunks.

Nothing is lost: joining the pieces with the separator, and concatenating the chunks, gives the
text back.
-/

namespace Inlay
namespace Text

/-- The parts of a text between the occurrences of `sep`; one part more than there are
occurrences. -/
def pieces (sep : Char) : List Char → List (List Char)
  | [] => [[]]
  | c :: cs =>
    if c = sep then [] :: pieces sep cs
    else match pieces sep cs with
      | [] => [[c]]
      | p :: ps => (c :: p) :: ps

def joinWith (sep : List Char) : List (List Char) → List Char
  | [] => []
  | [p] => p
  | p :: q :: ps => p ++ sep ++ joinWith sep (q :: ps)

/-- The text cut behind every line feed.  No chunk is empty. -/
def chunks : List Char → List (List Char)
  | [] => []
  | c :: cs =>
    if c = '\n' then [c] :: chunks cs
    else match chunks cs with
      | [] => [[c]]
      | l :: ls => (c :: l) :: ls

/-- A chunk without its ending: one line feed, and one carriage return in front of it.  A carriage
return that no line feed follows belongs to the line. -/
def dropEnding (chunk : List Char) : List Char :=
  match chunk.reverse with
  | '\n' :: '\r' :: rest => rest.reverse
  | '\n' :: rest => rest.reverse
  | _ => chunk

/-- The lines of a text without their endings.  A line feed at the very end opens no further
line. -/
def lines (cs : List Char) : List (List Char) := (chunks cs).map dropEnding

theorem pieces_ne_nil (sep : Char) (cs : List Char) : pieces sep cs ≠ [] := by
  cases cs with
  | nil => simp [pieces]
  | cons c cs =>
    simp only [pieces]
    split
    · simp
    · split <;> simp

theorem joinWith_pieces (sep : Char) (cs : List Char) :
    joinWith [sep] (pieces sep cs) = cs := by
  induction cs with
  | nil => rfl
  | cons c cs ih =>
    simp only [pieces]
    by_cases h : c = sep
    · rw [if_pos h]
      cases hp : pieces sep cs with
      | nil => exact absurd hp (pieces_ne_nil sep cs)
      | cons p ps =>
        rw [hp] at ih
        simp [joinWith, ih, h]
    · rw [if_neg h]
      cases hp : pieces sep cs with
      | nil => exact absurd hp (pieces_ne_nil sep cs)
      | cons p ps =>
        rw [hp] at ih
        cases ps with
        | nil => simp only [joinWith] at ih ⊢; rw [ih]
        | cons q qs => simp only [joinWith, List.cons_append] at ih ⊢; rw [ih]

theorem flatten_chunks (cs : List Char) : (chunks cs).flatten = cs := by
  induction cs with
  | nil => rfl
  | cons c cs ih =>
    simp only [chunks]
    by_cases h : c = '\n'
    · rw [if_pos h]; simp [ih]
    · rw [if_neg h]
      cases hc : chunks cs with
      | nil => rw [hc] at ih; simpa using ih
      | cons l ls => rw [hc] at ih; simpa using ih

end Text
end Inlay
