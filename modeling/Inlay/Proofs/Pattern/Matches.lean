import Inlay.Pattern.Engine
import Mathlib.Data.List.Basic
import Mathlib.Order.Nat

/-!
# The matches of a pattern

The threads of a search only move towards the end of the text, so a match lies between the place
where the search starts and that end (`between_of_find?`).  Each match ends behind the one before
it, for an empty match directly behind another one is passed over (`lt_stop_of_findNext?`).  Hence
the limit of `allMatches` is never what ends the list: it holds one match after the other until no
match follows (`successive_allMatches`).  So patterns are an engine that keeps the order of matches
(`keepsOrder_engine`).
-/

namespace Inlay
namespace Pattern

variable {p : Program} {text : Array Char} {lo place limit : Nat} {last : Option Nat}
variable {m : Match} {ms : List Match}

/-! ## Where a match lies -/

theorem place_of_mem_next {t u : Thread} {behind : List Thread} (h : t.next p text = some behind)
    (hu : u ∈ behind) (ht : t.place ≤ text.size) : t.place ≤ u.place ∧ u.place ≤ text.size := by
  unfold Thread.next at h
  split at h
  case h_1 s next _ =>
    split at h
    case h_1 c hc =>
      obtain ⟨hlt, -⟩ := Array.getElem?_eq_some_iff.1 hc
      cases h
      split at hu
      · obtain rfl := List.mem_singleton.1 hu
        exact ⟨Nat.le_succ _, hlt⟩
      · cases hu
    case h_2 => cases h; cases hu
  case h_2 first second _ =>
    cases h
    obtain rfl | hu := List.mem_cons.1 hu
    · exact ⟨le_rfl, ht⟩
    · obtain rfl := List.mem_singleton.1 hu
      exact ⟨le_rfl, ht⟩
  case h_3 slot next _ =>
    cases h
    obtain rfl := List.mem_singleton.1 hu
    exact ⟨le_rfl, ht⟩
  case h_4 a next _ =>
    cases h
    split at hu
    · obtain rfl := List.mem_singleton.1 hu
      exact ⟨le_rfl, ht⟩
    · cases hu
  case h_5 => cases h
  case h_6 => cases h; cases hu

/-- What holds of the places of all threads holds of the one that accepts. -/
theorem place_of_explore {fuel : Nat} {threads : List Thread} {visited : Visited} {t : Thread}
    (hthreads : ∀ u ∈ threads, lo ≤ u.place ∧ u.place ≤ text.size)
    (h : (explore p text fuel threads visited).1 = some t) :
    lo ≤ t.place ∧ t.place ≤ text.size := by
  -- Threads behind the first one take its place in the list, so the list varies in the induction.
  induction fuel generalizing threads visited with
  | zero => cases h
  | succ fuel ih =>
    cases threads with
    | nil => cases h
    | cons u rest =>
      obtain ⟨hu, hrest⟩ := List.forall_mem_cons.1 hthreads
      rw [explore] at h
      split at h
      case isTrue => exact ih hrest h
      case isFalse =>
        split at h
        case h_1 => cases h; exact hu
        case h_2 behind hnext =>
          refine ih (List.forall_mem_append.2 ⟨fun v hv => ?_, hrest⟩) h
          have hv := place_of_mem_next hnext hv hu.2
          exact ⟨hu.1.trans hv.1, hv.2⟩

theorem between_of_findFrom {visited : Visited} {count : Nat}
    (hcount : place + count ≤ text.size + 1)
    (h : findFrom p text visited place count = some m) :
    Regex.Between m.start m.stop place text.size := by
  induction count generalizing visited place with
  | zero => cases h
  | succ count ih =>
    rw [findFrom] at h
    split at h
    case h_1 t _ hexplore =>
      cases h
      have hstart : place ≤ text.size := by omega
      have hplace := place_of_explore (List.forall_mem_singleton.2 ⟨le_rfl, hstart⟩)
        (congrArg Prod.fst hexplore)
      exact ⟨le_rfl, hplace.1, hplace.2⟩
    case h_2 => exact (ih (by omega) h).mono (Nat.le_succ place)

theorem between_of_find? (h : find? p text place = some m) :
    Regex.Between m.start m.stop place text.size := by
  by_cases hplace : place ≤ text.size + 1
  · exact between_of_findFrom (by omega) h
  · have hcount : text.size + 1 - place = 0 := by omega
    rw [find?, hcount] at h
    cases h

/-! ## The next match -/

theorem between_of_findNext? (h : findNext? p text last place = some m) :
    Regex.Between m.start m.stop place text.size := by
  rw [findNext?] at h
  split at h
  case h_1 n hfind =>
    split at h
    · exact (between_of_find? h).mono (Nat.le_succ place)
    · cases h
      exact between_of_find? hfind
  case h_2 => cases h

/-- A match behind one that ends at a place ends behind that place. -/
theorem lt_stop_of_findNext? (h : findNext? p text (some place) place = some m) :
    place < m.stop := by
  rw [findNext?] at h
  split at h
  case h_1 n hfind =>
    split at h
    case isTrue =>
      have hbetween := between_of_find? h
      exact lt_of_lt_of_le (Nat.lt_of_succ_le hbetween.lo_le) hbetween.start_le
    case isFalse hnew =>
      cases h
      -- A match that ends at `place` also starts there, so it is the one that does not count.
      obtain ⟨hlo, hstart, -⟩ := between_of_find? hfind
      have hle := hlo.trans hstart
      refine lt_of_le_of_ne hle fun hstop => hnew ⟨?_, congrArg some hstop.symm⟩
      omega
  case h_2 => cases h

/-! ## All matches -/

/-- One match after the other, from a place on, until no match follows. -/
inductive Successive (p : Program) (text : Array Char) : Option Nat → Nat → List Match → Prop
  | done {last : Option Nat} {place : Nat} (h : findNext? p text last place = none) :
    Successive p text last place []
  | found {last : Option Nat} {place : Nat} {m : Match} {ms : List Match}
    (h : findNext? p text last place = some m) (hms : Successive p text (some m.stop) m.stop ms) :
    Successive p text last place (m :: ms)

theorem Successive.inOrder (h : Successive p text last place ms) :
    Regex.InOrder text.size place (ms.map (Match.withGroups p)) := by
  induction h with
  | done => exact .nil
  | found h _ ih => exact .cons (between_of_findNext? h) ih

/-- A limit above the number of places that are left is enough: each match takes at least one. -/
theorem successive_matchesFrom (hlimit : text.size < place + limit) (hplace : place ≤ text.size) :
    Successive p text (some place) place (matchesFrom p text (some place) place limit) := by
  induction limit generalizing place with
  | zero => omega
  | succ limit ih =>
    rw [matchesFrom]
    split
    case h_1 m h =>
      have hstop := lt_stop_of_findNext? h
      exact .found h (ih (by omega) (between_of_findNext? h).stop_le)
    case h_2 h => exact .done h

theorem successive_allMatches (p : Program) (text : Array Char) :
    Successive p text none 0 (allMatches p text) := by
  rw [allMatches, matchesFrom]
  split
  case h_1 m h =>
    exact .found h (successive_matchesFrom (by omega) (between_of_findNext? h).stop_le)
  case h_2 h => exact .done h

theorem keepsOrder_engine : engine.KeepsOrder :=
  fun p text => (successive_allMatches p text).inOrder

/-- The program of the pattern that is one letter. -/
def letterProgram : Program := ⟨#[.accept, .step (.single 'a') 0], 1, []⟩

theorem compile_letter : engine.compile {} "a" = .ok letterProgram := by
  have hparse : parse? {} "a" = some ⟨.literal ['a'], []⟩ := rfl
  have hfits : (Expr.literal ['a']).fits = true := by decide +kernel
  show (Program.ofText {} "a").mapError PatternError.message = .ok letterProgram
  rw [Program.ofText, hparse]
  simp only [hfits, if_true]
  rfl

end Pattern
end Inlay
