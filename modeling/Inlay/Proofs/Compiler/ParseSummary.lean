import Inlay.Compiler.ErrorLocation
import Inlay.Proofs.Compiler.Expectations
import Inlay.Proofs.Text.Pieces

/-!
# Summaries of messages

`Marked` says which messages are condensed, and at which lines they are cut; with the entries that
`Lists` allows for the lines between the cuts, a summary is determined.

A summary has lines of its message, some of them trimmed and indented, and a line of its own
(`mem_condensed`).  So it has no line `Expected:` when the message has only the one that is
replaced, and then neither it nor an error that carries it is condensed again.
-/

namespace Inlay
namespace ParseSummary

open Text (trim trimStart allBlank)

/-! ## Which messages are condensed -/

section Marks

variable {α : Type}

/-- The first member with a property has this index. -/
def IsFirst (p : α → Prop) (l : List α) (i : Nat) : Prop :=
  (∃ a, l[i]? = some a ∧ p a) ∧ ∀ j < i, ∀ a, l[j]? = some a → ¬ p a

/-- The last member with a property has this index. -/
def IsLast (p : α → Prop) (l : List α) (i : Nat) : Prop :=
  (∃ a, l[i]? = some a ∧ p a) ∧ ∀ j, i < j → ∀ a, l[j]? = some a → ¬ p a

theorem findIdx?_eq_some_iff_isFirst {p : α → Bool} {l : List α} {i : Nat} :
    l.findIdx? p = some i ↔ IsFirst (p · = true) l i := by
  rw [List.findIdx?_eq_some_iff_getElem, IsFirst]
  constructor
  · intro h
    obtain ⟨hi, hp, hbefore⟩ := h
    refine ⟨⟨l[i], List.getElem?_eq_getElem hi, hp⟩, ?_⟩
    intro j hj a ha
    obtain ⟨hlt, rfl⟩ := List.getElem?_eq_some_iff.1 ha
    exact hbefore j hj
  · intro h
    obtain ⟨⟨a, ha, hp⟩, hbefore⟩ := h
    obtain ⟨hi, rfl⟩ := List.getElem?_eq_some_iff.1 ha
    exact ⟨hi, hp, fun j hj => hbefore j hj _ (List.getElem?_eq_getElem (Nat.lt_trans hj hi))⟩

/-- The last member with a property is the first one of the list read from its end. -/
theorem isLast_iff_isFirst_reverse {p : α → Prop} {l : List α} {i : Nat} (hi : i < l.length) :
    IsLast p l i ↔ IsFirst p l.reverse (l.length - 1 - i) := by
  have hget : ∀ j < l.length, l.reverse[l.length - 1 - j]? = l[j]? := by
    intro j hj
    rw [List.getElem?_reverse (by omega)]
    congr 1
    omega
  rw [IsLast, IsFirst, hget i hi]
  refine and_congr_right fun _ => ?_
  constructor
  · intro h j hj a ha
    have hsame := hget (l.length - 1 - j) (by omega)
    rw [show l.length - 1 - (l.length - 1 - j) = j by omega, ha] at hsame
    exact h _ (by omega) a hsame.symm
  · intro h j hj a ha
    have hlt : j < l.length := (List.getElem?_eq_some_iff.1 ha).1
    exact h (l.length - 1 - j) (by omega) a ((hget j hlt).trans ha)

end Marks

/-- The lines between two lines. -/
def between (lines : List (List Char)) (expected found : Nat) : List (List Char) :=
  (lines.take found).drop (expected + 1)

/-- The lines of a message are condensed between these two: the message is long, the first one is
the first line `Expected:`, the second one the last line that starts with `Found:`, and there are
expectations between them. -/
structure Marked (lines : List (List Char)) (expected found : Nat) : Prop where
  long : 8 < lines.length
  first : IsFirst (trim · = "Expected:".toList) lines expected
  last : IsLast ("Found:".toList <+: trimStart ·) lines found
  order : expected < found
  expects : ∃ line ∈ between lines expected found, allBlank line = false

theorem isExpected_iff (line : List Char) :
    isExpected line = true ↔ trim line = "Expected:".toList := by
  rw [isExpected, expectedMark, decide_eq_true_eq]

theorem isFound_iff (line : List Char) :
    isFound line = true ↔ "Found:".toList <+: trimStart line := by
  simp [isFound, foundMark, List.isPrefixOf_iff_prefix]

theorem findIdx?_isExpected {lines : List (List Char)} {expected : Nat} :
    lines.findIdx? isExpected = some expected ↔
      IsFirst (trim · = "Expected:".toList) lines expected := by
  rw [findIdx?_eq_some_iff_isFirst]
  simp only [isExpected_iff]

theorem lastFound?_eq_some_iff {lines : List (List Char)} {found : Nat} :
    lastFound? lines = some found ↔ IsLast ("Found:".toList <+: trimStart ·) lines found := by
  simp only [lastFound?, Option.map_eq_some_iff, findIdx?_eq_some_iff_isFirst, isFound_iff]
  constructor
  · intro h
    obtain ⟨i, hi, rfl⟩ := h
    obtain ⟨a, ha, -⟩ := hi.1
    have hlt : i < lines.length := by
      rw [← List.length_reverse]
      exact (List.getElem?_eq_some_iff.1 ha).1
    refine (isLast_iff_isFirst_reverse (by omega)).2 ?_
    rwa [show lines.length - 1 - (lines.length - 1 - i) = i by omega]
  · intro h
    obtain ⟨a, ha, -⟩ := h.1
    have hlt : found < lines.length := (List.getElem?_eq_some_iff.1 ha).1
    exact ⟨_, (isLast_iff_isFirst_reverse hlt).1 h, by omega⟩

/-! ## The lines of a summary -/

variable {lines entries : List (List Char)}

/-- The lines of a summary: what stands around the expectations, with the entries in their place. -/
def condensed (lines : List (List Char)) (expected found : Nat) (entries : List (List Char)) :
    List (List Char) :=
  lines.take expected ++ ["Expected one of:".toList] ++
    entries.map (fun entry => ' ' :: ' ' :: entry) ++ lines.drop found

theorem listed_expectations (lines : List (List Char)) (expected found : Nat) :
    listed (expectations lines expected found) =
      (ranked (between lines expected found)).take 5 := rfl

theorem expectations_eq_nil_iff {expected found : Nat} :
    expectations lines expected found = [] ↔
      ¬ ∃ line ∈ between lines expected found, allBlank line = false := by
  rw [expectations, ← between, List.filter_eq_nil_iff]
  simp [Text.trim_eq_nil_iff]

theorem marked_iff {expected found : Nat} :
    Marked lines expected found ↔
      shortMessage < lines.length ∧ lines.findIdx? isExpected = some expected ∧
        lastFound? lines = some found ∧ expected < found ∧
          expectations lines expected found ≠ [] := by
  rw [findIdx?_isExpected, lastFound?_eq_some_iff, ne_eq, expectations_eq_nil_iff, not_not]
  constructor
  · intro h
    exact ⟨h.long, h.first, h.last, h.order, h.expects⟩
  · intro h
    obtain ⟨hlong, hfirst, hlast, horder, hexpects⟩ := h
    exact ⟨hlong, hfirst, hlast, horder, hexpects⟩

theorem summary?_eq_some_iff_marked {message summary : String} :
    summary? message = some summary ↔
      ∃ expected found, Marked (Text.lines message.toList) expected found ∧
        summary = String.ofList (Text.joinWith ['\n']
          (condensed (Text.lines message.toList) expected found
            ((ranked (between (Text.lines message.toList) expected found)).take 5))) := by
  simp only [summary?, marked_iff]
  generalize Text.lines message.toList = lines
  constructor
  · intro h
    split at h
    case isTrue => cases h
    case isFalse hlong =>
      split at h
      case h_2 => cases h
      case h_1 expected found hexpected hfound =>
        split at h
        case isTrue => cases h
        case isFalse hcut =>
          simp only [Bool.or_eq_true, decide_eq_true_eq, List.isEmpty_iff, not_or,
            Nat.not_le] at hcut
          refine ⟨expected, found, ⟨Nat.lt_of_not_le hlong, hexpected, hfound, hcut⟩, ?_⟩
          exact (Option.some.inj h).symm
  · intro h
    obtain ⟨expected, found, ⟨hlong, hexpected, hfound, horder, hentries⟩, rfl⟩ := h
    rw [if_neg (Nat.not_le.2 hlong), hexpected, hfound]
    simp only [Nat.not_le.2 horder, decide_false, List.isEmpty_eq_false_iff.2 hentries,
      Bool.or_false, Bool.false_eq_true, ite_false, listed_expectations]
    rfl

/-! ## Summaries of summaries -/

theorem notMem_of_countP_le_one {α : Type} {p : α → Bool} {l : List α} {i : Nat} {a : α}
    (hcount : l.countP p ≤ 1) (hget : l[i]? = some a) (ha : p a = true) :
    ∀ b, b ∈ l.take i ∨ b ∈ l.drop (i + 1) → p b = false := by
  obtain ⟨hi, rfl⟩ := List.getElem?_eq_some_iff.1 hget
  have hsplit : l = l.take i ++ l[i] :: l.drop (i + 1) := by
    rw [List.getElem_cons_drop, List.take_append_drop]
  rw [hsplit, List.countP_append, List.countP_cons_of_pos ha] at hcount
  have htake : (l.take i).countP p = 0 := by omega
  have hdrop : (l.drop (i + 1)).countP p = 0 := by omega
  rw [List.countP_eq_zero] at htake hdrop
  intro b hb
  rw [← Bool.not_eq_true]
  exact hb.elim (htake b) (hdrop b)

/-- The lines of a summary are one of its own, and lines of the message other than the first line
`Expected:`, some of them trimmed and indented. -/
theorem mem_condensed {expected found : Nat} {line : List Char} (horder : expected < found)
    (hentries : Lists (between lines expected found) entries)
    (h : line ∈ condensed lines expected found entries) :
    line = "Expected one of:".toList ∨
      ∃ l, (l ∈ lines.take expected ∨ l ∈ lines.drop (expected + 1)) ∧
        (line = l ∨ line = ' ' :: ' ' :: trim l) := by
  rw [condensed, List.mem_append, List.mem_append, List.mem_append, List.mem_singleton] at h
  rcases h with ((h | h) | h) | h
  · exact Or.inr ⟨line, Or.inl h, Or.inl rfl⟩
  · exact Or.inl h
  · obtain ⟨entry, hentry, rfl⟩ := List.mem_map.1 h
    obtain ⟨l, hfind, -, rfl⟩ := hentries.first entry hentry
    have hdrop : l ∈ lines.drop (expected + 1) := by
      have hl := List.mem_of_find?_eq_some hfind
      rw [between, List.drop_take] at hl
      exact List.mem_of_mem_take hl
    exact Or.inr ⟨l, Or.inr hdrop, Or.inr rfl⟩
  · have hdrop : line ∈ lines.drop (expected + 1) :=
      (List.drop_sublist_drop_left lines horder).subset h
    exact Or.inr ⟨line, Or.inr hdrop, Or.inl rfl⟩

theorem trim_indented (cs : List Char) : trim (' ' :: ' ' :: trim cs) = trim cs := by
  have hlead : allBlank [' ', ' '] = true := by decide
  have htail : allBlank [] = true := rfl
  have htrim := Text.trim_surround hlead htail (trim cs)
  rwa [List.append_nil, Text.trim_trim] at htrim

theorem condensed_plain {expected found : Nat} (hlines : ∀ line ∈ lines, '\n' ∉ line)
    (hcount : lines.countP isExpected ≤ 1) (hmarked : Marked lines expected found)
    (hentries : Lists (between lines expected found) entries) :
    ∀ line ∈ condensed lines expected found entries, '\n' ∉ line ∧ isExpected line = false := by
  obtain ⟨mark, hget, hmark⟩ := hmarked.first.1
  have hrest := notMem_of_countP_le_one hcount hget ((isExpected_iff mark).2 hmark)
  have hfeed : ∀ l, l ∈ lines.take expected ∨ l ∈ lines.drop (expected + 1) → '\n' ∉ l :=
    fun l hl => hlines l (hl.elim List.mem_of_mem_take List.mem_of_mem_drop)
  intro line hline
  rcases mem_condensed hmarked.order hentries hline with rfl | ⟨l, hl, rfl | rfl⟩
  · decide
  · exact ⟨hfeed line hl, hrest line hl⟩
  · constructor
    · have htrim : '\n' ∉ trim l := fun h => hfeed l hl (Text.mem_of_mem_trim h)
      simpa using htrim
    · rw [isExpected, trim_indented, ← isExpected]
      exact hrest l hl

theorem summary?_eq_none_of_not_expected {message : String}
    (h : ∀ line ∈ Text.lines message.toList, isExpected line = false) :
    summary? message = none := by
  rw [Option.eq_none_iff_forall_ne_some]
  intro summary hsome
  obtain ⟨expected, found, hmarked, -⟩ := summary?_eq_some_iff_marked.1 hsome
  obtain ⟨line, hget, hline⟩ := hmarked.first.1
  have hno := h line (List.mem_of_getElem? hget)
  rw [(isExpected_iff line).2 hline] at hno
  contradiction

/-- The line `Expected:` of a message is not in its summary. -/
theorem summary?_summary {message summary : String}
    (hcount : (Text.lines message.toList).countP isExpected ≤ 1)
    (h : summary? message = some summary) : summary? summary = none := by
  obtain ⟨expected, found, hmarked, rfl⟩ := summary?_eq_some_iff_marked.1 h
  have hplain := condensed_plain (fun _ => Text.notMem_of_mem_lines) hcount hmarked
    (lists_take_ranked _)
  refine summary?_eq_none_of_not_expected ?_
  intro line hline
  rw [String.toList_ofList] at hline
  -- a line can have lost a carriage return, which its trimmed text does not show
  obtain ⟨part, hpart, htrim⟩ := Text.exists_trim_eq_of_mem_lines hline
  rw [Text.pieces_joinWith (fun part hpart => (hplain part hpart).1) (by simp [condensed])] at hpart
  rw [isExpected, ← htrim, ← isExpected]
  exact (hplain part hpart).2

theorem messageOf_messageOf {message : String} (r : ErrorReporting)
    (hcount : (Text.lines message.toList).countP isExpected ≤ 1) :
    r.messageOf (r.messageOf message) = r.messageOf message := by
  simp only [ErrorReporting.messageOf]
  split
  case isFalse => rfl
  case isTrue =>
    cases hsummary : summary? message with
    | none => rw [Option.getD_none, hsummary, Option.getD_none]
    | some summary =>
      rw [Option.getD_some, summary?_summary hcount hsummary, Option.getD_none]

/-- A message is condensed exactly if it is long and its last line that starts with `Found:` comes
after its first line `Expected:`, with something other than blank lines between them.  The summary
keeps the lines in front of the first one and those from the second one on as they are, and has
`Expected one of:` and the entries between them.  A message with no other line `Expected:` is
condensed once: its summary is not condensed again, and an error that carries the summary is
reported with it. -/
theorem summary?_condenses_once (message : String) :
    ((summary? message).isSome ↔
        ∃ expected found, Marked (Text.lines message.toList) expected found) ∧
      (∀ summary, summary? message = some summary ↔
        ∃ expected found entries, Marked (Text.lines message.toList) expected found ∧
          Lists (between (Text.lines message.toList) expected found) entries ∧
          summary = String.ofList (Text.joinWith ['\n']
            (condensed (Text.lines message.toList) expected found entries))) ∧
      ((Text.lines message.toList).countP (trim · = "Expected:".toList) ≤ 1 →
        (∀ summary, summary? message = some summary → summary? summary = none) ∧
          ∀ (r : ErrorReporting) (e : ParseError) (filename : Option String)
            (located : LocatedError), e.message = message →
              r.outcome e filename = .error (.located located) →
                r.outcome { e with message := located.message } filename =
                  .error (.located located)) := by
  refine ⟨?_, ?_, ?_⟩
  · rw [Option.isSome_iff_exists]
    simp only [summary?_eq_some_iff_marked]
    constructor
    · intro h
      obtain ⟨_, expected, found, hmarked, -⟩ := h
      exact ⟨expected, found, hmarked⟩
    · intro h
      obtain ⟨expected, found, hmarked⟩ := h
      exact ⟨_, expected, found, hmarked, rfl⟩
  · intro summary
    rw [summary?_eq_some_iff_marked]
    constructor
    · intro h
      obtain ⟨expected, found, hmarked, hsummary⟩ := h
      exact ⟨expected, found, _, hmarked, lists_take_ranked _, hsummary⟩
    · intro h
      obtain ⟨expected, found, entries, hmarked, hentries, hsummary⟩ := h
      rw [hentries.unique (lists_take_ranked _)] at hsummary
      exact ⟨expected, found, hmarked, hsummary⟩
  · intro hcount
    refine ⟨fun _ => summary?_summary hcount, ?_⟩
    intro r e filename located hmessage houtcome
    subst hmessage
    have hsame := messageOf_messageOf r hcount
    rw [ErrorReporting.outcome] at houtcome
    split at houtcome
    case isFalse => cases houtcome
    case isTrue hreports =>
      obtain rfl := Failure.located.inj (Except.error.inj houtcome)
      rw [ErrorReporting.outcome, if_pos hreports]
      simp only [ErrorReporting.locate, hsame]

end ParseSummary
end Inlay
