import Inlay.Proofs.Replace.Templates
import Inlay.Text.Search

/-!
# What a replacement means

An author reads a replacement from left to right as pieces: characters, and references to groups
(`reading`).  What a dollar starts depends only on what is behind it (`Starts`).  Bringing the whole
into braces writes the template of each piece in turn (`braced_eq_templates`), and a template is
expanded to what its piece means, whatever stands behind it (`expand_template`).  So no piece is
read together with its neighbours, and the expansion is what the pieces mean
(`expand_braced_reading`).

Two kinds of pieces have no template that keeps their meaning: an angle that is not closed, and a
name that braces cut short or that is a number.  `Piece.IsLegible` leaves them out.
-/

namespace Inlay
namespace Replace

/-! ## Pieces -/

/-- A piece of a replacement as its author reads it. -/
inductive Piece where
  /-- A character that stands for itself, or a dollar that is written twice or starts nothing. -/
  | text (c : Char)
  /-- A dollar in front of an angle that is not closed. -/
  | unclosed
  /-- The whole match. -/
  | whole
  | number (digits : List Char)
  | name (name : List Char)
deriving DecidableEq, Repr

variable {c : Char} {cs digits name rest : List Char} {piece : Piece} {pieces : List Piece}

/-- The piece that a dollar starts, and the text behind it. -/
def afterDollar : List Char → Piece × List Char
  | [] => (.text '$', [])
  | c :: cs =>
    if c = '$' then (.text '$', cs)
    else if c = '&' then (.whole, cs)
    else if isDigit c then (.number (c :: cs.takeWhile isDigit), cs.dropWhile isDigit)
    else if c = '<' then
      match Text.cutAtFirst? '>' cs with
      | some (name, rest) => (.name name, rest)
      | none => (.unclosed, c :: cs)
    else (.text '$', c :: cs)

/-- What a dollar in front of a text starts: a piece, and the text behind the piece. -/
inductive Starts : List Char → Piece → List Char → Prop
  | dollar (rest : List Char) : Starts ('$' :: rest) (.text '$') rest
  | whole (rest : List Char) : Starts ('&' :: rest) .whole rest
  | number {digits rest : List Char} (hne : digits ≠ [])
      (hdigits : ∀ d ∈ digits, isDigit d = true)
      (hrest : ∀ d ∈ rest.head?, isDigit d = false) :
      Starts (digits ++ rest) (.number digits) rest
  | name {name : List Char} (h : '>' ∉ name) (rest : List Char) :
      Starts ('<' :: (name ++ '>' :: rest)) (.name name) rest
  | unclosed {rest : List Char} (h : '>' ∉ rest) : Starts ('<' :: rest) .unclosed ('<' :: rest)
  | lone {cs : List Char}
      (h : ∀ c ∈ cs.head?, c ≠ '$' ∧ c ≠ '&' ∧ isDigit c = false ∧ c ≠ '<') :
      Starts cs (.text '$') cs

theorem starts_digits (h : isDigit c = true) (cs : List Char) :
    Starts (c :: cs) (.number (c :: cs.takeWhile isDigit)) (cs.dropWhile isDigit) := by
  have hdigits : ∀ d ∈ c :: cs.takeWhile isDigit, isDigit d = true := by
    intro d hd
    rcases List.mem_cons.1 hd with rfl | hd
    · exact h
    · exact List.mem_takeWhile_imp hd
  have hrest : ∀ d ∈ (cs.dropWhile isDigit).head?, isDigit d = false := by
    intro d hd
    have hnot := List.head?_dropWhile_not isDigit cs
    rw [Option.mem_def.1 hd] at hnot
    simpa using hnot
  have hstarts := Starts.number (List.cons_ne_nil _ _) hdigits hrest
  rwa [List.cons_append, List.takeWhile_append_dropWhile] at hstarts

theorem starts_afterDollar (cs : List Char) :
    Starts cs (afterDollar cs).1 (afterDollar cs).2 := by
  cases cs with
  | nil => exact .lone fun _ hc => nomatch hc
  | cons c cs =>
    rw [afterDollar]
    split
    case isTrue hc => exact hc ▸ .dollar cs
    case isFalse hdollar =>
      split
      case isTrue hc => exact hc ▸ .whole cs
      case isFalse hwhole =>
        split
        case isTrue hc => exact starts_digits hc cs
        case isFalse hdigit =>
          split
          case isTrue hc =>
            subst hc
            split
            case h_1 name rest hcut =>
              obtain ⟨rfl, hname⟩ := Text.eq_of_cutAtFirst? hcut
              exact .name hname rest
            case h_2 hcut => exact .unclosed (Text.notMem_of_cutAtFirst?_eq_none hcut)
          case isFalse hangle =>
            refine .lone fun d hd => ?_
            obtain rfl : c = d := Option.some.inj hd
            exact ⟨hdollar, hwhole, Bool.of_not_eq_true hdigit, hangle⟩

theorem Starts.length_le (h : Starts cs piece rest) : rest.length ≤ cs.length := by
  cases h with
  | dollar | whole => exact Nat.le_succ _
  | number => exact (List.suffix_append _ _).length_le
  | name =>
    simp only [List.length_cons, List.length_append]
    omega
  | unclosed | lone => exact Nat.le_refl _

theorem Starts.isDigit (h : Starts cs (.number digits) rest) :
    digits ≠ [] ∧ ∀ d ∈ digits, isDigit d = true := by
  cases h with
  | number hne hdigits _ => exact ⟨hne, hdigits⟩

/-- The pieces of a replacement from left to right. -/
def reading : List Char → List Piece
  | [] => []
  | c :: cs =>
    if c = '$' then (afterDollar cs).1 :: reading (afterDollar cs).2 else .text c :: reading cs
termination_by cs => cs.length
decreasing_by
  · have hle := (starts_afterDollar cs).length_le
    simp only [List.length_cons]
    omega
  · simp only [List.length_cons]
    omega

/-- The text that a piece means. -/
def Groups.meaning (groups : Groups) : Piece → List Char
  | .text c => [c]
  | .unclosed => ['$']
  | .whole => (groups.numbered 0).getD []
  | .number digits => (groups.numbered (Nat.ofDigitChars 10 digits 0)).getD []
  | .name name => (groups.named name).getD []

/-- The template of a piece. -/
def Piece.template : Piece → List Char
  | .text c => if c = '$' then ['$', '$'] else [c]
  | .unclosed => ['$']
  | .whole => ['$', '{', '0', '}']
  | .number digits => '$' :: '{' :: (digits ++ ['}'])
  | .name name => '$' :: '{' :: (name ++ ['}'])

/-! ## From a replacement to templates -/

theorem braced_cons (h : c ≠ '$') (cs : List Char) : braced (c :: cs) = c :: braced cs := by
  rw [braced, bracedFrom, if_neg h]
  rfl

theorem braced_dollar (cs : List Char) : braced ('$' :: cs) = bracedFrom .dollar cs := by
  rw [braced, bracedFrom, if_pos rfl]

theorem braced_digit (h : isDigit c = true) (cs : List Char) :
    braced ('$' :: c :: cs) = '$' :: '{' :: c :: bracedFrom .number cs := by
  have hdollar : c ≠ '$' := by
    rintro rfl
    exact absurd h (by decide)
  have hwhole : c ≠ '&' := by
    rintro rfl
    exact absurd h (by decide)
  rw [braced_dollar, bracedFrom, if_neg hdollar, if_neg hwhole, if_pos h]

theorem braced_angle (cs : List Char) :
    braced ('$' :: '<' :: cs) = '$' :: '{' :: bracedFrom .name cs := rfl

/-- A number ends where its digits end. -/
theorem bracedFrom_number (hdigits : ∀ d ∈ digits, isDigit d = true)
    (hrest : ∀ d ∈ rest.head?, isDigit d = false) :
    bracedFrom .number (digits ++ rest) = digits ++ '}' :: braced rest := by
  induction digits with
  | nil =>
    cases rest with
    | nil => rfl
    | cons c cs =>
      have hc : ¬ isDigit c = true := by rw [hrest c rfl]; decide
      rw [List.nil_append, bracedFrom, if_neg hc]
      by_cases hdollar : c = '$'
      · rw [if_pos hdollar, hdollar, braced_dollar]
        rfl
      · rw [if_neg hdollar, braced_cons hdollar]
        rfl
  | cons d digits ih =>
    rw [List.cons_append, bracedFrom, if_pos (hdigits d List.mem_cons_self),
      ih fun e he => hdigits e (List.mem_cons_of_mem d he)]
    rfl

theorem bracedFrom_name_closed (h : '>' ∉ name) (rest : List Char) :
    bracedFrom .name (name ++ '>' :: rest) = name ++ '}' :: braced rest := by
  induction name with
  | nil => rfl
  | cons c name ih =>
    rw [List.mem_cons, not_or] at h
    rw [List.cons_append, bracedFrom, if_neg (Ne.symm h.1), ih h.2]
    rfl

/-- A dollar that starts nothing is doubled. -/
theorem braced_lone (h : ∀ c ∈ cs.head?, c ≠ '$' ∧ c ≠ '&' ∧ isDigit c = false ∧ c ≠ '<') :
    braced ('$' :: cs) = '$' :: '$' :: braced cs := by
  rw [braced_dollar]
  cases cs with
  | nil => rfl
  | cons c cs =>
    obtain ⟨hdollar, hwhole, hdigit, hname⟩ := h c rfl
    have hdigit : ¬ isDigit c = true := by rw [hdigit]; decide
    rw [bracedFrom, if_neg hdollar, if_neg hwhole, if_neg hdigit, if_neg hname,
      braced_cons hdollar]
    rfl

/-- What a dollar starts is brought into braces as the template of the piece, except for an angle
that is not closed. -/
theorem Starts.braced_eq (h : Starts cs piece rest) (hclosed : piece ≠ .unclosed) :
    braced ('$' :: cs) = piece.template ++ braced rest := by
  cases h with
  | dollar | whole => rfl
  | @number digits _ hne hdigits hrest =>
    cases digits with
    | nil => exact absurd rfl hne
    | cons d digits =>
      rw [List.cons_append, braced_digit (hdigits d List.mem_cons_self),
        bracedFrom_number (fun e he => hdigits e (List.mem_cons_of_mem d he)) hrest,
        Piece.template, List.cons_append, List.cons_append, List.append_assoc]
      rfl
  | name h =>
    rw [braced_angle, bracedFrom_name_closed h, Piece.template, List.cons_append,
      List.cons_append, List.append_assoc]
    rfl
  | unclosed => exact absurd rfl hclosed
  | lone h => exact braced_lone h

/-- Bringing a replacement into braces writes the templates of its pieces. -/
theorem braced_eq_templates (cs : List Char) (h : .unclosed ∉ reading cs) :
    braced cs = (reading cs).flatMap Piece.template := by
  fun_induction reading cs with
  | case1 => rfl
  | case2 cs ih =>
    rw [List.mem_cons, not_or] at h
    rw [(starts_afterDollar cs).braced_eq (Ne.symm h.1), ih h.2, List.flatMap_cons]
  | case3 c cs hc ih =>
    rw [List.mem_cons, not_or] at h
    rw [braced_cons hc, ih h.2, List.flatMap_cons, Piece.template, if_neg hc]
    rfl

/-! ## From templates to their meaning -/

/-- The groups of a match.  Their numbers are words of 64 bits, and the name of a group does not
start with a digit. -/
structure Captures extends Groups where
  numbered_of_large : ∀ n, word64Limit ≤ n → numbered n = none
  named_of_digit : ∀ c rest, isDigit c = true → named (c :: rest) = none

/-- A piece that means the same in braces. -/
def Piece.IsLegible : Piece → Prop
  | .text _ => True
  | .unclosed => False
  | .whole => True
  | .number digits => digits ≠ [] ∧ ∀ d ∈ digits, isDigit d = true
  | .name name => '}' ∉ name ∧ groupNumber? name = none

theorem groupNumber?_of_digits (hne : digits ≠ []) (h : ∀ d ∈ digits, isDigit d = true) :
    groupNumber? digits =
      if Nat.ofDigitChars 10 digits 0 < word64Limit then some (Nat.ofDigitChars 10 digits 0)
      else none := by
  have hvalue : digits.foldl (fun sum c => sum * 10 + (c.toNat - 0x30)) 0 =
      Nat.ofDigitChars 10 digits 0 := by
    simp only [Nat.ofDigitChars, Nat.mul_comm]
    rfl
  have hsign : ∀ rest, digits ≠ '+' :: rest := by
    rintro rest rfl
    exact absurd (h '+' List.mem_cons_self) (by decide)
  have hempty : digits.isEmpty = false := by
    rw [List.isEmpty_eq_false_iff]
    exact hne
  have hall : digits.all isDigit = true := List.all_eq_true.2 h
  unfold groupNumber?
  split
  case h_1 rest => exact absurd rfl (hsign rest)
  case h_2 =>
    dsimp only
    rw [hempty, hall, hvalue]
    rfl

/-- A number that is too large for a word is taken for a name, and neither it nor this name has a
group. -/
theorem resolve_of_digits (captures : Captures) (hne : digits ≠ [])
    (h : ∀ d ∈ digits, isDigit d = true) :
    captures.resolve (.ofName digits) = captures.meaning (.number digits) := by
  rw [Reference.ofName, groupNumber?_of_digits hne h]
  by_cases hfits : Nat.ofDigitChars 10 digits 0 < word64Limit
  · rw [if_pos hfits]
    rfl
  · rw [if_neg hfits]
    cases digits with
    | nil => exact absurd rfl hne
    | cons d digits =>
      have hnamed := captures.named_of_digit d digits (h d List.mem_cons_self)
      have hnumbered := captures.numbered_of_large _ (Nat.not_lt.1 hfits)
      show (captures.named (d :: digits)).getD [] = (captures.numbered _).getD []
      rw [hnamed, hnumbered]

theorem expand_text (groups : Groups) (c : Char) (rest : List Char) :
    expand groups ((Piece.text c).template ++ rest) = c :: expand groups rest := by
  by_cases hc : c = '$'
  · subst hc
    exact expand_dollars groups rest
  · rw [Piece.template, if_neg hc]
    exact expand_cons groups hc rest

/-- A template is expanded to the meaning of its piece, whatever stands behind it. -/
theorem expand_template (captures : Captures) (h : piece.IsLegible) (rest : List Char) :
    expand captures.toGroups (piece.template ++ rest) =
      captures.meaning piece ++ expand captures.toGroups rest := by
  cases piece with
  | text c => exact expand_text captures.toGroups c rest
  | unclosed => exact absurd h id
  | whole => exact expand_braces captures.toGroups (show '}' ∉ ['0'] by decide) rest
  | number digits =>
    have hbrace : '}' ∉ digits := fun hmem => absurd (h.2 _ hmem) (by decide)
    rw [Piece.template, List.cons_append, List.cons_append, List.append_assoc,
      ← resolve_of_digits captures h.1 h.2]
    exact expand_braces captures.toGroups hbrace rest
  | name name =>
    have hname : captures.resolve (.ofName name) = captures.meaning (.name name) := by
      rw [Reference.ofName, h.2]
      rfl
    rw [Piece.template, List.cons_append, List.cons_append, List.append_assoc, ← hname]
    exact expand_braces captures.toGroups h.1 rest

theorem expand_templates (captures : Captures) (h : ∀ piece ∈ pieces, piece.IsLegible) :
    expand captures.toGroups (pieces.flatMap Piece.template) =
      pieces.flatMap captures.meaning := by
  induction pieces with
  | nil => rfl
  | cons piece pieces ih =>
    rw [List.flatMap_cons, List.flatMap_cons, expand_template captures (h _ List.mem_cons_self),
      ih fun p hp => h p (List.mem_cons_of_mem _ hp)]

theorem isDigit_of_mem_reading (h : .number digits ∈ reading cs) :
    digits ≠ [] ∧ ∀ d ∈ digits, isDigit d = true := by
  fun_induction reading cs with
  | case1 => cases h
  | case2 cs ih =>
    rcases List.mem_cons.1 h with hfirst | hrest
    · exact (hfirst ▸ starts_afterDollar cs).isDigit
    · exact ih hrest
  | case3 c cs hc ih =>
    rcases List.mem_cons.1 h with hfirst | hrest
    · cases hfirst
    · exact ih hrest

/-- A replacement whose angles are closed, and whose names are no numbers and hold no closing brace,
is expanded to what its pieces mean. -/
theorem expand_braced_reading (captures : Captures) (cs : List Char)
    (hclosed : .unclosed ∉ reading cs)
    (hnames : ∀ name, .name name ∈ reading cs → '}' ∉ name ∧ groupNumber? name = none) :
    expand captures.toGroups (braced cs) = (reading cs).flatMap captures.meaning := by
  have hlegible : ∀ piece ∈ reading cs, piece.IsLegible := by
    intro piece hpiece
    cases piece with
    | text c => exact trivial
    | unclosed => exact absurd hpiece hclosed
    | whole => exact trivial
    | number digits => exact isDigit_of_mem_reading hpiece
    | name name => exact hnames name hpiece
  rw [braced_eq_templates cs hclosed, expand_templates captures hlegible]

/-- The match `ab` with the group 1, which is `a`, and the group `w`, which is `b`. -/
def twoLetters : Captures where
  numbered := fun n => if n = 0 then some ['a', 'b'] else if n = 1 then some ['a'] else none
  named := fun name => if name = ['w'] then some ['b'] else none
  numbered_of_large := by
    intro n hn
    have hpos : 1 < word64Limit := by decide
    rw [if_neg (by omega), if_neg (by omega)]
  named_of_digit := by
    intro c rest hc
    refine if_neg ?_
    intro heq
    obtain ⟨rfl, -⟩ := List.cons.inj heq
    exact absurd hc (by decide)

theorem reading_mixed :
    reading "$1a$$1$&$<w>$2$x$".toList =
      [.number ['1'], .text 'a', .text '$', .text '1', .whole, .name ['w'], .number ['2'],
        .text '$', .text 'x', .text '$'] := by
  simp [reading, afterDollar, Text.cutAtFirst?, isDigit]

theorem expand_braced_reading_mixed :
    .unclosed ∉ reading "$1a$$1$&$<w>$2$x$".toList ∧
      .name ['w'] ∈ reading "$1a$$1$&$<w>$2$x$".toList ∧
      expand twoLetters.toGroups (braced "$1a$$1$&$<w>$2$x$".toList) = "aa$1abb$x$".toList := by
  have hclosed : .unclosed ∉ reading "$1a$$1$&$<w>$2$x$".toList := by
    rw [reading_mixed]
    decide
  have hnames : ∀ name, .name name ∈ reading "$1a$$1$&$<w>$2$x$".toList →
      '}' ∉ name ∧ groupNumber? name = none := by
    intro name hname
    rw [reading_mixed] at hname
    obtain rfl : name = ['w'] := by simpa using hname
    decide
  refine ⟨hclosed, ?_, ?_⟩
  · rw [reading_mixed]
    decide
  · rw [expand_braced_reading twoLetters _ hclosed hnames, reading_mixed]
    decide

end Replace
end Inlay
