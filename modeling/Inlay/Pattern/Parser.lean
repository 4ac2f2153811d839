import Inlay.Pattern.Normal
import Inlay.Text.Search
import Inlay.Word

/-!
Reading the notation of patterns.

The notation has literals, the point, anchors, classes in brackets with ranges, nested classes and
set operations, groups with and without capture, modes, alternatives, and repetitions.  It has
neither look-around nor back-references, and no classes by Unicode property.  A text that is no
pattern reads as nothing, and so does one that is nested too deep.
-/

namespace Inlay
namespace Pattern

/-! ## Levels -/

/-- The greatest number of levels that a pattern may have.  A group, a repetition, a class, a
sequence of two or more items, a choice of two or more and a set operation are one level each. -/
def levelLimit : Nat := 250

/-- The levels of items side by side. -/
def levelsOf (levels : List Nat) : Nat :=
  let deepest := levels.foldl max 0
  if levels.length < 2 then deepest else deepest + 1

/-! ## Spaces and comments -/

/-- The text behind spaces and comments.  A comment goes up to the end of its line. -/
def skipBlank : Bool → List Char → List Char
  | _, [] => []
  | true, c :: cs => if c = '\n' then skipBlank false cs else skipBlank true cs
  | false, c :: cs =>
    if Text.isBlank c then skipBlank false cs
    else if c = '#' then skipBlank true cs
    else c :: cs

/-- The text behind spaces and comments, if the modes ignore them. -/
def skip (m : Modes) (cs : List Char) : List Char :=
  if m.ignoreSpace then skipBlank false cs else cs

/-! ## Escapes -/

inductive Escape where
  | literal (c : Char)
  | set (s : CharSet)
  | assert (a : Assertion)

def hexValue? (c : Char) : Option Nat :=
  if '0' ≤ c && c ≤ '9' then some (c.toNat - 0x30)
  else if 'a' ≤ c && c ≤ 'f' then some (c.toNat - 0x57)
  else if 'A' ≤ c && c ≤ 'F' then some (c.toNat - 0x37)
  else none

def charOf? (n : Nat) : Option Char := if n.isValidChar then some (Char.ofNat n) else none

/-- A code point of a fixed number of digits. -/
def readHexDigits (m : Modes) : Nat → Nat → List Char → Option (Char × List Char)
  | 0, sum, cs => (charOf? sum).map fun c => (c, cs)
  | count + 1, sum, cs =>
    match cs with
    | [] => none
    | c :: rest =>
      match hexValue? c with
      | some d =>
        -- Spaces may stand between the digits; those behind the last one are not part of it.
        readHexDigits m count (sum * 16 + d) (if count = 0 then rest else skip m rest)
      | none => none

/-- A code point of any number of digits, up to a closing brace. -/
def readHexBraced (sum : Nat) (digits : Nat) : List Char → Option (Char × List Char)
  | [] => none
  | '}' :: rest => if digits = 0 then none else (charOf? sum).map fun c => (c, rest)
  | c :: rest =>
    match hexValue? c with
    | some d => readHexBraced (sum * 16 + d) (digits + 1) rest
    | none => none

/-- A code point behind the letter of its escape, which decides the number of digits. -/
def readHex (m : Modes) (count : Nat) (cs : List Char) : Option (Char × List Char) :=
  match skip m cs with
  | '{' :: rest => readHexBraced 0 0 rest
  | rest => readHexDigits m count 0 rest

/-- The characters that the notation uses for itself. -/
def isMeta (c : Char) : Bool := "\\.+*?()|[]\x7b\x7d^$#&-~".toList.contains c

/-- Whether a character may be escaped without need. -/
def isEscapable (c : Char) : Bool :=
  isMeta c ||
    (c.toNat < 0x80 &&
      !(('0' ≤ c && c ≤ '9') || ('A' ≤ c && c ≤ 'Z') || ('a' ≤ c && c ≤ 'z') || c = '<' || c = '>'))

/-- The words that may stand in braces behind a word boundary. -/
def boundaryWord? (word : List Char) : Option Assertion :=
  if word = "start".toList then some .wordStart
  else if word = "end".toList then some .wordEnd
  else if word = "start-half".toList then some .wordStartHalf
  else if word = "end-half".toList then some .wordEndHalf
  else none

def isBoundaryWordChar (c : Char) : Bool :=
  ('A' ≤ c && c ≤ 'Z') || ('a' ≤ c && c ≤ 'z') || c = '-'

def readBoundary (m : Modes) (cs : List Char) : Option (Escape × List Char) :=
  match cs with
  | '{' :: rest =>
    match skip m rest with
    | [] => none
    | c :: body =>
      if isBoundaryWordChar c then
        let word := (c :: body).takeWhile isBoundaryWordChar
        match skip m ((c :: body).dropWhile isBoundaryWordChar) with
        | '}' :: behind => (boundaryWord? word).map fun a => (.assert a, behind)
        | _ => none
      -- A brace with another content is left for a repetition.
      else some (.assert .wordBoundary, cs)
  | _ => some (.assert .wordBoundary, cs)

/-- An escape behind its backslash. -/
def readEscape (m : Modes) : List Char → Option (Escape × List Char)
  | [] => none
  | c :: rest =>
    if c = 'x' then (readHex m 2 rest).map fun (c, r) => (.literal c, r)
    else if c = 'u' then (readHex m 4 rest).map fun (c, r) => (.literal c, r)
    else if c = 'U' then (readHex m 8 rest).map fun (c, r) => (.literal c, r)
    else if c = 'd' then some (.set .digit, rest)
    else if c = 'D' then some (.set CharSet.digit.complement, rest)
    else if c = 's' then some (.set .space, rest)
    else if c = 'S' then some (.set CharSet.space.complement, rest)
    else if c = 'w' then some (.set .word, rest)
    else if c = 'W' then some (.set CharSet.word.complement, rest)
    else if isEscapable c then some (.literal c, rest)
    else if c = 'a' then some (.literal '\x07', rest)
    else if c = 'f' then some (.literal '\x0C', rest)
    else if c = 't' then some (.literal '\t', rest)
    else if c = 'n' then some (.literal '\n', rest)
    else if c = 'r' then some (.literal '\r', rest)
    else if c = 'v' then some (.literal '\x0B', rest)
    else if c = 'A' then some (.assert .textStart, rest)
    else if c = 'z' then some (.assert .textEnd, rest)
    else if c = 'b' then readBoundary m rest
    else if c = 'B' then some (.assert .noWordBoundary, rest)
    else if c = '<' then some (.assert .wordStart, rest)
    else if c = '>' then some (.assert .wordEnd, rest)
    else none

/-! ## Classes -/

/-- The members of a named class of ASCII characters. -/
def namedClass? (name : List Char) : Option CharSet :=
  let upper := CharSet.range 'A' 'Z'
  let lower := CharSet.range 'a' 'z'
  let digits := CharSet.range '0' '9'
  let alnum := (upper.union lower).union digits
  let table : List (String × CharSet) :=
    [("alnum", alnum), ("alpha", upper.union lower), ("ascii", .range '\x00' '\x7F'),
     ("blank", .ofList ['\t', ' ']),
     ("cntrl", (CharSet.range '\x00' '\x1F').union (.single '\x7F')),
     ("digit", digits), ("graph", .range '!' '~'), ("lower", lower), ("print", .range ' ' '~'),
     ("punct", (CharSet.range '!' '~').diff alnum),
     ("space", (CharSet.range '\t' '\r').union (.single ' ')), ("upper", upper),
     ("word", alnum.union (.single '_')),
     ("xdigit", digits.union ((CharSet.range 'A' 'F').union (.range 'a' 'f')))]
  (table.find? fun entry => entry.1.toList = name).map (·.2)

/-- A named class such as `[:alpha:]` behind its opening bracket. -/
def readNamedClass (m : Modes) : List Char → Option (CharSet × List Char)
  | ':' :: rest =>
    let (negated, body) : Bool × List Char :=
      match rest with
      | '^' :: more => (true, more)
      | more => (false, more)
    match body.dropWhile fun c => c ≠ ':' with
    | ':' :: ']' :: behind =>
      (namedClass? (body.takeWhile fun c => c ≠ ':')).map fun s =>
        ((s.foldIf m.ignoreCase).complementIf negated, behind)
    | _ => none
  | _ => none

inductive SetOperation where
  | inter
  | diff
  | xor

/-- The set of an operation, whose sides are insensitive to case if that is asked for. -/
def SetOperation.apply (op : SetOperation) (insensitive : Bool) (a b : CharSet) : CharSet :=
  let a := a.foldIf insensitive
  let b := b.foldIf insensitive
  match op with
  | .inter => a.inter b
  | .diff => a.diff b
  | .xor => a.xor b

/-- What a class, or one side of an operation in it, holds so far: the set, and the levels of each
item. -/
structure Members where
  set : CharSet := .empty
  levels : List Nat := []

def Members.add (members : Members) (s : CharSet) (levels : Nat) : Members :=
  ⟨members.set.union s, levels :: members.levels⟩

/-- The left side of an operation that waits for its right side. -/
structure PendingSet where
  left : CharSet
  levels : Nat
  operation : SetOperation

/-- The set of a pending operation and its right side, and the levels of both. -/
def closePending (insensitive : Bool) (pending : Option PendingSet) (right : Members) :
    CharSet × Nat :=
  match pending with
  | none => (right.set, levelsOf right.levels)
  | some p =>
    (p.operation.apply insensitive p.left right.set, max p.levels (levelsOf right.levels) + 1)

/-- One member of a class: a character or a set. -/
def readClassItem (m : Modes) : List Char → Option (Escape × List Char)
  | [] => none
  | '\\' :: rest =>
    match readEscape m rest with
    | some (.assert _, _) => none
    | other => other
  | c :: rest => some (.literal c, rest)

def Escape.toSet : Escape → CharSet
  | .literal c => .single c
  | .set s => s
  | .assert _ => .empty

/-- A member or a range of a class. -/
def readClassRange (m : Modes) (cs : List Char) : Option (CharSet × List Char) := do
  let (first, rest) ← readClassItem m cs
  match skip m rest with
  | [] => none
  | '-' :: more =>
    match skip m more with
    -- A hyphen that closes the class or starts a difference makes no range.
    | ']' :: _ => return (first.toSet, skip m rest)
    | '-' :: _ => return (first.toSet, skip m rest)
    | [] => none
    | behind =>
      let (last, rest) ← readClassItem m behind
      match first, last with
      | .literal a, .literal b => if a ≤ b then return (.range a b, rest) else none
      | _, _ => none
  | behind => return (first.toSet, behind)

def readHyphens (m : Modes) (members : Members) : List Char → Members × List Char
  | [] => (members, [])
  | c :: rest =>
    if c = '-' then readHyphens m (members.add (.single '-') 0) rest
    else if m.ignoreSpace && Text.isBlank c then readHyphens m members rest
    else (members, c :: rest)

/-- The start of a class behind its opening bracket: whether it is negated, and the hyphens or the
closing bracket that are members there. -/
def readClassStart (m : Modes) (cs : List Char) : Bool × Members × List Char :=
  let (negated, body) : Bool × List Char :=
    match skip m cs with
    | '^' :: rest => (true, skip m rest)
    | rest => (false, rest)
  match body with
  | ']' :: rest => (negated, Members.add {} (.single ']') 0, skip m rest)
  | _ =>
    let (members, rest) := readHyphens m {} body
    (negated, members, rest)

mutual

/-- A class behind its opening bracket, with its levels. -/
def readClass (m : Modes) : Nat → List Char → Option (CharSet × Nat × List Char)
  | 0, _ => none
  | fuel + 1, cs =>
    let (negated, members, rest) := readClassStart m cs
    (readMembers m fuel none members rest).map fun (s, levels, r) =>
      ((s.foldIf m.ignoreCase).complementIf negated, levels + 1, r)

def readMembers (m : Modes) :
    Nat → Option PendingSet → Members → List Char → Option (CharSet × Nat × List Char)
  | 0, _, _, _ => none
  | fuel + 1, pending, members, cs =>
    match skip m cs with
    | [] => none
    | ']' :: rest =>
      let (s, levels) := closePending m.ignoreCase pending members
      some (s, levels, rest)
    | '[' :: rest =>
      match readNamedClass m rest with
      | some (s, behind) => readMembers m fuel pending (members.add s 0) behind
      | none =>
        match readClass m fuel rest with
        | some (s, levels, behind) => readMembers m fuel pending (members.add s levels) behind
        | none => none
    | '&' :: '&' :: rest =>
      let (s, levels) := closePending m.ignoreCase pending members
      readMembers m fuel (some ⟨s, levels, .inter⟩) {} rest
    | '-' :: '-' :: rest =>
      let (s, levels) := closePending m.ignoreCase pending members
      readMembers m fuel (some ⟨s, levels, .diff⟩) {} rest
    | '~' :: '~' :: rest =>
      let (s, levels) := closePending m.ignoreCase pending members
      readMembers m fuel (some ⟨s, levels, .xor⟩) {} rest
    | rest =>
      match readClassRange m rest with
      | some (s, behind) => readMembers m fuel pending (members.add s 0) behind
      | none => none

end

/-! ## Repetitions -/

/-- A count of repetitions, with spaces around it. -/
def readCount (m : Modes) (cs : List Char) : Option Nat × List Char :=
  let body := Text.trimStart cs
  let digits := body.takeWhile fun c => '0' ≤ c && c ≤ '9'
  let rest := Text.trimStart (skip m (body.dropWhile fun c => '0' ≤ c && c ≤ '9'))
  if digits.isEmpty then (none, rest)
  else
    let n := digits.foldl (fun sum c => sum * 10 + (c.toNat - 0x30)) 0
    (if n < word32Limit then some n else none, rest)

/-- The bounds of a repetition behind its opening brace: `n`, `n,` or `n,m`. -/
def readBounds (m : Modes) (cs : List Char) : Option (Nat × Option Nat × List Char) :=
  match readCount m (skip m cs) with
  | (some least, '}' :: rest) => some (least, some least, rest)
  | (some least, ',' :: rest) =>
    match skip m rest with
    | '}' :: behind => some (least, none, behind)
    | body =>
      match readCount m body with
      | (some most, '}' :: behind) => if least ≤ most then some (least, some most, behind) else none
      | _ => none
  | _ => none

/-- The mark behind a repetition that turns its preference round. -/
def readGreed (m : Modes) : List Char → Bool × List Char
  | '?' :: rest => (m.swapGreed, rest)
  | rest => (!m.swapGreed, rest)

/-! ## Groups -/

def isNameChar (isFirst : Bool) (c : Char) : Bool :=
  if isFirst then c = '_' || isAlphabetic c
  else c = '_' || c = '.' || c = '[' || c = ']' || isAlphanumeric c

/-- The name of a group up to its closing angle. -/
def readName (isFirst : Bool) : List Char → Option (List Char × List Char)
  | [] => none
  | '>' :: rest => if isFirst then none else some ([], rest)
  | c :: rest =>
    if isNameChar isFirst c then (readName false rest).map fun (name, r) => (c :: name, r) else none

/-- Sets or clears the mode of a letter. -/
def Modes.set? (m : Modes) (value : Bool) (letter : Char) : Option Modes :=
  if letter = 'i' then some { m with ignoreCase := value }
  else if letter = 'm' then some { m with multiLine := value }
  else if letter = 's' then some { m with dotAll := value }
  else if letter = 'U' then some { m with swapGreed := value }
  else if letter = 'x' then some { m with ignoreSpace := value }
  else if letter = 'R' then some { m with anyEnding := value }
  else if letter = 'u' && value then some m
  else none

/-- The modes that a group sets, up to the character that ends them.  No letter may occur twice,
and a hyphen occurs at most once and in front of a letter. -/
def readModes (m : Modes) (value : Bool) (seen : List Char) :
    List Char → Option (Modes × Char × List Char)
  | [] => none
  | c :: rest =>
    if c = ':' || c = ')' then
      if seen.head? = some '-' || (c = ')' && seen.isEmpty) then none else some (m, c, rest)
    else if seen.contains c then none
    else if c = '-' then readModes m false (c :: seen) rest
    else
      match m.set? value c with
      | some m => readModes m value (c :: seen) rest
      | none => none

inductive GroupStart where
  /-- The modes change for the rest of the group around. -/
  | modes (m : Modes)
  /-- A group without capture, under its own modes. -/
  | plain (m : Modes)
  /-- A group with capture, possibly under a name. -/
  | capturing (name : Option String)

/-- The start of a group behind its opening parenthesis. -/
def readGroupStart (m : Modes) (cs : List Char) : Option (GroupStart × List Char) :=
  match skip m cs with
  | '?' :: '=' :: _ => none
  | '?' :: '!' :: _ => none
  | '?' :: '<' :: '=' :: _ => none
  | '?' :: '<' :: '!' :: _ => none
  | '?' :: 'P' :: '<' :: rest =>
    (readName true rest).map fun (name, r) => (.capturing (some (String.ofList name)), r)
  | '?' :: '<' :: rest =>
    (readName true rest).map fun (name, r) => (.capturing (some (String.ofList name)), r)
  | '?' :: rest =>
    (readModes m true [] rest).map fun (m, c, r) =>
      (if c = ')' then .modes m else .plain m, r)
  | rest => some (.capturing none, rest)

/-! ## Patterns -/

/-- What is known while a pattern is read: the text that is left, the modes, the number of the
next group and the names so far. -/
structure ParseState where
  rest : List Char
  modes : Modes
  nextGroup : Nat
  names : List (String × Nat)

/-- A pattern that was read, and the levels of its notation. -/
structure Fragment where
  expr : Expr
  levels : Nat

/-- One item of a concatenation: a pattern, or a change of modes, which cannot be repeated. -/
abbrev Item := Option Fragment

/-- The concatenation of items that were read last to first. -/
def concatItems (items : List Item) : Fragment :=
  { expr := Expr.sequence (items.reverse.filterMap fun item => item.map (·.expr))
    levels := levelsOf (items.map fun item => (item.map (·.levels)).getD 0) }

/-- The choice between the concatenations of items, both of which were read last to first. -/
def chooseItems (done : List Fragment) (items : List Item) : Fragment :=
  let branches := concatItems items :: done
  { expr := Expr.alternatives (branches.reverse.map (·.expr))
    levels := levelsOf (branches.map (·.levels)) }

def repeatLast (items : List Item) (least : Nat) (most : Option Nat) (greedy : Bool) :
    Option (List Item) :=
  match items with
  | some e :: before => some (some ⟨.repetition e.expr least most greedy, e.levels + 1⟩ :: before)
  | _ => none

def startAnchor (m : Modes) : Assertion :=
  if m.multiLine then (if m.anyEnding then .lineStartAny else .lineStart) else .textStart

def endAnchor (m : Modes) : Assertion :=
  if m.multiLine then (if m.anyEnding then .lineEndAny else .lineEnd) else .textEnd

def dotSet (m : Modes) : CharSet :=
  if m.dotAll then CharSet.empty.complement
  else if m.anyEnding then (CharSet.ofList ['\n', '\r']).complement
  else (CharSet.single '\n').complement

/-- A character, in either case if the modes say so. -/
def literal (m : Modes) (c : Char) : Expr := .ofSet ((CharSet.single c).foldIf m.ignoreCase)

def ofEscape (m : Modes) : Escape → Expr
  | .literal c => literal m c
  | .set s => .ofSet s
  | .assert a => .assert a

/-- The registered name of a group, unless it is taken. -/
def addName? (names : List (String × Nat)) (name : Option String) (index : Nat) :
    Option (List (String × Nat)) :=
  match name with
  | none => some names
  | some n => if names.any fun entry => entry.1 = n then none else some ((n, index) :: names)

/-- An item that has no levels of its own. -/
def plain (e : Expr) : Item := some ⟨e, 0⟩

mutual

/-- The alternatives of a group up to its closing parenthesis or the end of the text, where
`done` are the alternatives before and `items` the items of this one, both last to first. -/
def readAlternatives (done : List Fragment) (items : List Item) :
    Nat → ParseState → Option (Fragment × ParseState)
  | 0, _ => none
  | fuel + 1, st =>
    match skip st.modes st.rest with
    | [] => some (chooseItems done items, { st with rest := [] })
    | ')' :: rest => some (chooseItems done items, { st with rest := ')' :: rest })
    | '|' :: rest => readAlternatives (concatItems items :: done) [] fuel { st with rest }
    | '(' :: rest =>
      match readGroup fuel { st with rest } with
      | some (item, st) => readAlternatives done (item :: items) fuel st
      | none => none
    | '[' :: rest =>
      match readClass st.modes fuel rest with
      | some (s, levels, rest) =>
        readAlternatives done (some ⟨.ofSet s, levels⟩ :: items) fuel { st with rest }
      | none => none
    | '?' :: rest => readRepetition done items 0 (some 1) rest fuel st
    | '*' :: rest => readRepetition done items 0 none rest fuel st
    | '+' :: rest => readRepetition done items 1 none rest fuel st
    | '{' :: rest =>
      match readBounds st.modes rest with
      | some (least, most, rest) => readRepetition done items least most rest fuel st
      | none => none
    | '\\' :: rest =>
      match readEscape st.modes rest with
      | some (e, rest) =>
        readAlternatives done (plain (ofEscape st.modes e) :: items) fuel { st with rest }
      | none => none
    | '.' :: rest =>
      readAlternatives done (plain (.ofSet (dotSet st.modes)) :: items) fuel { st with rest }
    | '^' :: rest =>
      readAlternatives done (plain (.assert (startAnchor st.modes)) :: items) fuel
        { st with rest }
    | '$' :: rest =>
      readAlternatives done (plain (.assert (endAnchor st.modes)) :: items) fuel { st with rest }
    | c :: rest =>
      readAlternatives done (plain (literal st.modes c) :: items) fuel { st with rest }

/-- Goes on behind a repetition of the last item. -/
def readRepetition (done : List Fragment) (items : List Item) (least : Nat) (most : Option Nat)
    (rest : List Char) : Nat → ParseState → Option (Fragment × ParseState)
  | 0, _ => none
  | fuel + 1, st =>
    let (greedy, rest) := readGreed st.modes rest
    match repeatLast items least most greedy with
    | some items => readAlternatives done items fuel { st with rest }
    | none => none

def readGroup : Nat → ParseState → Option (Item × ParseState)
  | 0, _ => none
  | fuel + 1, st =>
    match readGroupStart st.modes st.rest with
    | none => none
    | some (.modes m, rest) => some (none, { st with modes := m, rest })
    | some (.plain m, rest) =>
      match readAlternatives [] [] fuel { st with modes := m, rest } with
      | some (e, inner) =>
        match inner.rest with
        -- The modes of a group end with it.
        | ')' :: behind =>
          some (some ⟨e.expr, e.levels + 1⟩, { inner with modes := st.modes, rest := behind })
        | _ => none
      | none => none
    | some (.capturing name, rest) =>
      match addName? st.names name st.nextGroup with
      | none => none
      | some names =>
        match readAlternatives [] [] fuel
            { st with rest, names, nextGroup := st.nextGroup + 1 } with
        | some (e, inner) =>
          match inner.rest with
          | ')' :: behind =>
            some (some ⟨.capture st.nextGroup e.expr, e.levels + 1⟩,
              { inner with modes := st.modes, rest := behind })
          | _ => none
        | none => none

end

/-- Reads a pattern under modes. -/
def parse? (modes : Modes) (text : String) : Option Parsed :=
  let cs := text.toList
  match readAlternatives [] [] (3 * cs.length + 3)
      { rest := cs, modes, nextGroup := 1, names := [] } with
  | some (e, st) =>
    if st.rest = [] ∧ e.levels ≤ levelLimit then some ⟨e.expr, st.names⟩ else none
  | none => none

end Pattern
end Inlay
