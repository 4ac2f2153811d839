import Inlay.Proofs.Outcome
import Inlay.Proofs.Text.Lines
import Inlay.SourceMap.Mappings

/-!
# Mappings are decoded from the left

What a text of mappings decodes to, or why it does not, is settled piece by piece: whatever follows
behind a separator adds segments or an error of its own, but it changes nothing of what stands
before it (`decode_stable`).  The error of a text is therefore that of its first piece that cannot
be decoded.

The cursor is what a piece depends on besides its own digits, and it is left by the pieces before.
So each lemma about a longer text names the cursor with which the rest of it goes on: behind a
semicolon with the next line (`exists_decodeLines_append`), and behind a comma with the line that
has been begun (`exists_decodeLines_comma`).
-/

namespace Inlay

/-- The last piece of a text and the first one of what follows it are one piece of both. -/
theorem Text.exists_pieces_append (sep : Char) (a : List Char) :
    ∃ front last, pieces sep a = front ++ [last] ∧ ∀ b first back, pieces sep b = first :: back →
      pieces sep (a ++ b) = front ++ (last ++ first) :: back := by
  induction a with
  | nil => exact ⟨[], [], rfl, fun b first back hb => hb⟩
  | cons c a ih =>
    obtain ⟨front, last, ha, hab⟩ := ih
    by_cases hc : c = sep
    · refine ⟨[] :: front, last, ?_, fun b first back hb => ?_⟩
      · rw [pieces, if_pos hc, ha, List.cons_append]
      · rw [List.cons_append, pieces, if_pos hc, hab b first back hb, List.cons_append]
    · cases front with
      | nil =>
        refine ⟨[], c :: last, ?_, fun b first back hb => ?_⟩
        · rw [pieces, if_neg hc, ha]
          rfl
        · rw [List.cons_append, pieces, if_neg hc, hab b first back hb]
          rfl
      | cons piece front =>
        refine ⟨(c :: piece) :: front, last, ?_, fun b first back hb => ?_⟩
        · rw [pieces, if_neg hc, ha]
          rfl
        · rw [List.cons_append, pieces, if_neg hc, hab b first back hb]
          rfl

namespace Mappings

variable {c : Cursor} {cause : MapError} {m : Mappings} {cs : List Char}

/-! ## Pieces and lines -/

theorem decodePieces_append (c : Cursor) (front back : List (List Char)) :
    decodePieces c (front ++ back) =
      decodePieces c front >>= fun (segments, next) =>
        decodePieces next back >>= fun (more, last) => .ok (segments ++ more, last) := by
  induction front generalizing c with
  | nil =>
    show decodePieces c back = decodePieces c back >>= _
    cases decodePieces c back <;> rfl
  | cons piece front ih =>
    cases piece with
    | nil => exact ih c
    | cons d ds =>
      rw [List.cons_append, decodePieces, decodePieces, bind_assoc]
      refine congrArg _ (funext fun values => ?_)
      rw [bind_assoc]
      refine congrArg _ (funext fun s => ?_)
      rw [ih, bind_assoc, bind_assoc]
      refine congrArg _ (funext fun ⟨segments, next⟩ => ?_)
      rw [bind_assoc]
      rfl

theorem decodeLines_append_of_error {front : List (List Char)}
    (h : decodeLines c front = .error cause) (back : List (List Char)) :
    decodeLines c (front ++ back) = .error cause := by
  induction front generalizing c with
  | nil => cases h
  | cons line front ih =>
    rw [decodeLines, bind_eq_error_iff] at h
    rw [List.cons_append, decodeLines, bind_eq_error_iff]
    rcases h with h | ⟨result, hline, h⟩
    · exact Or.inl h
    · refine Or.inr ⟨result, hline, ?_⟩
      rcases bind_eq_error_iff.1 h with h | ⟨_, -, h⟩
      · exact bind_eq_error_iff.2 (Or.inl (ih h))
      · cases h

/-- Lines that decode leave a cursor with which all further lines go on. -/
theorem exists_decodeLines_append {front : List (List Char)} (h : decodeLines c front = .ok m) :
    ∃ next, ∀ back,
      decodeLines c (front ++ back) = decodeLines next back >>= fun rest => .ok (m ++ rest) := by
  induction front generalizing c m with
  | nil =>
    obtain rfl : [] = m := Except.ok.inj h
    refine ⟨c, fun back => ?_⟩
    rw [List.nil_append]
    cases decodeLines c back <;> rfl
  | cons line front ih =>
    rw [decodeLines, bind_eq_ok_iff] at h
    obtain ⟨⟨segments, last⟩, hline, h⟩ := h
    obtain ⟨others, hfront, h⟩ := bind_eq_ok_iff.1 h
    obtain rfl : segments :: others = m := Except.ok.inj h
    obtain ⟨next, hnext⟩ := ih hfront
    refine ⟨next, fun back => ?_⟩
    rw [List.cons_append, decodeLines, hline, ok_bind]
    show decodeLines last (front ++ back) >>= _ = _
    rw [hnext back, bind_assoc]
    rfl

theorem decodeLines_singleton (c : Cursor) (line : List Char) :
    decodeLines c [line] =
      decodePieces c.newLine (Text.pieces ',' line) >>= fun (segments, _) => .ok [segments] := rfl

/-- A line that goes on behind a comma is decoded as far as it was, and then its rest. -/
theorem decodeLines_comma (c : Cursor) (line first : List Char) (back : List (List Char)) :
    decodeLines c ((line ++ ',' :: first) :: back) =
      decodePieces c.newLine (Text.pieces ',' line) >>= fun (segments, next) =>
        decodePieces next (Text.pieces ',' first) >>= fun (more, last) =>
          decodeLines last back >>= fun rest => .ok ((segments ++ more) :: rest) := by
  rw [decodeLines, Text.pieces_append_cons, decodePieces_append, bind_assoc]
  refine congrArg _ (funext fun ⟨segments, next⟩ => ?_)
  rw [bind_assoc]
  rfl

theorem decodeLines_comma_of_error {front : List (List Char)} {line : List Char}
    (h : decodeLines c (front ++ [line]) = .error cause) (first : List Char)
    (back : List (List Char)) :
    decodeLines c (front ++ (line ++ ',' :: first) :: back) = .error cause := by
  cases hfront : decodeLines c front with
  | error other =>
    rw [decodeLines_append_of_error hfront] at h ⊢
    exact h
  | ok m =>
    obtain ⟨next, hnext⟩ := exists_decodeLines_append hfront
    rw [hnext, decodeLines_singleton, bind_eq_error_iff, bind_eq_error_iff] at h
    rw [hnext, decodeLines_comma, bind_eq_error_iff, bind_eq_error_iff]
    rcases h with (h | ⟨_, -, h⟩) | ⟨_, -, h⟩
    · exact Or.inl (Or.inl h)
    · cases h
    · cases h

/-- Behind a comma the last line of what has been decoded goes on, and further lines follow. -/
theorem exists_decodeLines_comma {front : List (List Char)} {line : List Char}
    (h : decodeLines c (front ++ [line]) = .ok m) :
    ∃ init last next, m = init ++ [last] ∧ ∀ first back,
      decodeLines c (front ++ (line ++ ',' :: first) :: back) =
        decodePieces next (Text.pieces ',' first) >>= fun (more, behind) =>
          decodeLines behind back >>= fun rest => .ok (init ++ (last ++ more) :: rest) := by
  cases hfront : decodeLines c front with
  | error other =>
    rw [decodeLines_append_of_error hfront] at h
    cases h
  | ok init =>
    obtain ⟨middle, hmiddle⟩ := exists_decodeLines_append hfront
    rw [hmiddle, decodeLines_singleton, bind_eq_ok_iff] at h
    obtain ⟨lines, hlines, h⟩ := h
    obtain ⟨⟨last, next⟩, hline, hlast⟩ := bind_eq_ok_iff.1 hlines
    obtain rfl : [last] = lines := Except.ok.inj hlast
    obtain rfl : init ++ [last] = m := Except.ok.inj h
    refine ⟨init, last, next, rfl, fun first back => ?_⟩
    rw [hmiddle, decodeLines_comma, hline, ok_bind, bind_assoc]
    refine congrArg _ (funext fun ⟨more, behind⟩ => ?_)
    rw [bind_assoc]
    rfl

/-! ## Texts -/

/-- What stands between two pieces. -/
def IsSeparator (c : Char) : Prop := c = ';' ∨ c = ','

theorem decode_ofList (cs : List Char) :
    decode (String.ofList cs) = decodeLines .start (Text.pieces ';' cs) := by
  rw [decode, String.toList_ofList]

theorem exists_pieces_comma (cs : List Char) :
    ∃ front line, Text.pieces ';' cs = front ++ [line] ∧ ∀ rest, ∃ first back,
      Text.pieces ';' rest = first :: back ∧
        Text.pieces ';' (cs ++ ',' :: rest) = front ++ (line ++ ',' :: first) :: back := by
  obtain ⟨front, line, hcs, hboth⟩ := Text.exists_pieces_append ';' cs
  refine ⟨front, line, hcs, fun rest => ?_⟩
  obtain ⟨first, back, hrest⟩ := List.exists_cons_of_ne_nil (Text.pieces_ne_nil ';' rest)
  have hcomma : Text.pieces ';' (',' :: rest) = (',' :: first) :: back := by
    rw [Text.pieces, if_neg (by decide), hrest]
  exact ⟨first, back, hrest, hboth _ _ _ hcomma⟩

theorem decode_append_of_error {sep : Char} (hsep : IsSeparator sep)
    (h : decode (String.ofList cs) = .error cause) (rest : List Char) :
    decode (String.ofList (cs ++ sep :: rest)) = .error cause := by
  rw [decode_ofList] at h ⊢
  rcases hsep with rfl | rfl
  · rw [Text.pieces_append_cons]
    exact decodeLines_append_of_error h _
  · obtain ⟨front, line, hcs, hrest⟩ := exists_pieces_comma cs
    obtain ⟨first, back, -, hboth⟩ := hrest rest
    rw [hboth]
    exact decodeLines_comma_of_error (hcs ▸ h) first back

theorem exists_decode_semicolon (h : decode (String.ofList cs) = .ok m) :
    ∃ next, ∀ rest, decode (String.ofList (cs ++ ';' :: rest)) =
      decodeLines next (Text.pieces ';' rest) >>= fun lines => .ok (m ++ lines) := by
  rw [decode_ofList] at h
  obtain ⟨next, hnext⟩ := exists_decodeLines_append h
  refine ⟨next, fun rest => ?_⟩
  rw [decode_ofList, Text.pieces_append_cons, hnext]

theorem exists_decode_comma (h : decode (String.ofList cs) = .ok m) :
    ∃ init last next, m = init ++ [last] ∧ ∀ rest, ∃ first back,
      Text.pieces ';' rest = first :: back ∧
        decode (String.ofList (cs ++ ',' :: rest)) =
          decodePieces next (Text.pieces ',' first) >>= fun (more, behind) =>
            decodeLines behind back >>= fun lines => .ok (init ++ (last ++ more) :: lines) := by
  obtain ⟨front, line, hcs, hrest⟩ := exists_pieces_comma cs
  rw [decode_ofList, hcs] at h
  obtain ⟨init, last, next, rfl, hnext⟩ := exists_decodeLines_comma h
  refine ⟨init, last, next, rfl, fun rest => ?_⟩
  obtain ⟨first, back, hpieces, hboth⟩ := hrest rest
  exact ⟨first, back, hpieces, by rw [decode_ofList, hboth, hnext]⟩

theorem prefix_of_decode_semicolon {rest : List Char} {n : Mappings}
    (h : decode (String.ofList cs) = .ok m)
    (hboth : decode (String.ofList (cs ++ ';' :: rest)) = .ok n) : m <+: n := by
  obtain ⟨next, hnext⟩ := exists_decode_semicolon h
  rw [hnext, bind_eq_ok_iff] at hboth
  obtain ⟨lines, -, hlines⟩ := hboth
  exact ⟨lines, Except.ok.inj hlines⟩

theorem extends_of_decode_comma {rest : List Char} {n : Mappings}
    (h : decode (String.ofList cs) = .ok m)
    (hboth : decode (String.ofList (cs ++ ',' :: rest)) = .ok n) :
    ∃ init last more lines, m = init ++ [last] ∧ n = init ++ (last ++ more) :: lines := by
  obtain ⟨init, last, next, rfl, hnext⟩ := exists_decode_comma h
  obtain ⟨first, back, -, hrest⟩ := hnext rest
  rw [hrest, bind_eq_ok_iff] at hboth
  obtain ⟨⟨more, behind⟩, -, hboth⟩ := hboth
  obtain ⟨lines, -, hlines⟩ := bind_eq_ok_iff.1 hboth
  exact ⟨init, last, more, lines, rfl, (Except.ok.inj hlines).symm⟩

/-- A separator at the end of a text does no harm. -/
theorem exists_decode_separator {sep : Char} (hsep : IsSeparator sep)
    (h : decode (String.ofList cs) = .ok m) :
    ∃ n, decode (String.ofList (cs ++ [sep])) = .ok n := by
  rcases hsep with rfl | rfl
  · obtain ⟨next, hnext⟩ := exists_decode_semicolon h
    exact ⟨_, hnext []⟩
  · obtain ⟨init, last, next, -, hnext⟩ := exists_decode_comma h
    obtain ⟨first, back, hpieces, hrest⟩ := hnext []
    obtain ⟨rfl, rfl⟩ : [] = first ∧ [] = back := by simpa [Text.pieces] using hpieces
    exact ⟨_, hrest⟩

/-! ## The first defect -/

/-- The first piece of a text that cannot be decoded: all in front of it decodes, and with it
nothing does. -/
structure FirstDefect (cs front piece : List Char) (cause : MapError) : Prop where
  text : ∃ behind, cs = front ++ piece ++ behind ∧
    ∀ next ∈ behind.head?, IsSeparator next
  opening : ∀ before ∈ front.getLast?, IsSeparator before
  whole : ∀ d ∈ piece, ¬ IsSeparator d
  decodes : ∃ m, decode (String.ofList front) = .ok m
  fails : decode (String.ofList (front ++ piece)) = .error cause

theorem exists_last_separator (h : ∃ d ∈ cs, IsSeparator d) :
    ∃ front sep back, cs = front ++ sep :: back ∧ IsSeparator sep ∧
      ∀ d ∈ back, ¬ IsSeparator d := by
  induction cs with
  | nil => simp at h
  | cons e cs ih =>
    by_cases hcs : ∃ d ∈ cs, IsSeparator d
    · obtain ⟨front, sep, back, rfl, hsep, hback⟩ := ih hcs
      exact ⟨e :: front, sep, back, rfl, hsep, hback⟩
    · have he : IsSeparator e := by
        obtain ⟨d, hd, hsep⟩ := h
        rcases List.mem_cons.1 hd with rfl | hd
        · exact hsep
        · exact absurd ⟨d, hd, hsep⟩ hcs
      exact ⟨[], e, cs, rfl, he, fun d hd hsep => hcs ⟨d, hd, hsep⟩⟩

theorem exists_firstDefect (h : decode (String.ofList cs) = .error cause) :
    ∃ front piece, FirstDefect cs front piece cause := by
  -- at the last separator: what stands in front of it has the defect, or the last piece is it
  induction hlength : cs.length using Nat.strongRecOn generalizing cs with
  | _ length ih =>
    by_cases hsep : ∃ d ∈ cs, IsSeparator d
    · obtain ⟨front, sep, back, rfl, hsep, hback⟩ := exists_last_separator hsep
      cases hfront : decode (String.ofList front) with
      | ok m =>
        refine ⟨front ++ [sep], back, ⟨[], ?_, ?_⟩, ?_, hback,
          exists_decode_separator hsep hfront, ?_⟩
        · simp
        · simp
        · simpa using hsep
        · simpa using h
      | error other =>
        have hsame := decode_append_of_error hsep hfront back
        obtain rfl : cause = other := Except.error.inj (h.symm.trans hsame)
        have hshort : front.length < length := by
          rw [← hlength, List.length_append, List.length_cons]
          omega
        obtain ⟨before, piece, hdefect⟩ := ih front.length hshort hfront rfl
        obtain ⟨behind, hcs, hnext⟩ := hdefect.text
        refine ⟨before, piece, ⟨behind ++ sep :: back, ?_, ?_⟩, hdefect.opening, hdefect.whole,
          hdefect.decodes, hdefect.fails⟩
        · rw [hcs, List.append_assoc]
        · cases behind with
          | nil => simpa using hsep
          | cons next behind => exact hnext
    · refine ⟨[], cs, ⟨[], ?_, ?_⟩, ?_, ?_, ⟨[[]], ?_⟩, h⟩
      · simp
      · simp
      · simp
      · exact fun d hd hd' => hsep ⟨d, hd, hd'⟩
      · rfl

theorem FirstDefect.decode_eq {front piece : List Char} (h : FirstDefect cs front piece cause) :
    decode (String.ofList cs) = .error cause := by
  obtain ⟨behind, rfl, hnext⟩ := h.text
  cases behind with
  | nil =>
    rw [List.append_nil]
    exact h.fails
  | cons next behind => exact decode_append_of_error (hnext next rfl) h.fails behind

/-- What follows behind a separator leaves the error of a text as it is, and its lines: behind a
semicolon all of them, and behind a comma all but the last, which may become longer.  The error of a
text is that of its first piece that cannot be decoded. -/
theorem decode_stable (p q : String) :
    (∀ cause, decode p = .error cause →
      decode (p ++ ";" ++ q) = .error cause ∧ decode (p ++ "," ++ q) = .error cause) ∧
    (∀ m, decode p = .ok m →
      (∀ n, decode (p ++ ";" ++ q) = .ok n → m <+: n) ∧
      (∀ n, decode (p ++ "," ++ q) = .ok n →
        ∃ init last more lines, m = init ++ [last] ∧ n = init ++ (last ++ more) :: lines)) ∧
    (∀ cause, decode p = .error cause ↔ ∃ front piece, FirstDefect p.toList front piece cause) := by
  have hsemicolon : p ++ ";" ++ q = String.ofList (p.toList ++ ';' :: q.toList) := by
    rw [← String.toList_inj]
    simp
  have hcomma : p ++ "," ++ q = String.ofList (p.toList ++ ',' :: q.toList) := by
    rw [← String.toList_inj]
    simp
  have hp : p = String.ofList p.toList := (String.ofList_toList).symm
  rw [hsemicolon, hcomma]
  refine ⟨?_, ?_, ?_⟩
  · intro cause h
    rw [hp] at h
    exact ⟨decode_append_of_error (Or.inl rfl) h _, decode_append_of_error (Or.inr rfl) h _⟩
  · intro m h
    rw [hp] at h
    exact ⟨fun n => prefix_of_decode_semicolon h, fun n => extends_of_decode_comma h⟩
  · intro cause
    constructor
    · intro h
      exact exists_firstDefect (hp ▸ h)
    · intro h
      obtain ⟨front, piece, hdefect⟩ := h
      rw [hp]
      exact hdefect.decode_eq

end Mappings
end Inlay
