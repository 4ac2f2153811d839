import Inlay.Proofs.SourceMap.Chained

/-!
# When chaining fails, and what it leaves alone

The text of a later map is read before anything else, so a text that is no document is an error even
when there is no earlier map.  A map that has no other one to be chained with is handed on as it is,
and its mappings are not looked at.  Two maps are chained unless the mappings of one of them do not
decode, of which those of the earlier map come first (`chain_fails_or_passes_through`).

Decoding mappings never finds a document malformed (`decode_ne_malformedJson`), so this error of a
chain always is about the text of the later map.
-/

namespace Inlay

/-! ## Errors of mappings -/

/-- A computation does not find a document malformed. -/
def NeverMalformed {α : Type} (r : Except MapError α) : Prop := r ≠ .error .malformedJson

namespace NeverMalformed

variable {α β : Type}

theorem ok (value : α) : NeverMalformed (.ok value) := by
  intro h
  cases h

theorem bind {first : Except MapError α} {next : α → Except MapError β}
    (hfirst : NeverMalformed first) (hnext : ∀ value, NeverMalformed (next value)) :
    NeverMalformed (first >>= next) := by
  intro h
  rcases bind_eq_error_iff.1 h with h | ⟨value, -, h⟩
  · exact hfirst h
  · exact hnext value h

end NeverMalformed

theorem Vlq.neverMalformed_readMagnitude (sum shift : Nat) (cs : List Char) :
    NeverMalformed (Vlq.readMagnitude sum shift cs) := by
  induction cs generalizing sum shift with
  | nil => simp [NeverMalformed, Vlq.readMagnitude]
  | cons c cs ih =>
    rw [Vlq.readMagnitude]
    cases Vlq.digit? c with
    | none => simp [NeverMalformed]
    | some d =>
      dsimp only
      split
      · exact NeverMalformed.ok _
      · split
        · simp [NeverMalformed]
        · exact ih _ _

theorem Vlq.neverMalformed_read (cs : List Char) : NeverMalformed (Vlq.read cs) := by
  have h := Vlq.neverMalformed_readMagnitude 0 0 cs
  rw [Vlq.read]
  cases hread : Vlq.readMagnitude 0 0 cs with
  | ok result => exact NeverMalformed.ok _
  | error cause =>
    rw [hread] at h
    simpa [NeverMalformed] using h

namespace Mappings

theorem neverMalformed_readValues (room : Nat) (cs : List Char) :
    NeverMalformed (readValues room cs) := by
  induction room generalizing cs with
  | zero => cases cs <;> simp [NeverMalformed, readValues]
  | succ room ih =>
    cases cs with
    | nil => exact NeverMalformed.ok _
    | cons c cs =>
      exact (Vlq.neverMalformed_read _).bind fun _ => (ih _).bind fun _ => NeverMalformed.ok _

theorem neverMalformed_advance (field : SegmentField) (previous : Nat) (difference : Int) :
    NeverMalformed (advance field previous difference) := by
  simp only [advance, NeverMalformed]
  split <;> simp

theorem neverMalformed_originOf (c : Cursor) (source line column : Int) (name : Option Int) :
    NeverMalformed (originOf c source line column name) := by
  refine (neverMalformed_advance _ _ _).bind fun _ => ?_
  refine (neverMalformed_advance _ _ _).bind fun _ => ?_
  refine (neverMalformed_advance _ _ _).bind fun _ => ?_
  cases name with
  | none => exact NeverMalformed.ok _
  | some difference => exact (neverMalformed_advance _ _ _).bind fun _ => NeverMalformed.ok _

theorem neverMalformed_segmentOf (c : Cursor) (values : List Int) :
    NeverMalformed (segmentOf c values) := by
  refine (neverMalformed_advance _ _ _).bind fun _ => ?_
  split
  · exact NeverMalformed.ok _
  · exact (neverMalformed_originOf _ _ _ _ _).bind fun _ => NeverMalformed.ok _
  · exact (neverMalformed_originOf _ _ _ _ _).bind fun _ => NeverMalformed.ok _
  · simp [NeverMalformed]

theorem neverMalformed_decodePieces (c : Cursor) (pieces : List (List Char)) :
    NeverMalformed (decodePieces c pieces) := by
  induction pieces generalizing c with
  | nil => exact NeverMalformed.ok _
  | cons piece pieces ih =>
    cases piece with
    | nil => exact ih c
    | cons d ds =>
      refine (neverMalformed_readValues _ _).bind fun values => ?_
      refine (neverMalformed_segmentOf _ _).bind fun s => ?_
      exact (ih _).bind fun _ => NeverMalformed.ok _

theorem neverMalformed_decodeLines (c : Cursor) (lines : List (List Char)) :
    NeverMalformed (decodeLines c lines) := by
  induction lines generalizing c with
  | nil => exact NeverMalformed.ok _
  | cons line lines ih =>
    refine (neverMalformed_decodePieces _ _).bind fun result => ?_
    exact (ih _).bind fun _ => NeverMalformed.ok _

end Mappings

namespace SourceMap

theorem decode_ne_malformedJson (map : SourceMap) : map.decode ≠ .error .malformedJson :=
  Mappings.neverMalformed_decodeLines _ _

/-! ## The later map -/

/-- A later map is given as a text that is no document. -/
def Unreadable (later : Option Later) : Prop :=
  ∃ json, later = some (.text json) ∧ ∀ map, ofText json ≠ .ok map

/-- What a later map stands for, if there is one: a document stands for itself, and a text for the
document that it is. -/
inductive StandsFor : Option Later → Option SourceMap → Prop
  | missing : StandsFor none none
  | document (map : SourceMap) : StandsFor (some (.map map)) (some map)
  | text {json : String} {map : SourceMap} (h : ofText json = .ok map) :
      StandsFor (some (.text json)) (some map)

theorem ofText_eq_error {json : String} {cause : MapError} (h : ofText json = .error cause) :
    cause = .malformedJson := by
  rw [ofText] at h
  split at h
  · cases h
  · exact (Except.error.inj h).symm

theorem unreadable_or_standsFor (later : Option Later) :
    Unreadable later ∨ ∃ read, StandsFor later read := by
  match later with
  | none => exact Or.inr ⟨_, .missing⟩
  | some (.map map) => exact Or.inr ⟨_, .document map⟩
  | some (.text json) =>
    cases h : ofText json with
    | ok map => exact Or.inr ⟨_, .text h⟩
    | error cause =>
      refine Or.inl ⟨json, rfl, ?_⟩
      intro map hmap
      rw [h] at hmap
      cases hmap

theorem chain_of_unreadable {later : Option Later} (h : Unreadable later)
    (earlier : Option SourceMap) (indentation : Nat) :
    chain earlier later indentation = .error .malformedJson := by
  obtain ⟨json, rfl, hjson⟩ := h
  cases hread : ofText json with
  | ok map => exact absurd hread (hjson map)
  | error cause =>
    obtain rfl := ofText_eq_error hread
    show (ofText json >>= _) = _
    rw [hread]
    rfl

/-- A readable later map is chained as the document that it stands for. -/
theorem chain_of_standsFor {later : Option Later} {read : Option SourceMap}
    (h : StandsFor later read) (earlier : Option SourceMap) (indentation : Nat) :
    chain earlier later indentation = chain earlier (read.map .map) indentation := by
  cases h with
  | missing => rfl
  | document map => rfl
  | @text json map h =>
    have hdocument : (Later.text json).document = .ok map := h
    exact chain_of_document hdocument earlier indentation

/-! ## Two maps -/

/-- The mappings of one of two maps do not decode; the cause is that of the earlier map if there is
one. -/
def FailsFirst (a b : SourceMap) (cause : MapError) : Prop :=
  a.decode = .error cause ∨ ∃ m, a.decode = .ok m ∧ b.decode = .error cause

theorem ofMap_eq_error_iff {map : SourceMap} {cause : MapError} :
    Lookup.ofMap map = .error cause ↔ map.decode = .error cause := by
  simp [Lookup.ofMap, bind_eq_error_iff]

theorem ofMap_eq_ok_iff {map : SourceMap} {lookup : Lookup} :
    Lookup.ofMap map = .ok lookup ↔ ∃ m, map.decode = .ok m ∧ Lookup.ofMappings m = lookup := by
  simp [Lookup.ofMap, bind_eq_ok_iff]

theorem compose_eq_error_iff {a b : SourceMap} {indentation : Nat} {cause : MapError} :
    compose a b indentation = .error cause ↔ FailsFirst a b cause := by
  simp [compose, bind_eq_error_iff, ofMap_eq_error_iff, ofMap_eq_ok_iff, FailsFirst]

theorem chain_eq_error_iff {a b : SourceMap} {indentation : Nat} {cause : MapError} :
    chain (some a) (some (.map b)) indentation = .error cause ↔ FailsFirst a b cause := by
  show (compose a b indentation >>= fun chained => .ok (some chained)) = _ ↔ _
  rw [bind_eq_error_iff, compose_eq_error_iff]
  simp

theorem exists_chain_eq_ok {a b : SourceMap} (h : ∀ cause, ¬ FailsFirst a b cause)
    (indentation : Nat) :
    ∃ chained, chain (some a) (some (.map b)) indentation = .ok (some chained) := by
  cases ha : a.decode with
  | error cause => exact absurd (Or.inl ha) (h cause)
  | ok ma =>
    cases hb : b.decode with
    | error cause => exact absurd (Or.inr ⟨ma, ha, hb⟩) (h cause)
    | ok mb => exact ⟨_, chain_eq_ok indentation ha hb⟩

/-- Chaining finds a document malformed exactly if the later map is a text that is none.  Otherwise
a map without another one is the result as it is, and two maps are chained unless their mappings do
not decode, with the error of the earlier map before that of the later one. -/
theorem chain_fails_or_passes_through (earlier : Option SourceMap) (later : Option Later)
    (indentation : Nat) :
    (chain earlier later indentation = .error .malformedJson ↔ Unreadable later) ∧
    (Unreadable later ∨ ∃ read, StandsFor later read) ∧
    ∀ read, StandsFor later read →
      (later = none → chain earlier later indentation = .ok earlier) ∧
      (earlier = none → chain earlier later indentation = .ok read) ∧
      ∀ a b, earlier = some a → read = some b →
        (∀ cause, chain earlier later indentation = .error cause ↔ FailsFirst a b cause) ∧
        ((∀ cause, ¬ FailsFirst a b cause) →
          ∃ chained, chain earlier later indentation = .ok (some chained)) := by
  refine ⟨⟨?_, fun h => chain_of_unreadable h earlier indentation⟩,
    unreadable_or_standsFor later, ?_⟩
  · intro h
    rcases unreadable_or_standsFor later with hlater | ⟨read, hread⟩
    · exact hlater
    · rw [chain_of_standsFor hread] at h
      cases read with
      | none => cases h
      | some b =>
        cases earlier with
        | none => cases h
        | some a =>
          rcases chain_eq_error_iff.1 h with h | ⟨_, -, h⟩
          · exact absurd h (decode_ne_malformedJson a)
          · exact absurd h (decode_ne_malformedJson b)
  · intro read hread
    rw [chain_of_standsFor hread]
    refine ⟨?_, ?_, ?_⟩
    · intro hlater
      subst hlater
      cases hread
      rfl
    · intro hearlier
      subst hearlier
      cases read <;> rfl
    · intro a b ha hb
      subst ha hb
      exact ⟨fun cause => chain_eq_error_iff, fun h => exists_chain_eq_ok h indentation⟩

/-- The earlier map has a truncated value and the later one a character that is no digit. -/
example :
    chain (some ⟨3, none, none, [], [], [], "AAg"⟩) (some (.map ⟨3, none, none, [], [], [], "!"⟩))
    0 = .error .truncatedValue := by decide

end SourceMap
end Inlay
