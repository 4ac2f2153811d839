import Inlay.Proofs.SourceMap.Document
import Inlay.Stage.Output

/-!
# Results and located errors are read back from their JSON text

`results_and_errors_read_back` is got record by record: what a record is written as is read back as
the record.  A record leaves out what it does not have, and the reader puts the default of the field
in its place, which is what was left out.  The attributes of a tag have no order of their own: their
members may be written in any order, and the table that they are read into is the same.

Positions count in words of 32 bits, and the reader takes no other numbers (`Position.Fits`).
-/

namespace Inlay

open Json (recordOf)
open Json.Record (required?_eq_some orElse?_optional orElse?_any)
open Json.Tree (word32?_nat text?_string optional?_text?_string optional?_eq_some)

/-! ## Positions -/

namespace Position

variable (p : Position)

/-- A line and a column that are words of 32 bits. -/
structure Fits (p : Position) : Prop where
  line : p.line < word32Limit
  column : p.column < word32Limit

def members (p : Position) : List (Option (String × Json)) :=
  [Json.member "line" (.nat p.line), Json.member "column" (.nat p.column)]

theorem toValue_eq_present : p.toValue = Json.present p.members := rfl

theorem isWhole_toValue (h : p.Fits) : p.toValue.IsWhole := by
  rw [toValue_eq_present]
  refine Json.isWhole_present ?_
  simp only [members, List.forall_mem_cons, Json.isWhole_member]
  exact ⟨Json.isWhole_nat h.line, Json.isWhole_nat h.column, List.forall_mem_nil _⟩

theorem ofTree?_toValue (h : p.Fits) : ofTree? p.toValue.tree = some p := by
  have hrecord : p.toValue.tree.record? ["line", "column"] = some (recordOf p.members) := by
    rw [toValue_eq_present, Json.record?_present (by simp) (by simp [members])]
  have hline : (recordOf p.members).required? "line" Json.Tree.word32? = some p.line :=
    required?_eq_some (by simp [members]) (word32?_nat h.line)
  have hcolumn : (recordOf p.members).required? "column" Json.Tree.word32? = some p.column :=
    required?_eq_some (by simp [members]) (word32?_nat h.column)
  rw [ofTree?]
  refine Option.bind_eq_some_iff.2 ⟨_, hrecord, ?_⟩
  refine Option.bind_eq_some_iff.2 ⟨_, hline, ?_⟩
  exact Option.bind_eq_some_iff.2 ⟨_, hcolumn, rfl⟩

end Position

/-! ## Diagnostics -/

theorem Severity.ofTree?_name (s : Severity) : ofTree? (Json.string s.name).tree = some s := by
  cases s <;> decide

namespace Diagnostic

variable (d : Diagnostic)

structure Fits (d : Diagnostic) : Prop where
  start : ∀ p ∈ d.start, p.Fits
  stop : ∀ p ∈ d.stop, p.Fits

def members (d : Diagnostic) : List (Option (String × Json)) := [
  Json.member "message" (.string d.message),
  Json.member "severity" (.string d.severity.name),
  Json.memberIfSome "code" .string d.code,
  Json.memberIfSome "start" Position.toValue d.start,
  Json.memberIfSome "end" Position.toValue d.stop]

theorem toValue_eq_present : d.toValue = Json.present d.members := rfl

theorem isWhole_toValue (h : d.Fits) : d.toValue.IsWhole := by
  rw [toValue_eq_present]
  refine Json.isWhole_present ?_
  simp only [members, List.forall_mem_cons, Json.isWhole_member, Json.isWhole_memberIfSome]
  exact ⟨.string d.message, .string d.severity.name, fun s _ => .string s,
    fun p hp => p.isWhole_toValue (h.start p hp), fun p hp => p.isWhole_toValue (h.stop p hp),
    List.forall_mem_nil _⟩

theorem ofTree?_toValue (h : d.Fits) : ofTree? d.toValue.tree = some d := by
  have hrecord : d.toValue.tree.record? fieldNames = some (recordOf d.members) := by
    have hdistinct : fieldNames.Nodup := by simp [fieldNames]
    rw [toValue_eq_present, Json.record?_present hdistinct (by simp [members, fieldNames])]
  have hmessage : (recordOf d.members).required? "message" Json.Tree.text? = some d.message :=
    required?_eq_some (by simp [members]) (text?_string d.message)
  have hseverity : (recordOf d.members).orElse? "severity" .error Severity.ofTree? =
      some d.severity := by
    have hget : Entries.get? "severity" (recordOf d.members) =
        some (Json.string d.severity.name).tree := by simp [members]
    rw [Json.Record.orElse?, hget]
    exact Severity.ofTree?_name d.severity
  have hcode : (recordOf d.members).orElse? "code" none (Json.Tree.optional? Json.Tree.text?) =
      some d.code :=
    orElse?_optional (by simp [members]) fun s _ => optional?_text?_string s
  have hstart : (recordOf d.members).orElse? "start" none
      (Json.Tree.optional? Position.ofTree?) = some d.start :=
    orElse?_optional (by simp [members]) fun p hp =>
      optional?_eq_some rfl (p.ofTree?_toValue (h.start p hp))
  have hstop : (recordOf d.members).orElse? "end" none
      (Json.Tree.optional? Position.ofTree?) = some d.stop :=
    orElse?_optional (by simp [members]) fun p hp =>
      optional?_eq_some rfl (p.ofTree?_toValue (h.stop p hp))
  refine Option.bind_eq_some_iff.2 ⟨_, hrecord, ?_⟩
  refine Option.bind_eq_some_iff.2 ⟨_, hmessage, ?_⟩
  refine Option.bind_eq_some_iff.2 ⟨_, hseverity, ?_⟩
  refine Option.bind_eq_some_iff.2 ⟨_, hcode, ?_⟩
  refine Option.bind_eq_some_iff.2 ⟨_, hstart, ?_⟩
  exact Option.bind_eq_some_iff.2 ⟨_, hstop, rfl⟩

end Diagnostic

/-! ## Attributes -/

theorem AttributeValue.ofTree?_toValue (v : AttributeValue) : ofTree? v.toValue.tree = some v := by
  cases v <;> rfl

theorem AttributeValue.isWhole_toValue (v : AttributeValue) : v.toValue.IsWhole := by
  cases v with
  | flag value => exact .bool value
  | text value => exact .string value

namespace Attributes

variable {entries : List (String × AttributeValue)} {attributes : Attributes}

/-- Attributes as a value, with their members in the order of a list. -/
def listed (entries : List (String × AttributeValue)) : Json :=
  .object (entries.map fun (name, value) => (name, value.toValue))

theorem isWhole_listed (entries : List (String × AttributeValue)) : (listed entries).IsWhole := by
  refine .object fun field hfield => ?_
  obtain ⟨entry, -, rfl⟩ := List.mem_map.1 hfield
  exact entry.2.isWhole_toValue

theorem ofTree?_listed (h : entries.Perm attributes.entries) :
    ofTree? (listed entries).tree = some attributes :=
  Json.Tree.table?_object h fun entry _ => entry.2.ofTree?_toValue

/-- A list gives the order of attributes when it has the same entries. -/
def Orders : Option (List (String × AttributeValue)) → Option Attributes → Prop :=
  Option.Rel fun entries attributes => entries.Perm attributes.entries

theorem orders_entries (attributes : Option Attributes) :
    Orders (attributes.map (·.entries)) attributes := by
  cases attributes with
  | none => exact .none
  | some attributes => exact .some (.refl _)

end Attributes

/-! ## Results -/

namespace Output

variable {o : Output} {order : Option (List (String × AttributeValue))}

/-- A result all of whose positions are words of 32 bits. -/
def Fits (o : Output) : Prop := ∀ d ∈ o.diagnostics, d.Fits

def members (o : Output) (order : Option (List (String × AttributeValue))) :
    List (Option (String × Json)) := [
  Json.member "code" (.string o.code),
  Json.memberIfSome "map" SourceMap.toValue o.map,
  Json.memberIfAny "dependencies" .string o.dependencies,
  Json.memberIfAny "diagnostics" Diagnostic.toValue o.diagnostics,
  Json.memberIfSome "attributes" Attributes.listed order]

/-- A result as a value, with the members of its attributes in an order. -/
def valueIn (o : Output) (order : Option (List (String × AttributeValue))) : Json :=
  Json.present (o.members order)

theorem toValue_eq_valueIn (o : Output) : o.toValue = o.valueIn (o.attributes.map (·.entries)) := by
  obtain ⟨code, map, dependencies, diagnostics, attributes⟩ := o
  cases attributes <;> rfl

theorem isWhole_valueIn (h : o.Fits) : (o.valueIn order).IsWhole := by
  refine Json.isWhole_present ?_
  simp only [members, List.forall_mem_cons, Json.isWhole_member, Json.isWhole_memberIfSome]
  exact ⟨.string o.code, fun map _ => map.isWhole_toValue,
    Json.isWhole_memberIfAny fun s _ => .string s,
    Json.isWhole_memberIfAny fun d hd => d.isWhole_toValue (h d hd),
    fun entries _ => Attributes.isWhole_listed entries, List.forall_mem_nil _⟩

theorem orElse?_attributes (horder : Attributes.Orders order o.attributes) :
    (recordOf (o.members order)).orElse? "attributes" none
      (Json.Tree.optional? Attributes.ofTree?) = some o.attributes := by
  have hget : Entries.get? "attributes" (recordOf (o.members order)) =
      order.map fun entries => (Attributes.listed entries).tree := by simp [members]
  rw [Json.Record.orElse?, hget]
  generalize o.attributes = attributes at horder ⊢
  cases horder with
  | none => rfl
  | some hperm => exact optional?_eq_some rfl (Attributes.ofTree?_listed hperm)

theorem ofTree?_valueIn (h : o.Fits) (horder : Attributes.Orders order o.attributes) :
    ofTree? (o.valueIn order).tree = some o := by
  have hrecord : (o.valueIn order).tree.record? fieldNames =
      some (recordOf (o.members order)) := by
    have hdistinct : fieldNames.Nodup := by simp [fieldNames]
    rw [valueIn, Json.record?_present hdistinct (by simp [members, fieldNames])]
  have hcode : (recordOf (o.members order)).required? "code" Json.Tree.text? = some o.code :=
    required?_eq_some (by simp [members]) (text?_string o.code)
  have hmap : (recordOf (o.members order)).orElse? "map" none
      (Json.Tree.optional? SourceMap.ofTree?) = some o.map :=
    orElse?_optional (by simp [members]) fun map _ =>
      optional?_eq_some rfl map.ofTree?_toValue
  have hdependencies : (recordOf (o.members order)).orElse? "dependencies" []
      (Json.Tree.list? Json.Tree.text?) = some o.dependencies :=
    orElse?_any (by simp [members]) fun s _ => text?_string s
  have hdiagnostics : (recordOf (o.members order)).orElse? "diagnostics" []
      (Json.Tree.list? Diagnostic.ofTree?) = some o.diagnostics :=
    orElse?_any (by simp [members]) fun d hd => d.ofTree?_toValue (h d hd)
  refine Option.bind_eq_some_iff.2 ⟨_, hrecord, ?_⟩
  refine Option.bind_eq_some_iff.2 ⟨_, hcode, ?_⟩
  refine Option.bind_eq_some_iff.2 ⟨_, hmap, ?_⟩
  refine Option.bind_eq_some_iff.2 ⟨_, hdependencies, ?_⟩
  refine Option.bind_eq_some_iff.2 ⟨_, hdiagnostics, ?_⟩
  exact Option.bind_eq_some_iff.2 ⟨_, orElse?_attributes horder, rfl⟩

end Output

/-! ## Located errors -/

namespace LocatedError

variable (e : LocatedError)

structure Fits (e : LocatedError) : Prop where
  start : e.start.Fits
  stop : e.stop.Fits

def members (e : LocatedError) : List (Option (String × Json)) := [
  Json.member "message" (.string e.message),
  Json.memberIfSome "filename" .string e.filename,
  Json.member "start" e.start.toValue,
  Json.member "end" e.stop.toValue]

theorem toValue_eq_present : e.toValue = Json.present e.members := rfl

theorem isWhole_toValue (h : e.Fits) : e.toValue.IsWhole := by
  rw [toValue_eq_present]
  refine Json.isWhole_present ?_
  simp only [members, List.forall_mem_cons, Json.isWhole_member, Json.isWhole_memberIfSome]
  exact ⟨.string e.message, fun s _ => .string s, e.start.isWhole_toValue h.start,
    e.stop.isWhole_toValue h.stop, List.forall_mem_nil _⟩

theorem ofTree?_toValue (h : e.Fits) : ofTree? e.toValue.tree = some e := by
  have hrecord : e.toValue.tree.record? fieldNames = some (recordOf e.members) := by
    have hdistinct : fieldNames.Nodup := by simp [fieldNames]
    rw [toValue_eq_present, Json.record?_present hdistinct (by simp [members, fieldNames])]
  have hmessage : (recordOf e.members).required? "message" Json.Tree.text? = some e.message :=
    required?_eq_some (by simp [members]) (text?_string e.message)
  have hfilename : (recordOf e.members).orElse? "filename" none
      (Json.Tree.optional? Json.Tree.text?) = some e.filename :=
    orElse?_optional (by simp [members]) fun s _ => optional?_text?_string s
  have hstart : (recordOf e.members).required? "start" Position.ofTree? = some e.start :=
    required?_eq_some (by simp [members]) (e.start.ofTree?_toValue h.start)
  have hstop : (recordOf e.members).required? "end" Position.ofTree? = some e.stop :=
    required?_eq_some (by simp [members]) (e.stop.ofTree?_toValue h.stop)
  refine Option.bind_eq_some_iff.2 ⟨_, hrecord, ?_⟩
  refine Option.bind_eq_some_iff.2 ⟨_, hmessage, ?_⟩
  refine Option.bind_eq_some_iff.2 ⟨_, hfilename, ?_⟩
  refine Option.bind_eq_some_iff.2 ⟨_, hstart, ?_⟩
  exact Option.bind_eq_some_iff.2 ⟨_, hstop, rfl⟩

end LocatedError

/-! ## Texts -/

/-- Results and located errors are read back from their JSON texts as they were written, results
also from a text that lists their attributes in another order. -/
theorem results_and_errors_read_back (o : Output) (e : LocatedError) (hresult : o.Fits)
    (herror : e.Fits) :
    (Json.parseTree? o.toValue.compact).bind Output.ofTree? = some o ∧
      (∀ order, Attributes.Orders order o.attributes →
        (Json.parseTree? (o.valueIn order).compact).bind Output.ofTree? = some o) ∧
      (Json.parseTree? e.toValue.compact).bind LocatedError.ofTree? = some e := by
  have hordered : ∀ order, Attributes.Orders order o.attributes →
      (Json.parseTree? (o.valueIn order).compact).bind Output.ofTree? = some o := by
    intro order horder
    rw [Json.parseTree?_compact (Output.isWhole_valueIn hresult), Option.bind_some,
      Output.ofTree?_valueIn hresult horder]
  refine ⟨?_, hordered, ?_⟩
  · rw [Output.toValue_eq_valueIn]
    exact hordered _ (Attributes.orders_entries o.attributes)
  · rw [Json.parseTree?_compact (e.isWhole_toValue herror), Option.bind_some,
      e.ofTree?_toValue herror]

/-- A result with a map, a diagnostic of each severity, and a text and a flag as attributes. -/
def annotatedOutput : Output where
  code := "const x = \"1\"\n"
  map := some
    { version := 3, sources := ["App.civet"], sourcesContent := [none], mappings := "AAAA" }
  dependencies := ["types/é.d.ts"]
  diagnostics := [
    { message := "not a number", code := some "TS2322", start := some ⟨1, 6⟩, stop := some ⟨1, 7⟩ },
    { message := "unused", severity := .warning, start := some ⟨4294967295, 0⟩ },
    { message := "", severity := .info }]
  attributes := some (Table.ofList [("lang", .text "true"), ("global", .flag true)])

theorem fits_annotatedOutput : annotatedOutput.Fits := by
  have hsmall : ∀ p : Position, p = ⟨1, 6⟩ ∨ p = ⟨1, 7⟩ ∨ p = ⟨4294967295, 0⟩ → p.Fits := by
    rintro p (rfl | rfl | rfl) <;> exact ⟨by decide, by decide⟩
  intro d hd
  simp only [annotatedOutput, List.mem_cons, List.not_mem_nil, or_false] at hd
  rcases hd with rfl | rfl | rfl
  · exact ⟨by simp [hsmall], by simp [hsmall]⟩
  · exact ⟨by simp [hsmall], by simp⟩
  · exact ⟨by simp, by simp⟩

theorem annotated_output_reads_back :
    (Json.parseTree? annotatedOutput.toValue.compact).bind Output.ofTree? =
        some annotatedOutput ∧
      (Json.parseTree? (annotatedOutput.valueIn
        (some [("lang", .text "true"), ("global", .flag true)])).compact).bind Output.ofTree? =
        some annotatedOutput ∧
      (Json.parseTree? (LocatedError.toValue
        { message := "unclosed bracket", start := ⟨8, 7⟩, stop := ⟨8, 8⟩ }).compact).bind
          LocatedError.ofTree? =
        some { message := "unclosed bracket", start := ⟨8, 7⟩, stop := ⟨8, 8⟩ } := by
  have herror : LocatedError.Fits
      { message := "unclosed bracket", start := ⟨8, 7⟩, stop := ⟨8, 8⟩ } :=
    ⟨⟨by decide, by decide⟩, ⟨by decide, by decide⟩⟩
  obtain ⟨hresult, hordered, herror⟩ :=
    results_and_errors_read_back annotatedOutput _ fits_annotatedOutput herror
  exact ⟨hresult, hordered _ (.some (.swap _ _ _)), herror⟩

end Inlay
