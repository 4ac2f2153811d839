import Inlay.SourceMap.Chain
import Inlay.Proofs.Json.Records

/-!
# Documents and their JSON text are interchangeable

The text of a document is read back as the document (`ofTree?_toValue` field by field, after
`parseTree?_compact`), whatever its texts contain and whether or not it has a file and a source
root.  So a chain does not tell a later map from its text.
-/

namespace Inlay
namespace SourceMap

open Json (recordOf)
open Json.Record (required?_eq_some orElse?_optional orElse?_list)
open Json.Tree (word32?_nat text?_string optional?_text?_string optional?_text?_stringOrNull)

/-! ## What is written -/

/-- The members of a document as they are written. -/
def members (map : SourceMap) : List (Option (String × Json)) := [
  Json.member "version" (.nat map.version.toNat),
  Json.memberIfSome "file" .string map.file,
  Json.memberIfSome "sourceRoot" .string map.sourceRoot,
  Json.member "sources" (.array (map.sources.map .string)),
  Json.member "sourcesContent" (.array (map.sourcesContent.map Json.stringOrNull)),
  Json.member "names" (.array (map.names.map .string)),
  Json.member "mappings" (.string map.mappings)]

theorem toValue_eq_present (map : SourceMap) : map.toValue = Json.present map.members := rfl

theorem record?_toValue (map : SourceMap) :
    map.toValue.tree.record? fieldNames = some (recordOf map.members) := by
  have hdistinct : fieldNames.Nodup := by simp [fieldNames]
  have hnamed : Json.Named fieldNames map.members := by simp [members, fieldNames]
  rw [toValue_eq_present, Json.record?_present hdistinct hnamed]

theorem isWhole_toValue (map : SourceMap) : map.toValue.IsWhole := by
  have hsources : (Json.array (map.sources.map .string)).IsWhole :=
    Json.isWhole_array_map fun s _ => .string s
  have hcontents : (Json.array (map.sourcesContent.map Json.stringOrNull)).IsWhole :=
    Json.isWhole_array_map fun s _ => Json.isWhole_stringOrNull s
  have hnames : (Json.array (map.names.map .string)).IsWhole :=
    Json.isWhole_array_map fun s _ => .string s
  rw [toValue_eq_present]
  refine Json.isWhole_present ?_
  simp only [members, List.forall_mem_cons, Json.isWhole_member, Json.isWhole_memberIfSome]
  exact ⟨Json.isWhole_nat map.version.toNat_lt, fun s _ => .string s, fun s _ => .string s,
    hsources, hcontents, hnames, .string map.mappings, List.forall_mem_nil _⟩

/-! ## Reading it back -/

theorem ofTree?_toValue (map : SourceMap) : ofTree? map.toValue.tree = some map := by
  have hversion : (recordOf map.members).required? "version" Json.Tree.word32? =
      some map.version.toNat :=
    required?_eq_some (by simp [members]) (word32?_nat map.version.toNat_lt)
  have hfile : (recordOf map.members).orElse? "file" none
      (Json.Tree.optional? Json.Tree.text?) = some map.file :=
    orElse?_optional (by simp [members]) fun s _ => optional?_text?_string s
  have hsourceRoot : (recordOf map.members).orElse? "sourceRoot" none
      (Json.Tree.optional? Json.Tree.text?) = some map.sourceRoot :=
    orElse?_optional (by simp [members]) fun s _ => optional?_text?_string s
  have hsources : (recordOf map.members).orElse? "sources" [] (Json.Tree.list? Json.Tree.text?) =
      some map.sources :=
    orElse?_list (by simp [members]) fun s _ => text?_string s
  have hcontents : (recordOf map.members).orElse? "sourcesContent" []
      (Json.Tree.list? (Json.Tree.optional? Json.Tree.text?)) = some map.sourcesContent :=
    orElse?_list (by simp [members]) fun s _ => optional?_text?_stringOrNull s
  have hnames : (recordOf map.members).orElse? "names" [] (Json.Tree.list? Json.Tree.text?) =
      some map.names :=
    orElse?_list (by simp [members]) fun s _ => text?_string s
  have hmappings : (recordOf map.members).required? "mappings" Json.Tree.text? =
      some map.mappings :=
    required?_eq_some (by simp [members]) (text?_string map.mappings)
  -- one step for each field: a rewrite of all steps at once compares them by evaluation, and the
  -- bound of the version is a number that is too large for that
  rw [ofTree?]
  refine Option.bind_eq_some_iff.2 ⟨_, record?_toValue map, ?_⟩
  refine Option.bind_eq_some_iff.2 ⟨_, hversion, ?_⟩
  refine Option.bind_eq_some_iff.2 ⟨_, hfile, ?_⟩
  refine Option.bind_eq_some_iff.2 ⟨_, hsourceRoot, ?_⟩
  refine Option.bind_eq_some_iff.2 ⟨_, hsources, ?_⟩
  refine Option.bind_eq_some_iff.2 ⟨_, hcontents, ?_⟩
  refine Option.bind_eq_some_iff.2 ⟨_, hnames, ?_⟩
  refine Option.bind_eq_some_iff.2 ⟨_, hmappings, ?_⟩
  show some { map with version := map.version.toNat.toUInt32 } = some map
  rw [Nat.toUInt32, UInt32.ofNat_toNat]

theorem ofText_toText (map : SourceMap) : ofText map.toText = .ok map := by
  rw [ofText, toText, Json.parseTree?_compact map.isWhole_toValue, Option.bind_some,
    ofTree?_toValue]

/-- A document and its text are interchangeable: the text is read back as the document, and a chain
with the text is the chain with the document. -/
theorem toText_interchangeable (map : SourceMap) :
    ofText map.toText = .ok map ∧
      ∀ (earlier : Option SourceMap) (indentation : Nat),
        chain earlier (some (.text map.toText)) indentation =
          chain earlier (some (.map map)) indentation := by
  refine ⟨ofText_toText map, fun earlier indentation => ?_⟩
  have hdocument : (Later.text map.toText).document = (Later.map map).document := ofText_toText map
  simp only [chain, hdocument]

end SourceMap
end Inlay
