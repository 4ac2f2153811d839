import Inlay.Proofs.SourceMap.Attribution
import Inlay.SourceMap.Json

/-!
# What a chained map consists of

A chained map is a document of its own: it has the sources of the earlier map and the names of the
later one, neither a file nor a root, and a line for every line of the later map.  What stands on a
line are the segments of the later map that resolve, one for one and in their order
(`chain_consists_of_resolved_segments`).

The statement is about the mappings as they are decoded from the text that chaining wrote, so it
rests on `chain_documents`, which has the round trip of that text.
-/

namespace Inlay
namespace SourceMap

/-- A segment `t` of a chained map is a segment `s` of the later one, led on to where the earlier
map says that its intermediate place comes from. -/
structure LeadsOn (earlier : Lookup) (indentation : Nat) (s t : Segment) : Prop where
  column : t.generatedColumn = s.generatedColumn
  origin : ∃ intermediate original, s.origin = some intermediate ∧
    earlier.originAt? intermediate.line intermediate.column = some original ∧
    t.origin = some ⟨0, original.line, original.column + indentation, intermediate.name⟩

variable {earlier : Lookup} {indentation : Nat}

theorem leadsOn_of_chainSegment? {s t : Segment}
    (h : chainSegment? earlier indentation s = some t) : LeadsOn earlier indentation s t := by
  refine ⟨generatedColumn_of_chainSegment? h, ?_⟩
  rw [chainSegment?_eq] at h
  obtain ⟨place, hplace, rfl⟩ := Option.map_eq_some_iff.1 h
  obtain ⟨intermediate, hintermediate, hthrough⟩ := Option.bind_eq_some_iff.1 hplace
  obtain ⟨original, horiginal, rfl⟩ := Option.map_eq_some_iff.1 hthrough
  exact ⟨intermediate, original, hintermediate, horiginal, rfl⟩

/-- A later map is chained as the document that it stands for. -/
theorem chain_of_document {later : Later} {b : SourceMap} (h : later.document = .ok b)
    (a : Option SourceMap) (indentation : Nat) :
    chain a (some later) indentation = chain a (some (.map b)) indentation := by
  have hsame : later.document = (Later.map b).document := h
  simp only [chain, hsame]

/-- Chaining two maps gives a document whose lines are those of the later map, each with the
segments that the earlier map resolves, led on to their original places. -/
theorem chain_consists_of_resolved_segments {a b : SourceMap} {later : Later} {ma mb : Mappings}
    (ha : a.decode = .ok ma) (hlater : later.document = .ok b) (hb : b.decode = .ok mb)
    (hmove : Movable (Lookup.ofMappings ma) indentation mb) :
    ∃ chained m,
      chain (some a) (some later) indentation = .ok (some chained) ∧
      chained.version = 3 ∧ chained.file = none ∧ chained.sourceRoot = none ∧
      chained.toValue.field? "file" = none ∧ chained.toValue.field? "sourceRoot" = none ∧
      chained.sources = a.sources ∧ chained.sourcesContent = a.sourcesContent ∧
      chained.names = b.names ∧
      chained.decode = .ok m ∧ m.length = mb.length ∧
      List.Forall₂ (List.Forall₂ (LeadsOn (Lookup.ofMappings ma) indentation))
        (resolvable (Lookup.ofMappings ma) mb) m := by
  obtain ⟨m, rfl, hchain, hdecode⟩ := chain_documents ha hb hmove
  rw [chain_of_document hlater, hchain]
  exact ⟨_, _, rfl, rfl, rfl, rfl, rfl, rfl, rfl, rfl, rfl, hdecode, List.length_map _,
    forall₂_resolvable_chainMappings (fun _ _ => leadsOn_of_chainSegment?) mb⟩

/-- A map with a file and a root, of two segments. -/
def rootedPair : SourceMap := ⟨3, some "a.js", some "src/", ["a.civet"], [none], ["f"], "KAEE,GADC"⟩

/-- A map with a column that leads nowhere, a named segment, an empty line, and a place in front of
all that `rootedPair` knows. -/
def patchy : SourceMap := ⟨3, some "b.js", none, ["a.js"], [], ["x", "y"], "A,EAAMC;;KAAL"⟩

/-- All three lines are kept, and on them only the named segment. -/
theorem chain_consists_of_resolved_segments_patchy :
    let places : Lookup := ⟨[[⟨5, some ⟨0, 2, 2, none⟩⟩, ⟨8, some ⟨0, 1, 3, none⟩⟩]]⟩
    ∃ chained m, chain (some rootedPair) (some (.map patchy)) 4 = .ok (some chained) ∧
      chained.file = none ∧ chained.sourceRoot = none ∧ chained.sources = ["a.civet"] ∧
      chained.names = ["x", "y"] ∧ chained.decode = .ok m ∧ m.length = 3 ∧
      List.Forall₂ (List.Forall₂ (LeadsOn places 4)) [[⟨2, some ⟨0, 0, 6, some 1⟩⟩], [], []] m := by
  intro places
  have ha : rootedPair.decode = .ok [[⟨5, some ⟨0, 2, 2, none⟩⟩, ⟨8, some ⟨0, 1, 3, none⟩⟩]] := by
    decide
  have hb : patchy.decode =
      .ok [[⟨0, none⟩, ⟨2, some ⟨0, 0, 6, some 1⟩⟩], [], [⟨5, some ⟨0, 0, 1, none⟩⟩]] := by decide
  have hplaces : Lookup.ofMappings [[⟨5, some ⟨0, 2, 2, none⟩⟩, ⟨8, some ⟨0, 1, 3, none⟩⟩]] =
      places := Lookup.ofMappings_of_sorted (by decide)
  have hresolves : resolvable places
      [[⟨0, none⟩, ⟨2, some ⟨0, 0, 6, some 1⟩⟩], [], [⟨5, some ⟨0, 0, 1, none⟩⟩]] =
        [[⟨2, some ⟨0, 0, 6, some 1⟩⟩], [], []] := rfl
  have hmove : Movable (Lookup.ofMappings
      [[⟨5, some ⟨0, 2, 2, none⟩⟩, ⟨8, some ⟨0, 1, 3, none⟩⟩]]) 4
      [[⟨0, none⟩, ⟨2, some ⟨0, 0, 6, some 1⟩⟩], [], [⟨5, some ⟨0, 0, 1, none⟩⟩]] :=
    movable_of_forall (by decide) _
  have hdocument : (Later.map patchy).document = .ok patchy := rfl
  obtain ⟨chained, m, hchain, -, hfile, hroot, -, -, hsources, -, hnames, hdecode, hlength,
      hlines⟩ :=
    chain_consists_of_resolved_segments ha hdocument hb hmove
  rw [hplaces, hresolves] at hlines
  exact ⟨chained, m, hchain, hfile, hroot, hsources, hnames, hdecode, hlength, hlines⟩

end SourceMap
end Inlay
