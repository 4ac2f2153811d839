import Inlay.Proofs.SourceMap.Chaining

/-!
# The files that a chained map names

A chained map has the sources of the earlier map and attributes every segment to the first of them,
whichever source the earlier map leads to (`chain_attributes_to_first_source`).  The file stays the
same where the earlier map names the same one at the index that it leads to, so always when it has
one source.  In a map of several files the segments of all but the first change their file
(`chain_changes_files`).

The segments of a chained map stand in the order of the segments that they came from, which is what
`List.Forall₂` says here line by line.
-/

namespace Inlay
namespace SourceMap

/-- The file that a source index stands for: the entry of the sources, joined to the root if the map
has one. -/
def fileOf? (join : String → String → String) (map : SourceMap) (index : Nat) : Option String :=
  map.sources[index]?.map fun entry =>
    match map.sourceRoot with
    | some root => join root entry
    | none => entry

/-- Every source index of the mappings stands for one of the sources. -/
def SourcesWithin (sources : List String) (m : Mappings) : Prop :=
  ∀ line ∈ m, ∀ s ∈ line, ∀ o ∈ s.origin, o.source < sources.length

instance (sources : List String) (m : Mappings) : Decidable (SourcesWithin sources m) :=
  inferInstanceAs (Decidable (∀ line ∈ m, ∀ s ∈ line, ∀ o ∈ s.origin, o.source < sources.length))

/-- A segment `s` of the later map became the chained segment `t`.  The earlier map leads from the
intermediate place of `s` to `original`, and the chained map leads to `attributed`. -/
structure Becomes (earlier : Lookup) (s t : Segment) (original attributed : Origin) : Prop where
  traced : ∃ o, s.origin = some o ∧ earlier.originAt? o.line o.column = some original
  column : t.generatedColumn = s.generatedColumn
  origin : t.origin = some attributed

variable {earlier : Lookup} {indentation : Nat}

theorem becomes_of_chainSegment? {s t : Segment}
    (h : chainSegment? earlier indentation s = some t) :
    ∃ original attributed, Becomes earlier s t original attributed ∧ attributed.source = 0 := by
  have hcolumn := generatedColumn_of_chainSegment? h
  rw [chainSegment?_eq] at h
  obtain ⟨attributed, hattributed, rfl⟩ := Option.map_eq_some_iff.1 h
  obtain ⟨o, ho, hthrough⟩ := Option.bind_eq_some_iff.1 hattributed
  obtain ⟨original, horiginal, rfl⟩ := Option.map_eq_some_iff.1 hthrough
  exact ⟨original, _, ⟨⟨o, ho, horiginal⟩, hcolumn, rfl⟩, rfl⟩

theorem forall₂_filter_filterMap {α β : Type} {f : α → Option β} {relation : α → β → Prop}
    (h : ∀ a b, f a = some b → relation a b) (l : List α) :
    List.Forall₂ relation (l.filter fun a => (f a).isSome) (l.filterMap f) := by
  induction l with
  | nil => exact .nil
  | cons a l ih =>
    cases hf : f a with
    | none => simpa [hf] using ih
    | some b => simpa [hf] using ⟨h a b hf, ih⟩

/-- The chained segments are, one by one, what the resolvable segments of the later map became. -/
theorem forall₂_resolvable_chainMappings {relation : Segment → Segment → Prop}
    (h : ∀ s t, chainSegment? earlier indentation s = some t → relation s t) (later : Mappings) :
    List.Forall₂ (List.Forall₂ relation) (resolvable earlier later)
      (chainMappings earlier indentation later) := by
  rw [resolvable, chainMappings, List.forall₂_map_left_iff, List.forall₂_map_right_iff,
    List.forall₂_same]
  intro line _
  have hline := forall₂_filter_filterMap h line
  simpa only [isSome_chainSegment?] using hline

theorem source_lt_of_originAt? {sources : List String} {m : Mappings}
    (h : SourcesWithin sources m) {line column : Nat} {o : Origin}
    (ho : (Lookup.ofMappings m).originAt? line column = some o) : o.source < sources.length := by
  obtain ⟨segments, hsegments, s, hs, hso⟩ := Lookup.exists_segment_of_originAt? ho
  exact h segments hsegments s hs o hso

/-- A chained segment is attributed to the first source of the earlier map `a`.  Without a root this
is the file that `a` names for the original place exactly if `a` has the same entry there. -/
structure NamesFirst (join : String → String → String) (a chained : SourceMap)
    (original attributed : Origin) : Prop where
  index : attributed.source = 0
  entry : ∃ first, a.sources[0]? = some first ∧ chained.sources[attributed.source]? = some first
  file : a.sourceRoot = none →
    (chained.fileOf? join attributed.source = a.fileOf? join original.source ↔
      a.sources[0]? = a.sources[original.source]?)

theorem fileOf?_of_no_root {map : SourceMap} (h : map.sourceRoot = none)
    (join : String → String → String) (index : Nat) :
    map.fileOf? join index = map.sources[index]? := by
  simp only [fileOf?, h, Option.map_id']

/-- The segments of a chained map are what the resolvable segments of the later map became, and each
is attributed to the first source of the earlier map. -/
theorem chain_attributes_to_first_source {a b : SourceMap} {ma mb : Mappings} (indentation : Nat)
    (join : String → String → String) (ha : a.decode = .ok ma) (hb : b.decode = .ok mb)
    (hwithin : SourcesWithin a.sources ma) :
    ∃ chained m,
      chain (some a) (some (.map b)) indentation = .ok (some chained) ∧
      chained = ofMappings a.sources a.sourcesContent b.names m ∧
      (Movable (Lookup.ofMappings ma) indentation mb → chained.decode = .ok m) ∧
      List.Forall₂
        (List.Forall₂ fun s t => ∃ original attributed,
          Becomes (Lookup.ofMappings ma) s t original attributed ∧
            NamesFirst join a chained original attributed)
        (resolvable (Lookup.ofMappings ma) mb) m := by
  refine ⟨_, _, chain_eq_ok indentation ha hb, rfl, ?_, ?_⟩
  · intro hmove
    obtain ⟨m, rfl, -, hdecode⟩ := chain_documents ha hb hmove
    exact hdecode
  · refine forall₂_resolvable_chainMappings ?_ mb
    intro s t h
    obtain ⟨original, attributed, hbecomes, hindex⟩ := becomes_of_chainSegment? h
    obtain ⟨o, -, horiginal⟩ := hbecomes.traced
    have hlt : 0 < a.sources.length :=
      Nat.lt_of_le_of_lt (Nat.zero_le _) (source_lt_of_originAt? hwithin horiginal)
    refine ⟨original, attributed, hbecomes, hindex, ?_, ?_⟩
    · rw [hindex]
      exact ⟨a.sources[0], List.getElem?_eq_getElem hlt, List.getElem?_eq_getElem hlt⟩
    · intro hroot
      rw [fileOf?_of_no_root hroot, fileOf?_of_no_root rfl, hindex]
      rfl

/-- A map of two files, whose second segment leads to the second file. -/
def imported : SourceMap := ⟨3, none, none, ["main.scss", "mixins.scss"], [], [], "AAAA,ICAA"⟩

/-- A map of one file below a root. -/
def rooted : SourceMap := ⟨3, none, some "lib/", ["main.scss"], [], [], "AAAA"⟩

theorem decode_imported :
    imported.decode = .ok [[⟨0, some ⟨0, 0, 0, none⟩⟩, ⟨4, some ⟨1, 0, 0, none⟩⟩]] := by decide

theorem lookup_imported :
    Lookup.ofMappings [[⟨0, some ⟨0, 0, 0, none⟩⟩, ⟨4, some ⟨1, 0, 0, none⟩⟩]] =
      ⟨[[⟨0, some ⟨0, 0, 0, none⟩⟩, ⟨4, some ⟨1, 0, 0, none⟩⟩]]⟩ :=
  Lookup.ofMappings_of_sorted (by decide)

theorem decode_rooted : rooted.decode = .ok [[⟨0, some ⟨0, 0, 0, none⟩⟩]] := by decide

theorem chain_attributes_imported :
    ∃ chained m,
      chain (some imported) (some (.map ⟨3, none, none, ["main.css"], [], [], "AAAA,EAAI"⟩)) 2 =
        .ok (some chained) ∧
      chained.decode = .ok m ∧
      List.Forall₂
        (List.Forall₂ fun s t => ∃ original attributed,
          Becomes (Lookup.ofMappings
            [[⟨0, some ⟨0, 0, 0, none⟩⟩, ⟨4, some ⟨1, 0, 0, none⟩⟩]]) s t original attributed ∧
          NamesFirst (· ++ ·) imported chained original attributed)
        [[⟨0, some ⟨0, 0, 0, none⟩⟩, ⟨2, some ⟨0, 0, 4, none⟩⟩]] m := by
  have hb : SourceMap.decode ⟨3, none, none, ["main.css"], [], [], "AAAA,EAAI"⟩ =
      .ok [[⟨0, some ⟨0, 0, 0, none⟩⟩, ⟨2, some ⟨0, 0, 4, none⟩⟩]] := by decide
  obtain ⟨chained, m, hchain, -, hdecode, hsegments⟩ :=
    chain_attributes_to_first_source 2 (· ++ ·) decode_imported hb (by decide)
  have hresolves : resolvable (Lookup.ofMappings
      [[⟨0, some ⟨0, 0, 0, none⟩⟩, ⟨4, some ⟨1, 0, 0, none⟩⟩]])
      [[⟨0, some ⟨0, 0, 0, none⟩⟩, ⟨2, some ⟨0, 0, 4, none⟩⟩]] =
        [[⟨0, some ⟨0, 0, 0, none⟩⟩, ⟨2, some ⟨0, 0, 4, none⟩⟩]] := by
    rw [lookup_imported]
    rfl
  rw [hresolves] at hsegments
  exact ⟨chained, m, hchain, hdecode (movable_of_forall (by decide) _), hsegments⟩

/-- Chaining changes the file that a segment is attributed to. -/
def ChangesFile (join : String → String → String) (a b : SourceMap) (indentation : Nat) : Prop :=
  ∃ ma mb chained m,
    a.decode = .ok ma ∧ SourcesWithin a.sources ma ∧ b.decode = .ok mb ∧
    chain (some a) (some (.map b)) indentation = .ok (some chained) ∧ chained.decode = .ok m ∧
    ∃ line ∈ mb, ∃ s ∈ line, ∃ line' ∈ m, ∃ t ∈ line', ∃ original attributed,
      Becomes (Lookup.ofMappings ma) s t original attributed ∧
        chained.fileOf? join attributed.source ≠ a.fileOf? join original.source

theorem changesFile_of_single {join : String → String → String} {a b : SourceMap}
    {ma : Mappings} {s t : Segment} {original attributed : Origin} (ha : a.decode = .ok ma)
    (hwithin : SourcesWithin a.sources ma) (hb : b.decode = .ok [[s]])
    (hmove : Movable (Lookup.ofMappings ma) indentation [[s]])
    (hmappings : chainMappings (Lookup.ofMappings ma) indentation [[s]] = [[t]])
    (hbecomes : Becomes (Lookup.ofMappings ma) s t original attributed)
    (hfile : (ofMappings a.sources a.sourcesContent b.names [[t]]).fileOf? join attributed.source ≠
      a.fileOf? join original.source) : ChangesFile join a b indentation := by
  obtain ⟨m, rfl, hchain, hdecode⟩ := chain_documents ha hb hmove
  rw [hmappings] at hchain hdecode
  exact ⟨ma, _, _, _, ha, hwithin, hb, hchain, hdecode, _, List.mem_singleton_self _, s,
    List.mem_singleton_self _, _, List.mem_singleton_self _, t, List.mem_singleton_self _, original,
    attributed, hbecomes, hfile⟩

/-- The second of two files becomes the first, and a file below a root loses the root. -/
theorem chain_changes_files :
    ChangesFile (· ++ ·) imported ⟨3, none, none, ["main.css"], [], [], "AAAI"⟩ 0 ∧
      ChangesFile (· ++ ·) rooted ⟨3, none, none, ["main.css"], [], [], "AAAI"⟩ 0 := by
  have hb : SourceMap.decode ⟨3, none, none, ["main.css"], [], [], "AAAI"⟩ =
      .ok [[⟨0, some ⟨0, 0, 4, none⟩⟩]] := by decide
  constructor
  · have hbecomes : Becomes
        (Lookup.ofMappings [[⟨0, some ⟨0, 0, 0, none⟩⟩, ⟨4, some ⟨1, 0, 0, none⟩⟩]])
        ⟨0, some ⟨0, 0, 4, none⟩⟩ ⟨0, some ⟨0, 0, 0, none⟩⟩ ⟨1, 0, 0, none⟩ ⟨0, 0, 0, none⟩ :=
      ⟨⟨_, rfl, by rw [lookup_imported]; rfl⟩, rfl, rfl⟩
    have hmappings : chainMappings
        (Lookup.ofMappings [[⟨0, some ⟨0, 0, 0, none⟩⟩, ⟨4, some ⟨1, 0, 0, none⟩⟩]]) 0
        [[⟨0, some ⟨0, 0, 4, none⟩⟩]] = [[⟨0, some ⟨0, 0, 0, none⟩⟩]] := by
      rw [lookup_imported]
      rfl
    exact changesFile_of_single decode_imported (by decide) hb (movable_of_forall (by decide) _)
      hmappings hbecomes (by decide)
  · have hbecomes : Becomes (Lookup.ofMappings [[⟨0, some ⟨0, 0, 0, none⟩⟩]])
        ⟨0, some ⟨0, 0, 4, none⟩⟩ ⟨0, some ⟨0, 0, 0, none⟩⟩ ⟨0, 0, 0, none⟩ ⟨0, 0, 0, none⟩ :=
      ⟨⟨_, rfl, by cbv⟩, rfl, rfl⟩
    have hmappings : chainMappings (Lookup.ofMappings [[⟨0, some ⟨0, 0, 0, none⟩⟩]]) 0
        [[⟨0, some ⟨0, 0, 4, none⟩⟩]] = [[⟨0, some ⟨0, 0, 0, none⟩⟩]] := by cbv
    exact changesFile_of_single decode_rooted (by decide) hb (movable_of_forall (by decide) _)
      hmappings hbecomes (by decide)

end SourceMap
end Inlay
