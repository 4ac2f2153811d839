import Inlay.SourceMap.Chain
import Inlay.Proofs.SourceMap.Nearest
import Inlay.Proofs.SourceMap.RoundTrip

/-!
# Chaining as composition of lookups

A chained map leads through the intermediate text: looking a position up in it is looking it up in
the later map and what is found in the earlier one (`originAt?_chain`).  The later map counts only
with the segments that resolve, because chaining leaves the others out and a lookup then falls back
to a segment before them.

For the same reason the two ways to chain three maps differ: the left fold keeps every segment that
the right fold keeps, with the same origin, and it may keep more (`chain_left_right`).  When every
segment of the map in the middle resolves, both ways give the same document.

Both theorems rest on `chain_documents`, which says that chaining two documents succeeds and which
mappings its result decodes to, and on the laws of the nearest segment.
-/

namespace Inlay
namespace SourceMap

/-- What an intermediate place becomes by looking it up in the earlier map.  The name stays that of
the later map. -/
def through (earlier : Lookup) (indentation : Nat) (intermediate : Origin) : Option Origin :=
  (earlier.originAt? intermediate.line intermediate.column).map fun original =>
    ⟨0, original.line, original.column + indentation, intermediate.name⟩

/-- Whether a segment has an intermediate place and the earlier map resolves it. -/
def resolves (earlier : Lookup) (s : Segment) : Bool :=
  (s.origin.bind fun o => earlier.originAt? o.line o.column).isSome

/-- The later map with only the segments that resolve. -/
def resolvable (earlier : Lookup) (later : Mappings) : Mappings :=
  later.map fun line => line.filter (resolves earlier)

/-- No original column that a segment of the later map reaches is moved out of its range. -/
def Movable (earlier : Lookup) (indentation : Nat) (later : Mappings) : Prop :=
  ∀ line ∈ later, ∀ s ∈ line, ∀ o ∈ s.origin, ∀ original ∈ earlier.originAt? o.line o.column,
    original.column + indentation < Segment.fieldLimit

/-! ## One segment -/

theorem chainSegment?_eq (earlier : Lookup) (indentation : Nat) (s : Segment) :
    chainSegment? earlier indentation s =
      (s.origin.bind (through earlier indentation)).map fun o => ⟨s.generatedColumn, some o⟩ := by
  unfold chainSegment? through
  cases s.origin with
  | none => rfl
  | some o =>
    simp only [Option.bind_eq_bind, Option.bind_some]
    cases earlier.originAt? o.line o.column <;> rfl

theorem generatedColumn_of_chainSegment? {earlier : Lookup} {indentation : Nat} {s t : Segment}
    (h : chainSegment? earlier indentation s = some t) : t.generatedColumn = s.generatedColumn := by
  rw [chainSegment?_eq] at h
  obtain ⟨o, -, rfl⟩ := Option.map_eq_some_iff.1 h
  rfl

theorem isSome_chainSegment? (earlier : Lookup) (indentation : Nat) (s : Segment) :
    (chainSegment? earlier indentation s).isSome = resolves earlier s := by
  rw [chainSegment?_eq, resolves, Option.isSome_map]
  cases s.origin with
  | none => rfl
  | some o => simp [through]

theorem origin_chainSegment? (earlier : Lookup) (indentation : Nat) (s : Segment) :
    (chainSegment? earlier indentation s).bind (·.origin) =
      s.origin.bind (through earlier indentation) := by
  rw [chainSegment?_eq]
  cases s.origin.bind (through earlier indentation) <;> rfl

/-! ## Whole mappings -/

/-- A lookup in chained mappings goes on from the resolvable part of the later map into the earlier
one. -/
theorem originAt?_chainMappings (earlier : Lookup) (indentation : Nat) (later : Mappings)
    (line column : Nat) :
    (Lookup.ofMappings (chainMappings earlier indentation later)).originAt? line column =
      ((Lookup.ofMappings (resolvable earlier later)).originAt? line column).bind
        (through earlier indentation) := by
  rw [Lookup.originAt?_ofMappings, Lookup.originAt?_ofMappings, chainMappings, resolvable,
    List.getElem?_map, List.getElem?_map]
  cases later[line]? with
  | none => rfl
  | some segments =>
    simp only [Option.map_some, Option.bind_some]
    rw [Lookup.segmentAt?_sortLine_filterMap fun s t h => generatedColumn_of_chainSegment? h]
    simp only [isSome_chainSegment?]
    cases Lookup.segmentAt? (Lookup.sortLine (segments.filter (resolves earlier))) column with
    | none => rfl
    | some s => exact origin_chainSegment? earlier indentation s

theorem resolvable_eq_self {earlier : Lookup} {later : Mappings}
    (h : ∀ line ∈ later, ∀ s ∈ line, resolves earlier s) : resolvable earlier later = later := by
  have hline : ∀ line ∈ later, line.filter (resolves earlier) = line :=
    fun line hmem => List.filter_eq_self.2 (h line hmem)
  rw [resolvable, List.map_congr_left hline, List.map_id']

theorem originAt?_resolvable {earlier : Lookup} {later : Mappings} {line column : Nat} {o : Origin}
    (h : (Lookup.ofMappings later).originAt? line column = some o)
    (ho : (earlier.originAt? o.line o.column).isSome) :
    (Lookup.ofMappings (resolvable earlier later)).originAt? line column = some o := by
  rw [Lookup.originAt?_ofMappings] at h ⊢
  obtain ⟨segments, hline, h⟩ := Option.bind_eq_some_iff.1 h
  obtain ⟨s, hs, horigin⟩ := Option.bind_eq_some_iff.1 h
  have hkeep : resolves earlier s := by
    rw [resolves, horigin]
    exact ho
  have hnearest := (Lookup.segmentAt?_sortLine_eq_some_iff.1 hs).filter hkeep
  rw [resolvable, List.getElem?_map, hline]
  show (Lookup.segmentAt? (Lookup.sortLine (segments.filter (resolves earlier))) column).bind _ = _
  rw [Lookup.segmentAt?_sortLine_eq_some_iff.2 hnearest]
  exact horigin

theorem through_fits {m : Mappings} (hm : m.Fits) {indentation : Nat} {o t : Origin}
    (hmove : ∀ original ∈ (Lookup.ofMappings m).originAt? o.line o.column,
      original.column + indentation < Segment.fieldLimit)
    (hname : ∀ n, o.name = some n → n < Segment.fieldLimit)
    (h : through (Lookup.ofMappings m) indentation o = some t) : t.Fits := by
  obtain ⟨original, horiginal, rfl⟩ := Option.map_eq_some_iff.1 h
  obtain ⟨line, hline, s, hs, ho⟩ := Lookup.exists_segment_of_originAt? horiginal
  obtain ⟨-, hline, -, -⟩ := (hm line hline s hs).2 original ho
  have hzero : 0 < Segment.fieldLimit := by decide
  exact ⟨hzero, hline, hmove original horiginal, hname⟩

theorem chainMappings_fits {ma mb : Mappings} {indentation : Nat} (ha : ma.Fits) (hb : mb.Fits)
    (hmove : Movable (Lookup.ofMappings ma) indentation mb) :
    (chainMappings (Lookup.ofMappings ma) indentation mb).Fits := by
  intro line hline t ht
  obtain ⟨segments, hsegments, rfl⟩ := List.mem_map.1 hline
  obtain ⟨s, hs, h⟩ := List.mem_filterMap.1 ht
  have hfits := hb segments hsegments s hs
  rw [chainSegment?_eq] at h
  obtain ⟨o, ho, rfl⟩ := Option.map_eq_some_iff.1 h
  obtain ⟨intermediate, hintermediate, ho⟩ := Option.bind_eq_some_iff.1 ho
  obtain ⟨-, -, -, hname⟩ := hfits.2 intermediate hintermediate
  refine ⟨hfits.1, ?_⟩
  intro o' ho'
  obtain rfl : o = o' := Option.some.inj ho'
  exact through_fits ha (hmove segments hsegments s hs intermediate hintermediate) hname ho

theorem chain_eq_ok {a b : SourceMap} {ma mb : Mappings} (indentation : Nat)
    (ha : a.decode = .ok ma) (hb : b.decode = .ok mb) :
    chain (some a) (some (.map b)) indentation =
      .ok (some (ofMappings a.sources a.sourcesContent b.names
        (chainMappings (Lookup.ofMappings ma) indentation mb))) := by
  have hlookup : Lookup.ofMap a = .ok (Lookup.ofMappings ma) := by
    rw [Lookup.ofMap, ha]
    rfl
  show (compose a b indentation >>= _) = _
  rw [compose, hlookup, ok_bind, hb]
  rfl

/-- Chaining two documents that decode succeeds, and gives a document that decodes to the chained
mappings. -/
theorem chain_documents {a b : SourceMap} {ma mb : Mappings} {indentation : Nat}
    (ha : a.decode = .ok ma) (hb : b.decode = .ok mb)
    (hmove : Movable (Lookup.ofMappings ma) indentation mb) :
    ∃ m, m = chainMappings (Lookup.ofMappings ma) indentation mb ∧
      chain (some a) (some (.map b)) indentation =
        .ok (some (ofMappings a.sources a.sourcesContent b.names m)) ∧
      (ofMappings a.sources a.sourcesContent b.names m).decode = .ok m := by
  refine ⟨_, rfl, chain_eq_ok indentation ha hb, ?_⟩
  refine decode_ofMappings _ _ _ ?_ ?_
  · rw [chainMappings, ne_eq, List.map_eq_nil_iff]
    exact Mappings.ne_nil_of_decode hb
  · exact chainMappings_fits (Mappings.fits_of_decode ha) (Mappings.fits_of_decode hb) hmove

/-! ## Lookups in a chained map -/

/-- Moving is possible when it keeps every original column of the earlier map in range. -/
theorem movable_of_forall {ma : Mappings} {indentation : Nat}
    (h : ∀ line ∈ ma, ∀ s ∈ line, ∀ o ∈ s.origin, o.column + indentation < Segment.fieldLimit)
    (later : Mappings) : Movable (Lookup.ofMappings ma) indentation later := by
  intro _ _ _ _ _ _ original horiginal
  obtain ⟨line, hline, s, hs, ho⟩ := Lookup.exists_segment_of_originAt? horiginal
  exact h line hline s hs original ho

/-- Looking a position up in a chained map succeeds exactly when looking it up in the resolvable
part of the later map and then in the earlier one does, and gives the line of the earlier map, its
column moved by the indentation, and the name of the later map. -/
theorem originAt?_chain {a b : SourceMap} {ma mb : Mappings} {indentation : Nat}
    (ha : a.decode = .ok ma) (hb : b.decode = .ok mb)
    (hmove : Movable (Lookup.ofMappings ma) indentation mb) :
    ∃ chained lookup,
      chain (some a) (some (.map b)) indentation = .ok (some chained) ∧
      Lookup.ofMap chained = .ok lookup ∧
      (∀ line column, lookup.originAt? line column =
        ((Lookup.ofMappings (resolvable (Lookup.ofMappings ma) mb)).originAt? line column).bind
          (through (Lookup.ofMappings ma) indentation)) ∧
      ((∀ line ∈ mb, ∀ s ∈ line, resolves (Lookup.ofMappings ma) s) →
        ∀ line column, lookup.originAt? line column =
          ((Lookup.ofMappings mb).originAt? line column).bind
            (through (Lookup.ofMappings ma) indentation)) := by
  obtain ⟨m, rfl, hchain, hdecode⟩ := chain_documents ha hb hmove
  have hlookup := originAt?_chainMappings (Lookup.ofMappings ma) indentation mb
  refine ⟨_, Lookup.ofMappings _, hchain, ?_, hlookup, ?_⟩
  · rw [Lookup.ofMap, hdecode]
    rfl
  · intro hall line column
    rw [hlookup, resolvable_eq_self hall]

/-- The segment before `GAAL` is found in its place, because `GAAL` does not resolve. -/
theorem originAt?_chain_falls_back :
    ∃ chained lookup,
      chain (some ⟨3, none, none, ["a"], [], [], "IAEG"⟩)
        (some (.map ⟨3, none, none, ["b"], [], [], "A,EAAM,GAAL"⟩)) 2 = .ok (some chained) ∧
      Lookup.ofMap chained = .ok lookup ∧ lookup.originAt? 0 7 = some ⟨0, 2, 5, none⟩ := by
  have ha : SourceMap.decode ⟨3, none, none, ["a"], [], [], "IAEG"⟩ =
      .ok [[⟨4, some ⟨0, 2, 3, none⟩⟩]] := by decide
  have hb : SourceMap.decode ⟨3, none, none, ["b"], [], [], "A,EAAM,GAAL"⟩ =
      .ok [[⟨0, none⟩, ⟨2, some ⟨0, 0, 6, none⟩⟩, ⟨5, some ⟨0, 0, 1, none⟩⟩]] := by decide
  have hmove : Movable (Lookup.ofMappings [[⟨4, some ⟨0, 2, 3, none⟩⟩]]) 2
      [[⟨0, none⟩, ⟨2, some ⟨0, 0, 6, none⟩⟩, ⟨5, some ⟨0, 0, 1, none⟩⟩]] :=
    movable_of_forall (by decide) _
  obtain ⟨chained, lookup, hchain, hlookup, horigin, -⟩ := originAt?_chain ha hb hmove
  refine ⟨chained, lookup, hchain, hlookup, ?_⟩
  rw [horigin]
  cbv

/-! ## Three maps -/

theorem through_chained {earlier later chained : Lookup} {indentation : Nat} {o : Origin}
    (h : chained.originAt? o.line o.column =
      (later.originAt? o.line o.column).bind (through earlier indentation)) :
    through chained 0 o = (through later 0 o).bind (through earlier indentation) := by
  rw [through, h, through]
  cases later.originAt? o.line o.column with
  | none => rfl
  | some p =>
    simp only [Option.bind_some, Option.map_some, through, Nat.add_zero]
    cases earlier.originAt? p.line p.column <;> rfl

theorem chainMappings_twice (first second : Lookup) (i j : Nat) (m : Mappings) :
    chainMappings first i (chainMappings second j m) =
      m.map fun line => line.filterMap fun s =>
        (chainSegment? second j s).bind (chainSegment? first i) := by
  simp only [chainMappings, List.map_map, Function.comp_def, List.filterMap_filterMap]

/-- Chaining with a chained map is chaining twice, when the map in the middle is cut down to what
resolves. -/
theorem chainMappings_chainMappings (earlier : Lookup) (indentation : Nat) (mb mc : Mappings) :
    chainMappings (Lookup.ofMappings (chainMappings earlier indentation mb)) 0 mc =
      chainMappings earlier indentation
        (chainMappings (Lookup.ofMappings (resolvable earlier mb)) 0 mc) := by
  have hsegment : ∀ s,
      chainSegment? (Lookup.ofMappings (chainMappings earlier indentation mb)) 0 s =
        (chainSegment? (Lookup.ofMappings (resolvable earlier mb)) 0 s).bind
          (chainSegment? earlier indentation) := by
    intro s
    rw [chainSegment?_eq, chainSegment?_eq]
    cases s.origin with
    | none => rfl
    | some o =>
      rw [Option.bind_some, Option.bind_some,
        through_chained (originAt?_chainMappings earlier indentation mb o.line o.column)]
      cases through (Lookup.ofMappings (resolvable earlier mb)) 0 o with
      | none => rfl
      | some p =>
        rw [Option.map_some, Option.bind_some, Option.bind_some, chainSegment?_eq]
        rfl
  rw [chainMappings_twice]
  simp only [← hsegment]
  rfl

theorem filterMap_sublist_filterMap {α β : Type} {f g : α → Option β}
    (h : ∀ a b, f a = some b → g a = some b) (l : List α) :
    (l.filterMap f).Sublist (l.filterMap g) := by
  induction l with
  | nil => exact .slnil
  | cons a l ih =>
    cases hf : f a with
    | none =>
      rw [List.filterMap_cons_none hf]
      cases hg : g a with
      | none => rw [List.filterMap_cons_none hg]; exact ih
      | some b => rw [List.filterMap_cons_some hg]; exact ih.cons b
    | some b =>
      rw [List.filterMap_cons_some hf, List.filterMap_cons_some (h a b hf)]
      exact ih.cons_cons b

/-- A segment that chains through the whole map in the middle chains through its resolvable part in
the same way. -/
theorem chain_resolvable_of_chain {earlier : Lookup} {indentation : Nat} {mb : Mappings}
    {s t : Segment}
    (h : (chainSegment? (Lookup.ofMappings mb) 0 s).bind (chainSegment? earlier indentation) =
      some t) :
    (chainSegment? (Lookup.ofMappings (resolvable earlier mb)) 0 s).bind
      (chainSegment? earlier indentation) = some t := by
  obtain ⟨u, hu, ht⟩ := Option.bind_eq_some_iff.1 h
  have hresolves : resolves earlier u := by
    rw [← isSome_chainSegment? earlier indentation, ht]
    rfl
  rw [chainSegment?_eq] at hu
  obtain ⟨v, hv, rfl⟩ := Option.map_eq_some_iff.1 hu
  obtain ⟨o, ho, hv⟩ := Option.bind_eq_some_iff.1 hv
  obtain ⟨p, hp, rfl⟩ := Option.map_eq_some_iff.1 hv
  have hkept := originAt?_resolvable hp hresolves
  rw [chainSegment?_eq, ho, Option.bind_some, through, hkept]
  exact ht

/-- On every line the right fold has a part of the segments of the left fold. -/
theorem right_sublist_left (earlier : Lookup) (indentation : Nat) (mb mc : Mappings) :
    List.Forall₂ List.Sublist
      (chainMappings earlier indentation (chainMappings (Lookup.ofMappings mb) 0 mc))
      (chainMappings (Lookup.ofMappings (chainMappings earlier indentation mb)) 0 mc) := by
  rw [chainMappings_chainMappings, chainMappings_twice, chainMappings_twice,
    List.forall₂_map_left_iff, List.forall₂_map_right_iff, List.forall₂_same]
  intro line _
  exact filterMap_sublist_filterMap (fun s t h => chain_resolvable_of_chain h) line

theorem movable_zero {ma : Mappings} (ha : ma.Fits) (later : Mappings) :
    Movable (Lookup.ofMappings ma) 0 later := by
  refine movable_of_forall ?_ later
  intro line hline s hs o ho
  exact ((ha line hline s hs).2 o ho).2.2.1

/-- The intermediate places of the last two maps chained are among those of the map in the
middle. -/
theorem movable_chainMappings {earlier : Lookup} {indentation : Nat} {mb : Mappings}
    (h : Movable earlier indentation mb) (mc : Mappings) :
    Movable earlier indentation (chainMappings (Lookup.ofMappings mb) 0 mc) := by
  intro line hline t ht o ho original horiginal
  obtain ⟨segments, -, rfl⟩ := List.mem_map.1 hline
  obtain ⟨s, -, hs⟩ := List.mem_filterMap.1 ht
  rw [chainSegment?_eq] at hs
  obtain ⟨v, hv, rfl⟩ := Option.map_eq_some_iff.1 hs
  obtain rfl : v = o := Option.some.inj ho
  obtain ⟨intermediate, -, hv⟩ := Option.bind_eq_some_iff.1 hv
  obtain ⟨p, hp, rfl⟩ := Option.map_eq_some_iff.1 hv
  obtain ⟨row, hrow, u, hu, hup⟩ := Lookup.exists_segment_of_originAt? hp
  exact h row hrow u hu p hup original horiginal

/-- Three maps can be chained from the left and from the right.  Both results have the same header
and the same lines.  The left fold keeps every segment that the right fold keeps, with its origin,
and when every segment of the map in the middle resolves the results are the same. -/
theorem chain_left_right {a b c : SourceMap} {ma mb mc : Mappings} {indentation : Nat}
    (ha : a.decode = .ok ma) (hb : b.decode = .ok mb) (hc : c.decode = .ok mc)
    (hmove : Movable (Lookup.ofMappings ma) indentation mb) :
    ∃ ab bc left right ml mr,
      chain (some a) (some (.map b)) indentation = .ok (some ab) ∧
      chain (some ab) (some (.map c)) 0 = .ok (some left) ∧
      chain (some b) (some (.map c)) 0 = .ok (some bc) ∧
      chain (some a) (some (.map bc)) indentation = .ok (some right) ∧
      left.version = right.version ∧ left.sources = right.sources ∧
      left.sourcesContent = right.sourcesContent ∧ left.names = right.names ∧
      left.decode = .ok ml ∧ right.decode = .ok mr ∧ ml.length = mr.length ∧
      List.Forall₂ List.Sublist mr ml ∧
      ((∀ line ∈ mb, ∀ s ∈ line, resolves (Lookup.ofMappings ma) s) → left = right) := by
  have hfitsb := Mappings.fits_of_decode hb
  have hfitsab := chainMappings_fits (Mappings.fits_of_decode ha) hfitsb hmove
  obtain ⟨mab, rfl, hab, hdab⟩ := chain_documents ha hb hmove
  obtain ⟨ml, hml, hleft, hdl⟩ := chain_documents hdab hc (movable_zero hfitsab mc)
  obtain ⟨mbc, rfl, hbc, hdbc⟩ := chain_documents hb hc (movable_zero hfitsb mc)
  obtain ⟨mr, hmr, hright, hdr⟩ := chain_documents ha hdbc (movable_chainMappings hmove mc)
  have hsub : List.Forall₂ List.Sublist mr ml := by
    rw [hml, hmr]
    exact right_sublist_left ..
  refine ⟨_, _, _, _, ml, mr, hab, hleft, hbc, hright, rfl, rfl, rfl, rfl, hdl, hdr,
    hsub.length_eq.symm, hsub, ?_⟩
  intro hall
  have hsame : ml = mr := by
    rw [hml, hmr, chainMappings_chainMappings, resolvable_eq_self hall]
  rw [hsame]
  rfl

/-- Both folds of three maps, where the map in the middle has segments that do not resolve. -/
theorem chain_left_right_falls_back :
    ∃ ab bc left right ml mr,
      chain (some ⟨3, none, none, ["a"], [], [], "IAEG"⟩)
        (some (.map ⟨3, none, none, ["b"], [], [], "A,EAAM,GAAL"⟩)) 2 = .ok (some ab) ∧
      chain (some ab) (some (.map ⟨3, none, none, ["c"], [], [], "OAAO;AAAC"⟩)) 0 =
        .ok (some left) ∧
      chain (some ⟨3, none, none, ["b"], [], [], "A,EAAM,GAAL"⟩)
        (some (.map ⟨3, none, none, ["c"], [], [], "OAAO;AAAC"⟩)) 0 = .ok (some bc) ∧
      chain (some ⟨3, none, none, ["a"], [], [], "IAEG"⟩) (some (.map bc)) 2 =
        .ok (some right) ∧
      left.decode = .ok ml ∧ right.decode = .ok mr ∧ List.Forall₂ List.Sublist mr ml := by
  have ha : SourceMap.decode ⟨3, none, none, ["a"], [], [], "IAEG"⟩ =
      .ok [[⟨4, some ⟨0, 2, 3, none⟩⟩]] := by decide
  have hb : SourceMap.decode ⟨3, none, none, ["b"], [], [], "A,EAAM,GAAL"⟩ =
      .ok [[⟨0, none⟩, ⟨2, some ⟨0, 0, 6, none⟩⟩, ⟨5, some ⟨0, 0, 1, none⟩⟩]] := by decide
  have hc : SourceMap.decode ⟨3, none, none, ["c"], [], [], "OAAO;AAAC"⟩ =
      .ok [[⟨7, some ⟨0, 0, 7, none⟩⟩], [⟨0, some ⟨0, 0, 8, none⟩⟩]] := by decide
  have hmove : Movable (Lookup.ofMappings [[⟨4, some ⟨0, 2, 3, none⟩⟩]]) 2
      [[⟨0, none⟩, ⟨2, some ⟨0, 0, 6, none⟩⟩, ⟨5, some ⟨0, 0, 1, none⟩⟩]] :=
    movable_of_forall (by decide) _
  obtain ⟨ab, bc, left, right, ml, mr, hab, hleft, hbc, hright, -, -, -, -, hl, hr, -, hsub, -⟩ :=
    chain_left_right ha hb hc hmove
  exact ⟨ab, bc, left, right, ml, mr, hab, hleft, hbc, hright, hl, hr, hsub⟩

end SourceMap
end Inlay
