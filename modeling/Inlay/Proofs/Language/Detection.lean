import Inlay.Language.Detection
import Inlay.Proofs.Files.Path
import Inlay.Proofs.Outcome
import Inlay.Proofs.Text.Occurrences

/-!
# Which language a tag declares

The first of the attributes `lang`, `type` and `src` that is there decides (`writtenName_eq`):
`lang` names the language itself, `type` the media type (`MediaName`), and `src` a file, of which
the extension counts unless the address is a remote one (`HasExtension`).  For each of them the
function that takes the text apart is shown to follow the relation that says what is to come out,
and `declared_by_first_attribute` puts them together.
-/

namespace Inlay
namespace Language

variable {attributes : Attributes} {address type name : String}

/-! ## Media types -/

/-- The language that a media type names. -/
inductive MediaName : String → String → Prop
  | text (name : String) : MediaName ("text/" ++ name) name
  | application (name : String) : MediaName ("application/" ++ name) name
  | bare {type : String} (htext : ∀ rest, type ≠ "text/" ++ rest)
      (happlication : ∀ rest, type ≠ "application/" ++ rest) : MediaName type type

theorem eq_append_of_dropFront? {front : String} {rest : List Char}
    (h : Text.dropFront? front.toList type.toList = some rest) :
    type = front ++ String.ofList rest := by
  rw [← String.toList_inj, String.toList_append, String.toList_ofList]
  exact Text.dropFront?_eq_some_iff.1 h

theorem dropFront?_append (front rest : String) :
    Text.dropFront? front.toList (front ++ rest).toList = some rest.toList :=
  Text.dropFront?_eq_some_iff.2 String.toList_append

theorem mediaName_mediaSubtype (type : String) : MediaName type (mediaSubtype type) := by
  unfold mediaSubtype
  split
  case h_1 rest htext => exact eq_append_of_dropFront? htext ▸ .text (String.ofList rest)
  case h_2 htext =>
    split
    case h_1 rest happlication =>
      exact eq_append_of_dropFront? happlication ▸ .application (String.ofList rest)
    case h_2 happlication =>
      refine .bare ?_ ?_
      · rintro rest rfl
        rw [dropFront?_append] at htext
        cases htext
      · rintro rest rfl
        rw [dropFront?_append] at happlication
        cases happlication

theorem mediaSubtype_eq_of_mediaName (h : MediaName type name) : mediaSubtype type = name := by
  cases h with
  | text =>
    rw [mediaSubtype, dropFront?_append]
    exact String.ofList_toList
  | application =>
    have hother : Text.dropFront? "text/".toList ("application/" ++ name).toList = none := by
      rw [String.toList_append]
      rfl
    rw [mediaSubtype, hother, dropFront?_append]
    exact String.ofList_toList
  | bare htext happlication =>
    unfold mediaSubtype
    split
    case h_1 rest hfront => exact absurd (eq_append_of_dropFront? hfront) (htext _)
    case h_2 =>
      split
      case h_1 rest hfront => exact absurd (eq_append_of_dropFront? hfront) (happlication _)
      case h_2 => rfl

theorem mediaSubtype_eq_iff : mediaSubtype type = name ↔ MediaName type name :=
  ⟨fun h => h ▸ mediaName_mediaSubtype type, mediaSubtype_eq_of_mediaName⟩

/-! ## Addresses -/

/-- An address that names a scheme or, behind two slashes, a host. -/
def IsRemote (address : List Char) : Prop :=
  ['/', '/'] <+: address ∨ ∃ scheme rest, address = scheme ++ ':' :: rest ∧ ':' ∉ scheme ∧
    scheme ≠ [] ∧ ∀ c ∈ scheme, ('a' ≤ c ∧ c ≤ 'z') ∨ ('A' ≤ c ∧ c ≤ 'Z')

theorem hasScheme_eq_true_iff :
    hasScheme address = true ↔ ∃ scheme rest, address.toList = scheme ++ ':' :: rest ∧
      ':' ∉ scheme ∧ scheme ≠ [] ∧ ∀ c ∈ scheme, ('a' ≤ c ∧ c ≤ 'z') ∨ ('A' ≤ c ∧ c ≤ 'Z') := by
  have hletters : ∀ scheme : List Char, (!scheme.isEmpty && scheme.all isLetter) = true ↔
      scheme ≠ [] ∧ ∀ c ∈ scheme, ('a' ≤ c ∧ c ≤ 'z') ∨ ('A' ≤ c ∧ c ≤ 'Z') := by
    simp [isLetter]
  unfold hasScheme
  split
  case h_1 scheme rest hcut =>
    rw [hletters]
    obtain ⟨hsplit, hscheme⟩ := Text.cutAtFirst?_eq_some_iff.1 hcut
    constructor
    · exact fun h => ⟨scheme, rest, hsplit, hscheme, h⟩
    · rintro ⟨scheme', rest', hsplit', hscheme', h⟩
      rw [Text.cutAtFirst?_eq_some_iff.2 ⟨hsplit', hscheme'⟩] at hcut
      obtain ⟨rfl, rfl⟩ := Prod.mk.inj (Option.some.inj hcut)
      exact h
  case h_2 hcut =>
    refine iff_of_false Bool.false_ne_true ?_
    rintro ⟨scheme, rest, hsplit, hscheme, -⟩
    rw [Text.cutAtFirst?_eq_some_iff.2 ⟨hsplit, hscheme⟩] at hcut
    cases hcut

theorem isRemote_iff :
    (Text.dropFront? ['/', '/'] address.toList).isSome || hasScheme address ↔
      IsRemote address.toList := by
  have hslashes : (Text.dropFront? ['/', '/'] address.toList).isSome = true ↔
      ['/', '/'] <+: address.toList := by
    rw [Option.isSome_iff_exists]
    exact exists_congr fun rest => Text.dropFront?_eq_some_iff.trans eq_comm
  rw [Bool.or_eq_true, hslashes, hasScheme_eq_true_iff, IsRemote]

/-- The text behind the last point of the file that a local address names. -/
structure HasExtension (address extension : List Char) : Prop where
  not_isRemote : ¬ IsRemote address
  named : ∃ stem, Path.LastComponent address (stem ++ '.' :: extension) ∧
    stem ++ '.' :: extension ≠ ['.', '.']
  last : '.' ∉ extension

theorem extension?_eq_some_iff :
    extension? address = some name ↔ HasExtension address.toList name.toList := by
  by_cases hremote : IsRemote address.toList
  · rw [extension?, if_pos (isRemote_iff.2 hremote)]
    exact iff_of_false (Option.some_ne_none name).symm fun h => h.not_isRemote hremote
  · rw [extension?, if_neg (isRemote_iff.not.2 hremote)]
    simp only [Option.bind_eq_bind, Option.bind_eq_some_iff, Path.fileName?_eq_some_iff,
      Text.cutAtLast?_eq_some_iff, Prod.exists, Option.pure_def, Option.some.injEq]
    constructor
    · rintro ⟨file, ⟨hfile, hup⟩, stem, extension, ⟨hsplit, hlast⟩, rfl⟩
      rw [hsplit] at hfile
      refine ⟨hremote, ⟨stem, ?_, ?_⟩, ?_⟩
      · rwa [String.toList_ofList]
      · rw [String.toList_ofList, ← hsplit]
        exact fun heq => hup (String.toList_inj.1 heq)
      · rwa [String.toList_ofList]
    · rintro ⟨-, ⟨stem, hfile, hup⟩, hlast⟩
      refine ⟨String.ofList (stem ++ '.' :: name.toList), ⟨?_, ?_⟩, stem, name.toList, ⟨?_, hlast⟩,
        String.ofList_toList⟩
      · rwa [String.toList_ofList]
      · exact fun heq => hup (by rw [← String.toList_ofList (l := stem ++ _), heq]; rfl)
      · exact String.toList_ofList

/-- An address without an extension: it is remote, or its last component leads upwards or has no
point, if there is one at all. -/
theorem extension?_eq_none_iff :
    extension? address = none ↔ IsRemote address.toList ∨
      ∀ component, Path.LastComponent address.toList component →
        component = ['.', '.'] ∨ '.' ∉ component := by
  rw [Option.eq_none_iff_forall_ne_some]
  constructor
  · intro h
    by_cases hremote : IsRemote address.toList
    · exact .inl hremote
    · refine .inr fun component hcomponent => ?_
      by_cases hpoint : '.' ∈ component
      · obtain ⟨stem, extension, rfl, hlast⟩ := Text.exists_last_of_mem hpoint
        refine .inl (Classical.byContradiction fun hup => ?_)
        refine h (String.ofList extension) (extension?_eq_some_iff.2 ?_)
        rw [String.toList_ofList]
        exact ⟨hremote, ⟨stem, hcomponent, hup⟩, hlast⟩
      · exact .inr hpoint
  · intro h name hname
    obtain ⟨hlocal, ⟨stem, hcomponent, hup⟩, -⟩ := extension?_eq_some_iff.1 hname
    rcases (h.resolve_left hlocal) _ hcomponent with heq | hpoint
    · exact hup heq
    · exact hpoint (List.mem_append_right _ List.mem_cons_self)

/-! ## Attributes -/

/-- The name of the language as attributes write it. -/
inductive Writes (attributes : Attributes) : String → Prop
  | lang {name : String} (h : attributes.get? "lang" = some (.text name)) : Writes attributes name
  | type {type name : String} (hlang : attributes.get? "lang" = none)
      (htype : attributes.get? "type" = some (.text type)) (h : MediaName type name) :
      Writes attributes name
  | src {address name : String} (hlang : attributes.get? "lang" = none)
      (htype : attributes.get? "type" = none)
      (hsrc : attributes.get? "src" = some (.text address))
      (h : HasExtension address.toList name.toList) : Writes attributes name

/-- Attributes that are the same as far as they are looked at: a lower one only if the higher ones
are missing. -/
structure DecideAlike (a b : Attributes) : Prop where
  lang : a.get? "lang" = b.get? "lang"
  type : a.get? "lang" = none → a.get? "type" = b.get? "type"
  src : a.get? "lang" = none → a.get? "type" = none → a.get? "src" = b.get? "src"

theorem writtenName_eq (attributes : Attributes) :
    writtenName attributes =
      match attributes.get? "lang" with
      | some (.text name) => .ok (some name)
      | some (.flag _) => .error (.invalidAttribute "lang")
      | none =>
        match attributes.get? "type" with
        | some (.text type) => .ok (some (mediaSubtype type))
        | some (.flag _) => .error (.invalidAttribute "type")
        | none => .ok (((attributes.get? "src").bind (·.text?)).bind extension?) := by
  unfold writtenName Attributes.textOf
  rcases attributes.get? "lang" with _ | flag | name
  · rcases attributes.get? "type" with _ | flag | type <;> rfl
  · rfl
  · rfl

theorem writtenName_eq_error_iff {cause : Failure} :
    writtenName attributes = .error cause ↔
      (∃ flag, attributes.get? "lang" = some (.flag flag)) ∧ cause = .invalidAttribute "lang" ∨
      attributes.get? "lang" = none ∧ (∃ flag, attributes.get? "type" = some (.flag flag)) ∧
        cause = .invalidAttribute "type" := by
  rw [writtenName_eq]
  rcases attributes.get? "lang" with _ | flag | name
  · rcases attributes.get? "type" with _ | flag | type <;> simp [eq_comm]
  · simp [eq_comm]
  · simp

theorem writtenName_eq_some_iff :
    writtenName attributes = .ok (some name) ↔ Writes attributes name := by
  constructor
  · rw [writtenName_eq]
    rcases hlang : attributes.get? "lang" with _ | flag | lang
    · rcases htype : attributes.get? "type" with _ | flag | type
      · intro h
        obtain ⟨address, hsrc, hextension⟩ := Option.bind_eq_some_iff.1 (Except.ok.inj h)
        rcases hvalue : attributes.get? "src" with _ | flag | text
        · rw [hvalue] at hsrc
          cases hsrc
        · rw [hvalue] at hsrc
          cases hsrc
        · rw [hvalue] at hsrc
          obtain rfl : text = address := Option.some.inj hsrc
          exact .src hlang htype hvalue (extension?_eq_some_iff.1 hextension)
      · intro h
        cases h
      · intro h
        exact .type hlang htype (mediaSubtype_eq_iff.1 (Option.some.inj (Except.ok.inj h)))
    · intro h
      cases h
    · intro h
      obtain rfl := Option.some.inj (Except.ok.inj h)
      exact .lang hlang
  · rintro (hlang | ⟨hlang, htype, hname⟩ | ⟨hlang, htype, hsrc, hextension⟩)
    · rw [writtenName_eq, hlang]
    · rw [writtenName_eq, hlang, htype, ← mediaSubtype_eq_iff.2 hname]
    · rw [writtenName_eq, hlang, htype, hsrc, ← extension?_eq_some_iff.2 hextension]
      rfl

theorem writtenName_eq_none_iff :
    writtenName attributes = .ok none ↔
      attributes.get? "lang" = none ∧ attributes.get? "type" = none ∧
        ∀ address, attributes.get? "src" = some (.text address) → extension? address = none := by
  rw [writtenName_eq]
  rcases attributes.get? "lang" with _ | flag | lang
  · rcases attributes.get? "type" with _ | flag | type
    · rcases attributes.get? "src" with _ | flag | address <;> simp [AttributeValue.text?]
    · simp
    · simp
  · simp
  · simp

theorem writtenName_congr {a b : Attributes} (h : DecideAlike a b) :
    writtenName a = writtenName b := by
  rw [writtenName_eq, writtenName_eq, h.lang]
  rcases hlang : b.get? "lang" with _ | flag | lang
  · have hmissing := h.lang.trans hlang
    rw [h.type hmissing]
    rcases htype : b.get? "type" with _ | flag | type
    · rw [h.src hmissing ((h.type hmissing).trans htype)]
    · rfl
    · rfl
  · rfl
  · rfl

end Language

namespace LanguageRegistry

open Inlay.Language

variable {r : LanguageRegistry} {attributes : Attributes}

theorem declared_eq (r : LanguageRegistry) (attributes : Attributes) :
    r.declared attributes =
      (writtenName attributes).map (Option.map fun name => ⟨name, r.canonical name⟩) := by
  unfold declared
  cases writtenName attributes <;> rfl

/-- Attributes fail to declare a language if `lang` is a flag, or if `lang` is missing and `type` is
one.  They declare the language that the first of them writes, and the one that this name stands
for; they declare none if there is no `lang` and no `type`, and no `src` with an extension.  Nothing
else about the attributes makes a difference. -/
theorem declared_by_first_attribute (r : LanguageRegistry) (attributes : Attributes) :
    (∀ cause, r.declared attributes = .error cause ↔
      (∃ flag, attributes.get? "lang" = some (.flag flag)) ∧ cause = .invalidAttribute "lang" ∨
      attributes.get? "lang" = none ∧ (∃ flag, attributes.get? "type" = some (.flag flag)) ∧
        cause = .invalidAttribute "type") ∧
    (∀ d, r.declared attributes = .ok (some d) ↔
      Writes attributes d.written ∧ d.language = r.canonical d.written) ∧
    (r.declared attributes = .ok none ↔
      attributes.get? "lang" = none ∧ attributes.get? "type" = none ∧
        ∀ address, attributes.get? "src" = some (.text address) →
          IsRemote address.toList ∨
            ∀ component, Path.LastComponent address.toList component →
              component = ['.', '.'] ∨ '.' ∉ component) ∧
    ∀ other, DecideAlike attributes other → r.declared other = r.declared attributes := by
  refine ⟨?_, ?_, ?_, ?_⟩
  · intro cause
    rw [← writtenName_eq_error_iff, declared_eq]
    cases writtenName attributes <;> simp [Except.map]
  · intro d
    rw [← writtenName_eq_some_iff, declared_eq]
    obtain ⟨written, language⟩ := d
    cases writtenName attributes with
    | error cause => simp [Except.map]
    | ok found =>
      cases found with
      | none => simp [Except.map]
      | some name =>
        simp only [Except.map, Option.map_some, Except.ok.injEq, Option.some.injEq,
          DeclaredLanguage.mk.injEq]
        constructor
        · rintro ⟨rfl, rfl⟩
          exact ⟨rfl, rfl⟩
        · rintro ⟨rfl, rfl⟩
          exact ⟨rfl, rfl⟩
  · have hnone : r.declared attributes = .ok none ↔ writtenName attributes = .ok none := by
      rw [declared_eq]
      cases writtenName attributes <;> simp [Except.map]
    rw [hnone, writtenName_eq_none_iff]
    simp only [extension?_eq_none_iff]
  · intro other h
    rw [declared_eq, declared_eq, writtenName_congr h]

/-- Behind `lang` a flag `type` does no harm, and neither does any `src`. -/
theorem declared_by_first_attribute_hides_flag :
    let plain : Attributes := Table.ofList [("lang", .text "ts")]
    let crowded : Attributes :=
      Table.ofList [("lang", .text "ts"), ("src", .text "x.coffee"), ("type", .flag true)]
    DecideAlike plain crowded ∧ builtin.declared crowded = builtin.declared plain ∧
      builtin.declared plain = .ok (some ⟨"ts", "typescript"⟩) := by
  intro plain crowded
  have hlang : plain.get? "lang" = some (.text "ts") := by decide
  have halike : DecideAlike plain crowded :=
    ⟨by decide, fun h => (nomatch hlang.symm.trans h), fun h => (nomatch hlang.symm.trans h)⟩
  obtain ⟨-, hdeclared, -, hcongr⟩ := declared_by_first_attribute builtin plain
  exact ⟨halike, hcongr crowded halike, (hdeclared ⟨"ts", "typescript"⟩).2 ⟨.lang hlang, by decide⟩⟩

end LanguageRegistry
end Inlay
