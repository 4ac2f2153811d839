import Inlay.SourceMap.Lookup
import Inlay.SourceMap.Json

/-!
Chaining two source maps: from an original text to an intermediate one, and from there to the
generated text.

Every segment of the second map is traced through the first one.  A segment that has no origin, or
whose origin has none in the first map, is left out.  The chained map has the sources of the first
map and the names of the second, and every segment is attributed to the first source.
-/

namespace Inlay
namespace SourceMap

/-- The later map of a chain: a document, or its JSON text. -/
inductive Later where
  | map (document : SourceMap)
  | text (json : String)
deriving Repr

def Later.document : Later → Except MapError SourceMap
  | .map document => .ok document
  | .text json => ofText json

/-- The chained segment of a segment of the later map, if it resolves in the earlier one.
`indentation` moves the original column to the right. -/
def chainSegment? (earlier : Lookup) (indentation : Nat) (s : Segment) : Option Segment := do
  let intermediate ← s.origin
  let original ← earlier.originAt? intermediate.line intermediate.column
  return ⟨s.generatedColumn,
    some ⟨0, original.line, original.column + indentation, intermediate.name⟩⟩

def chainMappings (earlier : Lookup) (indentation : Nat) (later : Mappings) : Mappings :=
  later.map fun line => line.filterMap (chainSegment? earlier indentation)

/-- Chains two documents.  The mappings of the earlier one are decoded first. -/
def compose (earlier later : SourceMap) (indentation : Nat) : Except MapError SourceMap := do
  let lookup ← Lookup.ofMap earlier
  let mappings ← later.decode
  return ofMappings earlier.sources earlier.sourcesContent later.names
    (chainMappings lookup indentation mappings)

/-- Chains two maps, of which either may be missing; then the other one is the result.  The text
of a later map must be readable even when there is no earlier map. -/
def chain (earlier : Option SourceMap) (later : Option Later) (indentation : Nat) :
    Except MapError (Option SourceMap) :=
  match later with
  | none => .ok earlier
  | some later => do
    let document ← later.document
    match earlier with
    | none => return some document
    | some earlier => return some (← compose earlier document indentation)

end SourceMap
end Inlay
