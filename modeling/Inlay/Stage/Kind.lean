/-!
The kinds of transformers: one slot for each language or tool that a stage can run.
-/

namespace Inlay

/-- A slot for a transformer. -/
inductive TransformerKind where
  | babel
  | civet
  | coffeescript
  | globalStyle
  | less
  | postcss
  | pug
  | replace
  | scss
  | stylus
  | typescript
deriving Repr, DecidableEq, Inhabited

namespace TransformerKind

def all : List TransformerKind :=
  [babel, civet, coffeescript, globalStyle, less, postcss, pug, replace, scss, stylus, typescript]

/-- The name of a kind, which is the language that it reads. -/
def name : TransformerKind → String
  | babel => "babel"
  | civet => "civet"
  | coffeescript => "coffeescript"
  | globalStyle => "globalStyle"
  | less => "less"
  | postcss => "postcss"
  | pug => "pug"
  | replace => "replace"
  | scss => "scss"
  | stylus => "stylus"
  | typescript => "typescript"

def ofName? (name : String) : Option TransformerKind := all.find? fun kind => kind.name = name

theorem ofName?_name (kind : TransformerKind) : ofName? kind.name = some kind := by
  cases kind <;> decide

theorem name_of_ofName? {name : String} {kind : TransformerKind} (h : ofName? name = some kind) :
    kind.name = name := by
  have hfound := List.find?_some h
  exact of_decide_eq_true hfound

end TransformerKind
end Inlay
