import Inlay.Replace.Rule
import Inlay.Stage.Transformer

/-!
The transformer that applies replacement rules, one after the other in the order of their list.
-/

namespace Inlay
namespace Replace

/-- The content after all rules; without options it stays as it is. -/
def replaceAll (engine : Regex.Engine) (options : Option Json) (content : String) :
    Except RuleError String :=
  match options with
  | none => .ok content
  | some value => do
    let rules ← rulesOf engine value
    return String.ofList (rules.foldl (fun text rule => rule.apply text) content.toList)

def transformer (engine : Regex.Engine) : Transformer := fun input =>
  match replaceAll engine input.options input.content with
  | .ok code => .done (.ofCode code)
  | .error cause => .fail (.transform "replace" cause.message)

end Replace

/-- The transformers that need no compiler of the host. -/
def Workshop.builtin (engine : Regex.Engine) : Workshop :=
  Workshop.empty.register .replace (Replace.transformer engine)

end Inlay
