/-
Flattening a sheet under a scope. Rules come out depth first in source order, a rule before what is
nested in it; at-rules wrap what their body flattens to, and the body of a keyframes-like at-rule is
left unscoped.
-/
import ScopedCss.Sheet.Basic
import ScopedCss.Stylesheet.Basic
import ScopedCss.Stylesheet.Resolved

namespace ScopedCss

/-- The text of a fragment. A placeholder without a value fails. -/
def Fragment.resolve : Fragment → Except Error Text
  | .placeholder p => .error ⟨.placeholder (.unresolved p.text), p.location⟩
  | f => .ok f.text

/-- The text of fragments, none of which may be a placeholder. -/
def Fragment.resolveAll (fs : List Fragment) : Except Error Text :=
  List.flatten <$> fs.mapM Fragment.resolve

/-- The texts of a declaration's property and value. -/
def Declaration.resolve (d : Declaration) : Except Error (Text × Text) := do
  let key ← d.key.resolve
  let value ← Fragment.resolveAll d.value
  return (key, value)

/-- The rule of these selectors and declarations; without declarations there is none. -/
def FlatItem.ofRule (scope : Scope) (selectors : List Resolved)
    (declarations : List (Text × Text)) : Except Error (List FlatItem) :=
  if declarations.isEmpty then .ok []
  else do
    let texts ← selectors.mapM (Resolved.text scope.root)
    return [.rule texts declarations]

/-- The at-rule around `items`; an empty one is kept only if its body is never scoped. -/
def FlatItem.ofAtRule (head : AtRule) (items : List FlatItem) : Except Error (List FlatItem) :=
  if items.isEmpty && head.kind.isScoped then .ok []
  else do
    let condition ← Fragment.resolveAll head.condition
    return [.atRule (AtRule.preludeOf head.name condition) items]

mutual

/-- Flattens one item inside the rules whose selectors are `context`. -/
def Content.flatten (scope : Scope) (context : List Resolved) (inScope : Bool) :
    Content → Except Error (List FlatItem)
  | .rule selectors declarations nested _ => do
    let resolved ← Selector.resolveAll scope context inScope selectors
    let texts ← (declarations.filter (!·.isDangling)).mapM Declaration.resolve
    let own ← FlatItem.ofRule scope resolved texts
    let below ← Sheet.flattenIn scope resolved inScope nested
    return own ++ below
  | .atRule head body => do
    let items ←
      if head.kind.isScoped && inScope then Sheet.flattenIn scope context true body
      else Sheet.flattenIn scope [] false body
    FlatItem.ofAtRule head items

/-- Flattens items inside the rules whose selectors are `context`. -/
def Sheet.flattenIn (scope : Scope) (context : List Resolved) (inScope : Bool) :
    Sheet → Except Error Stylesheet
  | [] => .ok []
  | c :: cs => do
    let first ← c.flatten scope context inScope
    let others ← Sheet.flattenIn scope context inScope cs
    return first ++ others

end

/-- Flattens a sheet under a scope. -/
def Sheet.flatten (scope : Scope) (s : Sheet) : Except Error Stylesheet :=
  Sheet.flattenIn scope [] true s

end ScopedCss
