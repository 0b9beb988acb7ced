/-
Filling in placeholders. The first one that cannot be filled in fails the whole expansion; malformed
declarations are left as they are, since they are never written out.
-/
import ScopedCss.Error
import ScopedCss.Sheet.Basic
import ScopedCss.Value

namespace ScopedCss

/-- The text of a placeholder's value. -/
def Values.fill (vs : Values) (p : Placeholder) : Except Error Text :=
  match vs.lookup p with
  | .error e => .error e
  | .ok (some v) =>
    if v.isWritable then .ok v.text else .error ⟨.placeholder .unwritableValue, p.location⟩
  | .ok .none => .error ⟨.placeholder (.noValue p.text), p.location⟩

def Fragment.expand (vs : Values) : Fragment → Except Error Fragment
  | .placeholder p => .literal <$> vs.fill p
  | f => .ok f

/-- Fills in fragments side by side; neighbouring literals become one. -/
def Fragment.expandAll (vs : Values) (fs : List Fragment) : Except Error (List Fragment) :=
  Fragment.merge <$> fs.mapM (Fragment.expand vs)

/-- Fills in a selector. Its fragments stay apart, so each simple selector is kept whole. -/
def Selector.expand (vs : Values) (s : Selector) : Except Error Selector :=
  Selector.mk <$> s.fragments.mapM (Fragment.expand vs)

def Declaration.expand (vs : Values) (d : Declaration) : Except Error Declaration :=
  if d.isDangling then .ok d
  else do
    let key ← d.key.expand vs
    let value ← Fragment.expandAll vs d.value
    return { d with key := key, value := value }

def AtRule.expand (vs : Values) (a : AtRule) : Except Error AtRule := do
  let condition ← Fragment.expandAll vs a.condition
  return { a with condition := condition }

mutual

/-- Fills in one item: selectors, then declarations, then what is nested in it. -/
def Content.expand (vs : Values) : Content → Except Error Content
  | .rule selectors declarations nested location => do
    let selectors ← selectors.mapM (Selector.expand vs)
    let declarations ← declarations.mapM (Declaration.expand vs)
    let nested ← Sheet.expand vs nested
    return .rule selectors declarations nested location
  | .atRule head body => do
    let head ← head.expand vs
    let body ← Sheet.expand vs body
    return .atRule head body

/-- Fills in a sheet, item by item. -/
def Sheet.expand (vs : Values) : Sheet → Except Error Sheet
  | [] => .ok []
  | c :: cs => do
    let c ← c.expand vs
    let cs ← Sheet.expand vs cs
    return c :: cs

end

end ScopedCss
