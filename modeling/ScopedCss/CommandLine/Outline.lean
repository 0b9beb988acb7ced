/-
The outline of a sheet: its rules, at-rules and declarations as written, one a line and indented by
nesting.
-/
import ScopedCss.Sheet.Basic
import ScopedCss.Stylesheet.Printer

namespace ScopedCss

/-- The line of a declaration in an outline. -/
def Declaration.outline (d : Declaration) : Text :=
  d.text ++ if d.isDangling then "  (dangling)".toList else []

/-- The selectors of a rule in an outline; one without selectors is what encloses it. -/
def Selector.outline (selectors : List Selector) : Text :=
  let text := Text.join ", ".toList (selectors.map (·.text))
  if text.isEmpty then ['&'] else text

mutual

/-- The lines of one item at a depth. -/
def Content.outline (depth : Nat) : Content → List Text
  | .rule selectors declarations nested _ =>
    let pad := Text.indentation "  ".toList depth
    (pad ++ Selector.outline selectors) ::
      declarations.map (fun d => pad ++ "  ".toList ++ d.outline) ++
      Sheet.outline (depth + 1) nested
  | .atRule head body =>
    let pad := Text.indentation "  ".toList depth
    (pad ++ head.prelude ++ "  [".toList ++ head.kind.label ++ "]".toList) ::
      Sheet.outline (depth + 1) body

/-- The lines of items at a depth. -/
def Sheet.outline (depth : Nat) : Sheet → List Text
  | [] => []
  | c :: cs => c.outline depth ++ Sheet.outline depth cs

end

end ScopedCss
