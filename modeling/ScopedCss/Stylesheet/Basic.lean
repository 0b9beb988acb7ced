/-
Style sheets after nesting is resolved: rules with complete selectors, and at-rules around them.
-/
import ScopedCss.Text.Basic

namespace ScopedCss

/-- A rule, or an at-rule with the items in its block. The declarations of a rule without selectors
stand directly in the block around it. -/
inductive FlatItem where
  | rule (selectors : List Text) (declarations : List (Text × Text))
  | atRule (prelude : Text) (items : List FlatItem)
deriving Repr

/-- Flat items in order. -/
abbrev Stylesheet := List FlatItem

end ScopedCss
