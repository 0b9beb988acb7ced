/-
Selectors as written: simple selectors, placeholders, the nesting marker `&` and the combinators
between them.
-/
import ScopedCss.Sheet.Fragment
import ScopedCss.Text.Blank

namespace ScopedCss

/-- One complex selector, such as `& > .item:hover`. -/
structure Selector where
  fragments : List Fragment
deriving DecidableEq, Repr

namespace Selector

def hasMarker (s : Selector) : Bool := s.fragments.contains .marker

def startsWithCombinator (s : Selector) : Bool := s.fragments.head?.any (·.isCombinator)

def text (s : Selector) : Text := Text.strip (Fragment.render s.fragments)

/-- The same selector without locations. -/
def unplaced (s : Selector) : Selector := ⟨s.fragments.map (·.unplaced)⟩

end Selector

end ScopedCss
