/-
The normal form of a source: indentation, blanks at the end of lines and blank lines are gone. A
line after one that ends in a backslash continues a string and is kept as it is.
-/
import ScopedCss.Text.Blank
import ScopedCss.Text.Line

namespace ScopedCss.Fingerprint

/-- The lines that are kept. `continued` says whether the line before ends in a backslash. -/
def normalLines (continued : Bool) : List Text → List Text
  | [] => []
  | line :: lines =>
    let kept := if continued then line else Text.strip line
    let others := normalLines (kept.getLast? = some '\\') lines
    if kept.isEmpty && !continued then others else kept :: others

/-- The normal form of a source. -/
def normalize (source : Text) : Text :=
  Text.join ['\n'] (normalLines false (Text.lines source))

end ScopedCss.Fingerprint
