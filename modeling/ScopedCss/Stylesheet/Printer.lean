/-
The text of a style sheet: a line for each head, declaration and closing brace, indented by depth.
Equal sheets have equal texts, and no line ends in a blank.
-/
import ScopedCss.Stylesheet.Basic
import ScopedCss.Text.Blank

namespace ScopedCss

/-- `depth` times the indent. -/
def Text.indentation (indent : Text) (depth : Nat) : Text :=
  (List.replicate depth indent).flatten

/-- The line of a declaration behind `pad`. -/
def FlatItem.declarationLine (pad : Text) (d : Text × Text) : Text :=
  pad ++ d.1 ++ ": ".toList ++ d.2 ++ ";".toList

/-- The line that opens a block behind `pad`. -/
def FlatItem.headLine (pad head : Text) : Text := pad ++ head ++ " \x7b".toList

/-- The line that closes a block behind `pad`. -/
def FlatItem.closeLine (pad : Text) : Text := pad ++ "\x7d".toList

mutual

/-- The lines of one item at a depth. -/
def FlatItem.lines (indent : Text) (depth : Nat) : FlatItem → List Text
  | .rule [] declarations =>
    declarations.map (FlatItem.declarationLine (Text.indentation indent depth))
  | .rule (s :: ss) declarations =>
    let pad := Text.indentation indent depth
    FlatItem.headLine pad (Text.join ", ".toList (s :: ss)) ::
      declarations.map (FlatItem.declarationLine (pad ++ indent)) ++ [FlatItem.closeLine pad]
  | .atRule prelude items =>
    let pad := Text.indentation indent depth
    FlatItem.headLine pad prelude :: Stylesheet.lines indent (depth + 1) items ++
      [FlatItem.closeLine pad]

/-- The lines of items at a depth. -/
def Stylesheet.lines (indent : Text) (depth : Nat) : Stylesheet → List Text
  | [] => []
  | i :: is => i.lines indent depth ++ Stylesheet.lines indent depth is

end

/-- The text of a style sheet. -/
def Stylesheet.print (indent : Text) (s : Stylesheet) : Text :=
  Text.join ['\n'] ((Stylesheet.lines indent 0 s).map Text.stripRight)

/-- The indent of printed style sheets unless another is asked for. -/
def Stylesheet.defaultIndent : Text := "  ".toList

end ScopedCss
