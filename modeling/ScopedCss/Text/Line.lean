/-
Lines of a text. A line ends at any of ten break characters, or at a carriage return with the line
feed after it, and a break at the very end opens no further line.
-/
import ScopedCss.Text.Basic

namespace ScopedCss.Text

/-- The characters that end a line. -/
def isBreak (c : Char) : Bool :=
  ('\x0a' ≤ c && c ≤ '\x0d') || ('\x1c' ≤ c && c ≤ '\x1e') || c = '\u0085' ||
    c = '\u2028' || c = '\u2029'

/-- The lines of a text, without their breaks. -/
def lines : Text → List Text
  | [] => []
  | '\r' :: '\n' :: t => [] :: lines t
  | c :: t =>
    if isBreak c then [] :: lines t
    else match lines t with
      | [] => [[c]]
      | l :: ls => (c :: l) :: ls

/-- Every carriage return, with the line feed that may follow it, becomes one line feed. -/
def unifyBreaks : Text → Text
  | [] => []
  | '\r' :: '\n' :: t => '\n' :: unifyBreaks t
  | c :: t => (if c = '\r' then '\n' else c) :: unifyBreaks t

end ScopedCss.Text
