/-
Control sequences of terminals: an escape character and a bracket, then parameters, intermediate
characters and a final one. What is not complete is ordinary text.
-/
import ScopedCss.Text.Basic

namespace ScopedCss.Text

def isParameter (c : Char) : Bool := '0' ≤ c && c ≤ '?'

def isIntermediate (c : Char) : Bool := ' ' ≤ c && c ≤ '/'

def isFinal (c : Char) : Bool := '@' ≤ c && c ≤ '~'

/-- The length of the control sequence in front; zero if there is none. -/
def controlLength : Text → Nat
  | '\x1b' :: '[' :: t =>
    let parameters := t.takeWhile isParameter
    let intermediates := (t.dropWhile isParameter).takeWhile isIntermediate
    match (t.dropWhile isParameter).dropWhile isIntermediate with
    | [] => 0
    | c :: _ => if isFinal c then parameters.length + intermediates.length + 3 else 0
  | _ => 0

/-- A text without its control sequences. `skip` characters of one are still to be left out. -/
def dropControls (skip : Nat) : Text → Text
  | [] => []
  | c :: t =>
    match skip with
    | skip + 1 => dropControls skip t
    | 0 =>
      match controlLength (c :: t) with
      | 0 => c :: dropControls 0 t
      | n + 1 => dropControls n t

/-- A text without its control sequences. What the parts around one make together stays. -/
def withoutControls (t : Text) : Text := dropControls 0 t

end ScopedCss.Text
