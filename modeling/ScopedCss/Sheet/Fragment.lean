/-
Fragments: the pieces that selectors, values and conditions are made of. A placeholder stands for a
value that is supplied when the style is compiled; markers and combinators are at home in selectors.
-/
import ScopedCss.Error
import ScopedCss.Text.Numeral
import ScopedCss.Token.Basic

namespace ScopedCss

/-- A reference to a supplied value, written `${name}`. -/
structure Placeholder where
  name : Text
  location : Option Location
deriving DecidableEq, Repr

namespace Placeholder

/-- A placeholder as it is written. -/
def text (p : Placeholder) : Text := '$' :: '\x7b' :: p.name ++ ['\x7d']

/-- The position that a placeholder names, if its name consists of digits. Digits that write no
number are a fault. -/
def position (p : Placeholder) : Except Error (Option Nat) :=
  match Text.numeral? p.name with
  | none => .ok none
  | some (.number n) => .ok (some n)
  | some .unreadable => .error ⟨.placeholder (.unreadablePosition p.text), p.location⟩

end Placeholder

/-- How two compound selectors relate. -/
inductive Combinator where
  | descendant
  | child
  | nextSibling
  | laterSibling
deriving DecidableEq, Repr

namespace Combinator

def sign : Combinator → Char
  | descendant => ' '
  | child => '>'
  | nextSibling => '+'
  | laterSibling => '~'

/-- A combinator in a selector: a lone space, or its sign between two. -/
def text : Combinator → Text
  | descendant => [' ']
  | c => [' ', c.sign, ' ']

/-- The combinator that a token writes. -/
def ofToken (t : Token) : Combinator :=
  if t.isMark '>' then child else if t.isMark '+' then nextSibling else laterSibling

end Combinator

inductive Fragment where
  | literal (text : Text)
  | placeholder (p : Placeholder)
  /-- The enclosing selector, at this position. -/
  | marker
  | combinator (c : Combinator)
deriving DecidableEq, Repr

namespace Fragment

def text : Fragment → Text
  | literal t => t
  | placeholder p => p.text
  | marker => ['&']
  | combinator c => c.text

def isCombinator : Fragment → Bool
  | combinator _ => true
  | _ => false

/-- The texts of fragments side by side. -/
def render (fs : List Fragment) : Text := fs.flatMap text

/-- Each run of neighbouring literals as one literal. -/
def merge : List Fragment → List Fragment
  | [] => []
  | literal a :: fs =>
    match merge fs with
    | literal b :: gs => literal (a ++ b) :: gs
    | gs => literal a :: gs
  | f :: fs => f :: merge fs

/-- The fragment that one token is. -/
def ofToken (t : Token) : Fragment :=
  if t.kind = .placeholder then placeholder ⟨t.value, some t.location⟩ else literal t.text

/-- The fragments that a token adds behind others: one space stands for white space before it. -/
def trailing (t : Token) : List Fragment :=
  if t.spaced then [literal [' '], ofToken t] else [ofToken t]

/-- The fragments of a list of tokens: runs of text, split at the placeholders. -/
def ofTokens : List Token → List Fragment
  | [] => []
  | t :: ts => merge ((ofToken t :: ts.flatMap trailing).filter (· ≠ literal []))

/-- The same fragment without its location. -/
def unplaced : Fragment → Fragment
  | placeholder p => placeholder { p with location := none }
  | f => f

end Fragment

end ScopedCss
