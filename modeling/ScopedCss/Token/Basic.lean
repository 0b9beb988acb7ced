/-
Tokens of a style source. White space and comments are no tokens: a token only records whether
white space stood before it.
-/
import ScopedCss.Location
import ScopedCss.Text.Quoted

namespace ScopedCss

inductive TokenKind where
  | ident
  | string
  | number
  | url
  | punct
  | placeholder
deriving DecidableEq, Repr

/-- A located piece of a source. `text` is the piece as written; `value` is the content without
delimiters of a string or url, the name of a placeholder, and otherwise the text. -/
structure Token where
  kind : TokenKind
  text : Text
  value : Text
  location : Location
  spaced : Bool
deriving DecidableEq, Repr

/-- The name of a kind in displays of tokens. -/
def TokenKind.label : TokenKind → Text
  | ident => "IDENT".toList
  | string => "STRING".toList
  | number => "NUMBER".toList
  | url => "URL".toList
  | punct => "PUNCT".toList
  | placeholder => "PLACEHOLDER".toList

namespace Token

/-- Whether a token is the punctuation mark `c`. -/
def isMark (t : Token) (c : Char) : Bool := t.kind = .punct && t.text = [c]

def isOpener (t : Token) : Bool := t.isMark '(' || t.isMark '['

def isCloser (t : Token) : Bool := t.isMark ')' || t.isMark ']'

/-- Whether a token ends a declaration. -/
def isTerminator (t : Token) : Bool := t.isMark ';' || t.isMark '\x7d'

/-- Whether a token is a combinator other than white space. -/
def isCombinator (t : Token) : Bool := t.isMark '>' || t.isMark '+' || t.isMark '~'

/-- A token as it is shown when debugging. -/
def display (t : Token) : Text :=
  "Token(".toList ++ t.kind.label ++ ", ".toList ++ Text.quoted t.text ++ ")".toList

/-- The text of a token that follows others: one space stands for white space before it. -/
def trailing (t : Token) : Text := (if t.spaced then [' '] else []) ++ t.text

/-- The texts of tokens side by side, runs of white space between them collapsed to one space. -/
def join : List Token → Text
  | [] => []
  | t :: ts => t.text ++ ts.flatMap trailing

/-- The span from one token to another. -/
def span (first last : Token) : Location := first.location.span last.location

end Token

end ScopedCss
