/-
Why compiling a style can fail. A `Fault` is a cause, `Fault.message` its wording, and an `Error`
is a fault with the place it was found at.
-/
import ScopedCss.Location

namespace ScopedCss

/-- A malformed lexical unit. -/
inductive LexicalFault where
  | unterminatedComment
  | unterminatedString
  | unterminatedUrl
  | malformedPlaceholder
deriving DecidableEq, Repr

/-- A violation of the grammar of sheets. -/
inductive GrammarFault where
  | unterminatedBlock
  | unexpectedBrace
  | missingAtRuleName
  | endInAtRule (name : Text)
  | missingBlock (name : Text)
  | endInSelector
  | strayBracket (bracket : Text)
  | emptySelector
  | missingSelector
  | consecutiveCombinators
  | trailingCombinator
  | missingName (sign : Text)
  | missingPseudoClass
  | mismatchedBracket
  | unclosedBracket (bracket : Text)
deriving DecidableEq, Repr

/-- What is wrong with a placeholder, which is named as it is written. -/
inductive PlaceholderFault where
  | noValue (placeholder : Text)
  | unresolved (placeholder : Text)
  /-- Its name consists of digits that write no number. -/
  | unreadablePosition (placeholder : Text)
  /-- Its value has a number of too many digits. -/
  | unwritableValue
deriving DecidableEq, Repr

inductive Fault where
  | lexical (fault : LexicalFault)
  | grammar (fault : GrammarFault)
  | placeholder (fault : PlaceholderFault)
  /-- A selector without fragments, which only a sheet made by hand can hold. -/
  | emptySelector
  /-- A look back to before the first place there is. -/
  | outOfRange
  /-- A handle whose place in its registry was taken by a newer compile. -/
  | replaced (className : Text)
deriving DecidableEq, Repr

def LexicalFault.message : LexicalFault → Text
  | unterminatedComment => "unterminated comment".toList
  | unterminatedString => "unterminated string".toList
  | unterminatedUrl => "unterminated url".toList
  | malformedPlaceholder => "malformed placeholder".toList

def GrammarFault.message : GrammarFault → Text
  | unterminatedBlock => "unterminated block".toList
  | unexpectedBrace => "unexpected '\x7d'".toList
  | missingAtRuleName => "expected an at-rule name after '@'".toList
  | endInAtRule name => "unexpected end of input in '@".toList ++ name ++ "'".toList
  | missingBlock name => "'@".toList ++ name ++ "' requires a block".toList
  | endInSelector => "unexpected end of input in selector".toList
  | strayBracket bracket => "unexpected '".toList ++ bracket ++ "' in selector".toList
  | emptySelector => "empty selector in selector list".toList
  | missingSelector => "expected a selector before '\x7b'".toList
  | consecutiveCombinators => "consecutive combinators in selector".toList
  | trailingCombinator => "selector ends with a combinator".toList
  | missingName sign => "expected a name after '".toList ++ sign ++ "'".toList
  | missingPseudoClass => "expected a pseudo-class name after ':'".toList
  | mismatchedBracket => "mismatched bracket in selector".toList
  | unclosedBracket bracket => "unclosed '".toList ++ bracket ++ "' in selector".toList

def PlaceholderFault.message : PlaceholderFault → Text
  | noValue placeholder => "no value for placeholder '".toList ++ placeholder ++ "'".toList
  | unresolved placeholder => "unresolved placeholder '".toList ++ placeholder ++ "'".toList
  | unreadablePosition placeholder =>
    "unreadable position in placeholder '".toList ++ placeholder ++ "'".toList
  | unwritableValue => "a value has too many digits".toList

def Fault.message : Fault → Text
  | lexical fault => fault.message
  | grammar fault => fault.message
  | placeholder fault => fault.message
  | emptySelector => "selector has no fragments".toList
  | outOfRange => "no such place".toList
  | replaced className =>
    "style ".toList ++ className ++ " was replaced by a newer compile".toList

/-- The kind of a fault by name. -/
def Fault.kind : Fault → Text
  | lexical _ => "TokenError".toList
  | grammar _ => "ParseError".toList
  | placeholder _ => "InterpolationError".toList
  | _ => "StyleError".toList

/-- A message with the place it is about, if one is known. -/
def Location.annotate (message : Text) : Option Location → Text
  | none => message
  | some l => message ++ " at ".toList ++ l.text

/-- A fault and where it was found. -/
structure Error where
  fault : Fault
  location : Option Location
deriving DecidableEq, Repr

namespace Error

def message (e : Error) : Text := e.fault.message

def text (e : Error) : Text := Location.annotate e.message e.location

def lexical (fault : LexicalFault) (l : Location) : Error := ⟨.lexical fault, some l⟩

def grammar (fault : GrammarFault) (l : Location) : Error := ⟨.grammar fault, some l⟩

end Error

end ScopedCss
