/-
Places in a source: `Position` is how far a reader has come, `Location` is the span that a token,
a declaration or a complaint covers.
-/
import ScopedCss.Text.Basic

namespace ScopedCss

/-- A span of a source, with the line and column of its first character, both counted from one.
Offsets of a span made by hand may be any integers. -/
structure Location where
  start : Int
  stop : Int
  line : Int := 1
  column : Int := 1
deriving DecidableEq, Repr, Inhabited

/-- How far a source has been read: the offset reached, its line, and the offset at which that line
begins. -/
structure Position where
  index : Nat
  line : Nat
  lineStart : Nat
deriving DecidableEq, Repr

namespace Position

/-- Where every source begins. -/
def origin : Position := ⟨0, 1, 0⟩

/-- The position after one more character. Only a line feed opens a line. -/
def step (p : Position) (c : Char) : Position :=
  if c = '\n' then ⟨p.index + 1, p.line + 1, p.index + 1⟩ else { p with index := p.index + 1 }

/-- The position after reading `t`. -/
def after (p : Position) (t : Text) : Position := t.foldl step p

/-- The column of a position, counted from one. -/
def column (p : Position) : Nat := p.index - p.lineStart + 1

end Position

namespace Location

/-- The span from one position to a later one. -/
def between (p q : Position) : Location :=
  { start := p.index, stop := q.index, line := p.line, column := p.column }

/-- The span from the start of one location to the end of another. -/
def span (first last : Location) : Location := { first with stop := last.stop }

/-- The empty span at the end of a source, its line and column counted directly. -/
def endOf (source : Text) : Location :=
  { start := source.length
    stop := source.length
    line := source.count '\n' + 1
    column := (source.reverse.takeWhile (· ≠ '\n')).length + 1 }

/-- What a location covers in a source. -/
def slice (l : Location) (source : Text) : Text := Text.slice source l.start l.stop

/-- A location as readers are told it. -/
def text (l : Location) : Text :=
  "line ".toList ++ Text.ofInt l.line ++ ", column ".toList ++ Text.ofInt l.column

end Location

end ScopedCss
