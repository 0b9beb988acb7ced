/-
Selectors with their nesting resolved. What a sheet is scoped under stays symbolic here, as
`ResolvedPart.root`, so resolving never looks at the class name; it enters when the text is written.
-/
import ScopedCss.Error
import ScopedCss.Selector.Basic
import ScopedCss.Text.Letter

namespace ScopedCss

/-- What a sheet is flattened under: a class, or nothing for a global style. -/
structure Scope where
  className : Option Text
deriving DecidableEq, Repr

namespace Scope

/-- The selector that everything in a global style is under. -/
def globalRoot : Text := ":root".toList

/-- The selector of the scope; an empty class name counts as none here. -/
def root (s : Scope) : Text :=
  match s.className with
  | some (c :: cs) => '.' :: c :: cs
  | _ => globalRoot

end Scope

inductive ResolvedPart where
  /-- The selector of the scope. -/
  | root
  | literal (text : Text)
  | placeholder (p : Placeholder)
  | combinator (c : Combinator)
deriving DecidableEq, Repr

/-- A selector without nesting markers. -/
abbrev Resolved := List ResolvedPart

namespace ResolvedPart

/-- The text of a part. A placeholder without a value fails. -/
def text (root : Text) : ResolvedPart → Except Error Text
  | .root => .ok root
  | literal t => .ok t
  | placeholder p => .error ⟨.placeholder (.unresolved p.text), p.location⟩
  | combinator c => .ok c.text

/-- Whether a part begins with an element name or the universal selector, so that nothing can be
put in front of it. -/
def isType : ResolvedPart → Bool
  | literal (c :: _) => c = '*' || c = '_' || Text.isLetter c
  | _ => false

end ResolvedPart

namespace Resolved

/-- The text of a selector. -/
def text (root : Text) (r : Resolved) : Except Error Text :=
  List.flatten <$> r.mapM (ResolvedPart.text root)

/-- Puts the root in place of the first `:root` of the first compound. -/
def replaceRoot : Resolved → Option Resolved
  | [] => none
  | .combinator _ :: _ => none
  | p :: ps =>
    if p = .literal Scope.globalRoot then some (.root :: ps) else (p :: ·) <$> replaceRoot ps

/-- Adds the root to the first compound: behind an element name, else in front. -/
def addRoot : Resolved → Except Error Resolved
  | [] => .error ⟨.emptySelector, none⟩
  | p :: ps => .ok (if p.isType then p :: .root :: ps else .root :: p :: ps)

end Resolved

/-- A fragment with `parent` in place of the nesting marker. -/
def Fragment.substitute (parent : Resolved) : Fragment → Resolved
  | .literal t => [.literal t]
  | .placeholder p => [.placeholder p]
  | .marker => parent
  | .combinator c => [.combinator c]

namespace Selector

/-- A selector with `parent` in place of every nesting marker. -/
def substitute (parent : Resolved) (s : Selector) : Resolved :=
  s.fragments.flatMap (·.substitute parent)

/-- A selector as written, nesting markers and all. -/
def verbatim (s : Selector) : Resolved := s.substitute [.literal ['&']]

/-- A selector at the top of a sheet, joined with the scope. -/
def qualify (scope : Scope) (s : Selector) : Except Error Resolved :=
  if scope.className.isNone || s.hasMarker then .ok (s.substitute [.root])
  else if s.startsWithCombinator then .ok (.root :: s.substitute [])
  else
    match Resolved.replaceRoot (s.substitute []) with
    | some r => .ok r
    | none => Resolved.addRoot (s.substitute [])

/-- A selector inside a rule whose selector is `parent`. -/
def nest (parent : Resolved) (s : Selector) : Resolved :=
  if s.hasMarker then s.substitute parent
  else if s.startsWithCombinator then parent ++ s.substitute []
  else parent ++ .combinator .descendant :: s.substitute []

/-- The resolved selectors of a rule. `context` holds those of the rule around it and is empty at
the top; `inScope` is false in bodies that are left alone. -/
def resolveAll (scope : Scope) (context : List Resolved) (inScope : Bool)
    (selectors : List Selector) : Except Error (List Resolved) :=
  if selectors.isEmpty then
    .ok (if !context.isEmpty then context else if inScope then [[.root]] else [])
  else if !context.isEmpty then
    .ok (context.flatMap fun parent => selectors.map (nest parent))
  else if inScope then selectors.mapM (qualify scope)
  else .ok (selectors.map verbatim)

end Selector

end ScopedCss
