/-
Sheets: the tree of a style as it is written, before placeholders are filled in and nesting is
resolved.
-/
import ScopedCss.Selector.Basic

namespace ScopedCss

/-- At-rules by how their body is treated. -/
inductive AtRuleKind where
  | media
  | supports
  /-- The body holds frames or descriptors and is never scoped. -/
  | keyframes
  | other
deriving DecidableEq, Repr

namespace AtRuleKind

/-- Names of at-rules, besides those of keyframes, whose body is never scoped. -/
def unscopedNames : List Text :=
  ["font-face".toList, "page".toList, "property".toList, "counter-style".toList,
    "font-feature-values".toList]

/-- The kind of the at-rule of this name, in whatever case it is written. -/
def ofName (name : Text) : AtRuleKind :=
  let name := Text.lower name
  if name = "media".toList then media
  else if name = "supports".toList then supports
  else if "keyframes".toList.isSuffixOf name || unscopedNames.contains name then keyframes
  else other

def isScoped (k : AtRuleKind) : Bool := k ≠ keyframes

def label : AtRuleKind → Text
  | media => "media".toList
  | supports => "supports".toList
  | keyframes => "keyframes".toList
  | other => "other".toList

end AtRuleKind

/-- A property and its value. A malformed declaration is kept, with the reason why it dangles, and
is never written out. -/
structure Declaration where
  key : Fragment
  value : List Fragment
  location : Option Location := none
  dangling : Option Text := none
deriving DecidableEq, Repr

namespace Declaration

def isDangling (d : Declaration) : Bool := d.dangling.isSome

def text (d : Declaration) : Text := d.key.text ++ ": ".toList ++ Fragment.render d.value

/-- The same declaration without locations. -/
def unplaced (d : Declaration) : Declaration :=
  { d with key := d.key.unplaced, value := d.value.map (·.unplaced), location := none }

end Declaration

/-- What stands before the block of an at-rule. -/
structure AtRule where
  kind : AtRuleKind
  name : Text
  condition : List Fragment
  location : Option Location := none
deriving DecidableEq, Repr

namespace AtRule

/-- The name of an at-rule and its condition, if it has one. -/
def preludeOf (name condition : Text) : Text :=
  if condition.isEmpty then '@' :: name else '@' :: name ++ ' ' :: condition

def prelude (a : AtRule) : Text := preludeOf a.name (Fragment.render a.condition)

/-- The same at-rule without locations. -/
def unplaced (a : AtRule) : AtRule :=
  { a with condition := a.condition.map (·.unplaced), location := none }

end AtRule

/-- One item of a sheet. A rule without selectors stands for what encloses it. -/
inductive Content where
  | rule (selectors : List Selector) (declarations : List Declaration) (nested : List Content)
      (location : Option Location)
  | atRule (head : AtRule) (body : List Content)
deriving Repr

/-- The items of a style in order. -/
abbrev Sheet := List Content

mutual

/-- The malformed declarations of one item, its own before those nested in it. -/
def Content.dangling : Content → List Declaration
  | .rule _ declarations nested _ => declarations.filter (·.isDangling) ++ Sheet.dangling nested
  | .atRule _ body => Sheet.dangling body

/-- The malformed declarations of a sheet, item by item. -/
def Sheet.dangling : Sheet → List Declaration
  | [] => []
  | c :: cs => c.dangling ++ Sheet.dangling cs

end

mutual

/-- The same item without locations. -/
def Content.unplaced : Content → Content
  | .rule selectors declarations nested _ =>
    .rule (selectors.map (·.unplaced)) (declarations.map (·.unplaced)) (Sheet.unplaced nested) none
  | .atRule head body => .atRule head.unplaced (Sheet.unplaced body)

/-- The same sheet without locations. -/
def Sheet.unplaced : Sheet → Sheet
  | [] => []
  | c :: cs => c.unplaced :: Sheet.unplaced cs

end

/-- Where a declaration starts; one that has no location counts as at the front. -/
def Declaration.start (d : Declaration) : Int := (d.location.map (·.start)).getD 0

/-- The malformed declarations of a sheet in source order. -/
def Sheet.danglingInOrder (s : Sheet) : List Declaration :=
  s.dangling.mergeSort fun a b => a.start ≤ b.start

end ScopedCss
