/-
The values that a host supplies for placeholders, and the text each is filled in as.
-/
import ScopedCss.Assoc
import ScopedCss.Decimal.Layout
import ScopedCss.Sheet.Fragment
import ScopedCss.Text.Quoted

namespace ScopedCss

inductive Value where
  | string (text : Text)
  | integer (i : Int)
  | boolean (b : Bool)
  | nothing
  | float (x : Float)
  | list (values : List Value)
  | table (entries : List (Text × Value))

namespace Value

/-- Floating-point values are positional from 0.0001 up to 10 ^ 16 and else have an exponent of two
digits or more. -/
def floatLayout : Decimal.Layout := ⟨-4, 16, 2⟩

/-- A table of these entries; a later entry of a key replaces an earlier one. -/
def ofEntries (entries : List (Text × Value)) : Value := table (Assoc.ofList entries)

mutual

/-- A value inside a list or a table: a string is quoted there. -/
def shown : Value → Text
  | string t => Text.quoted t
  | integer i => Text.ofInt i
  | boolean b => if b then "True".toList else "False".toList
  | nothing => "None".toList
  | float x => floatLayout.writeFloat x
  | list vs => '[' :: Text.join ", ".toList (shownAll vs) ++ [']']
  | table es => '\x7b' :: Text.join ", ".toList (shownEntries es) ++ ['\x7d']

def shownAll : List Value → List Text
  | [] => []
  | v :: vs => v.shown :: shownAll vs

def shownEntries : List (Text × Value) → List Text
  | [] => []
  | (k, v) :: es => (Text.quoted k ++ ": ".toList ++ v.shown) :: shownEntries es

end

/-- The text that a value is filled in as. -/
def text : Value → Text
  | string t => t
  | v => v.shown

mutual

/-- Whether a value can be written: no integer in it has more digits than a numeral may have. -/
def isWritable : Value → Bool
  | integer i => (Text.ofNat i.natAbs).length ≤ Text.longestNumeral
  | list vs => areWritable vs
  | table es => haveWritable es
  | _ => true

def areWritable : List Value → Bool
  | [] => true
  | v :: vs => v.isWritable && areWritable vs

def haveWritable : List (Text × Value) → Bool
  | [] => true
  | (_, v) :: es => v.isWritable && haveWritable es

end

end Value

/-- What a host supplies: nothing, values by name, values by position, or a lone string, in which
no placeholder finds a value. -/
inductive Values where
  | none
  | named (entries : Assoc Text Value)
  | positional (values : List Value)
  | string (text : Text)

/-- The value of a placeholder, if it has one. Only values by position ask which position a
placeholder names. -/
def Values.lookup : Values → Placeholder → Except Error (Option Value)
  | none, _ => .ok .none
  | named entries, p => .ok (entries.get? p.name)
  | positional values, p => do return (← p.position).bind (values[·]?)
  | string _, _ => .ok .none

/-- Whether all values can be written. -/
def Values.areWritable : Values → Bool
  | none => true
  | named entries => Value.haveWritable entries
  | positional values => Value.areWritable values
  | string _ => true

/-- Refuses values that cannot all be written. -/
def Values.check (vs : Values) : Except Error Unit :=
  if vs.areWritable then .ok () else .error ⟨.placeholder .unwritableValue, Option.none⟩

end ScopedCss
