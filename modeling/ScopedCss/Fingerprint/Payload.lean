/-
What identifies a style: its normal source, the texts of its values and whether it is global, laid
out as one JSON text.
-/
import ScopedCss.Fingerprint.Normal
import ScopedCss.Text.Quoted
import ScopedCss.Value

namespace ScopedCss.Fingerprint

/-- A character inside a JSON string. -/
def escape (c : Char) : Text :=
  if c = '"' then ['\\', '"']
  else if c = '\\' then ['\\', '\\']
  else if c = '\n' then ['\\', 'n']
  else if c = '\r' then ['\\', 'r']
  else if c = '\t' then ['\\', 't']
  else if c = '\x08' then ['\\', 'b']
  else if c = '\x0c' then ['\\', 'f']
  else if c.toNat < 0x20 then
    ['\\', 'u', '0', '0', Text.hexDigit (c.toNat / 16), Text.hexDigit c.toNat]
  else [c]

/-- A text as a JSON string. -/
def jsonString (t : Text) : Text := '"' :: t.flatMap escape ++ ['"']

/-- A JSON array of these elements. -/
def jsonArray (elements : List Text) : Text := '[' :: Text.join ", ".toList elements ++ [']']

/-- The texts of values by position. -/
def positionalPairs (texts : List Text) : List (Text × Text) :=
  texts.zipIdx.map fun (t, i) => (Text.ofNat i, t)

/-- The names or positions of values with their texts; names are in order of their code points. -/
def valuePairs : Values → List (Text × Text)
  | .none => []
  | .named entries =>
    (entries.map fun e => (e.1, e.2.text)).mergeSort fun a b => Text.precedes a.1 b.1
  | .positional values => positionalPairs (values.map (·.text))
  | .string t => positionalPairs (t.map ([·]))

/-- The text that a fingerprint is taken of. -/
def payload (source : Text) (values : Values) (isGlobal : Bool) : Text :=
  let pairs := (valuePairs values).map fun p => jsonArray [jsonString p.1, jsonString p.2]
  "\x7b\x22global\x22: ".toList ++ (if isGlobal then "true".toList else "false".toList) ++
    ", \x22source\x22: ".toList ++ jsonString (normalize source) ++
    ", \x22values\x22: ".toList ++ jsonArray pairs ++ "\x7d".toList

end ScopedCss.Fingerprint
