/-
Compiled styles, and how one is compiled from a request.
-/
import ScopedCss.Diagnostic
import ScopedCss.Fingerprint.ClassName
import ScopedCss.Sheet.Expansion
import ScopedCss.Sheet.Parser
import ScopedCss.Stylesheet.Flatten
import ScopedCss.Stylesheet.Printer

namespace ScopedCss

/-- How a registry names and prints its styles, and whether it keeps those that nobody holds. -/
structure Config where
  classStem : Text := Fingerprint.defaultStem
  hashLength : Int := Fingerprint.defaultLength
  retainUnused : Bool := false
  indent : Text := Stylesheet.defaultIndent
deriving DecidableEq, Repr

/-- Why a style is not compiled. -/
inductive Refusal where
  | style (e : Error)
  /-- A transform fails in words of its own. -/
  | foreign (message : Text)
deriving DecidableEq, Repr

def Refusal.text : Refusal → Text
  | style e => e.text
  | foreign message => message

/-- A change to sheets that a registry makes after filling in values. What it does is up to the
host, and it may fail. -/
structure Transform where
  apply : Sheet → Except Refusal Sheet

namespace Transform

/-- The items of a sheet in reverse. -/
def reverse : Transform where
  apply s := .ok s.reverse

/-- The items of a sheet twice over. -/
def double : Transform where
  apply s := .ok (s ++ s)

/-- No items. -/
def empty : Transform where
  apply _ := .ok []

end Transform

/-- What a style is compiled from. -/
structure Request where
  source : Text
  values : Values := .none
  isGlobal : Bool := false

namespace Request

def digest (q : Request) : List UInt8 := Fingerprint.digest q.source q.values q.isGlobal

def fingerprint (q : Request) : Text := Fingerprint.ofStyle q.source q.values q.isGlobal

end Request

/-- A compiled style. -/
structure Style where
  className : Text
  cssText : Text
  fingerprint : Text
  isGlobal : Bool := false
  warnings : List Diagnostic := []
deriving DecidableEq, Repr

namespace Style

/-- The style of a sheet whose values are filled in. -/
def ofSheet (config : Config) (q : Request) (sheet : Sheet) : Except Error Style := do
  let className := Fingerprint.className q.digest config.classStem config.hashLength
  let items ← sheet.flatten ⟨if q.isGlobal then none else some className⟩
  return {
    className := className
    cssText := Stylesheet.print config.indent items
    fingerprint := q.fingerprint
    isGlobal := q.isGlobal
    warnings := Sheet.warnings sheet }

/-- Compiles a request, with an account of the malformed declarations met on the way. -/
def compile (config : Config) (transforms : List Transform) (q : Request) :
    List Declaration × Except Refusal Style :=
  let parse := Sheet.read q.source
  (parse.recovered, do
    let sheet ← parse.result.mapError .style
    let sheet ← (Sheet.expand q.values sheet).mapError .style
    let sheet ← transforms.foldlM (fun s t => t.apply s) sheet
    (ofSheet config q sheet).mapError .style)

end Style

end ScopedCss
