/-
Findings about a style that do not stop it from being compiled, and errors shown in the same form.
-/
import ScopedCss.Error
import ScopedCss.Sheet.Basic

namespace ScopedCss

inductive Severity where
  | error
  | warning
  | info
deriving DecidableEq, Repr

def Severity.label : Severity → Text
  | error => "ERROR".toList
  | warning => "WARNING".toList
  | info => "INFO".toList

/-- A finding of the check named `rule`. -/
structure Diagnostic where
  rule : Text
  severity : Severity
  message : Text
  location : Option Location
deriving DecidableEq, Repr

namespace Diagnostic

/-- The warning about a malformed declaration. -/
def ofDangling (d : Declaration) : Diagnostic :=
  let reason := d.dangling.getD []
  { rule := "dangling_declaration".toList
    severity := .warning
    message := if reason.isEmpty then "malformed declaration".toList else reason
    location := d.location }

/-- An error as a finding. -/
def ofError (e : Error) : Diagnostic :=
  { rule := e.fault.kind, severity := .error, message := e.message, location := e.location }

def text (d : Diagnostic) : Text :=
  let place := match d.location with
    | none => []
    | some l => " [".toList ++ l.text ++ "]".toList
  d.severity.label ++ place ++ ": ".toList ++ d.message

end Diagnostic

/-- The warnings about the malformed declarations of a sheet, in source order. -/
def Sheet.warnings (s : Sheet) : List Diagnostic := (Sheet.danglingInOrder s).map .ofDangling

end ScopedCss
