/-
The arguments of the command line: `compile`, `check` or `inspect` with a style file and options in
any order, after the options of the program itself.
-/
import ScopedCss.Fingerprint.ClassName

namespace ScopedCss.CommandLine

/-- The name of the program. -/
def programName : Text := "stylescope".toList

/-- The version of the program. -/
def version : Text := "0.1.0".toList

inductive Action where
  | compile
  | check
  | inspect
deriving DecidableEq, Repr

def Action.name : Action → Text
  | compile => "compile".toList
  | check => "check".toList
  | inspect => "inspect".toList

/-- The action of this name. -/
def Action.ofName? (name : Text) : Option Action :=
  [compile, check, inspect].find? (·.name = name)

/-- What is asked for: an action on a file. `extra` holds arguments beyond the file. -/
structure Invocation where
  action : Action
  verbose : Bool := false
  path : Option Text := none
  extra : List Text := []
  isGlobal : Bool := false
  /-- The values of placeholders as given, each to be of the form `NAME=VALUE`. -/
  assignments : List Text := []
  classStem : Text := Fingerprint.defaultStem
deriving Repr

/-- Why arguments are refused. -/
inductive UsageFault where
  | missingCommand
  | unknownCommand (name : Text)
  | unknownOption (option : Text)
  | missingValue (option : Text)
  | unexpectedValue (option : Text)
  | missingFile
  | unexpectedArguments (arguments : List Text)
  | noSuchPath (path : Text)
  | badAssignment (pair : Text)
deriving DecidableEq, Repr

/-- A refusal, by an action or by the program itself. -/
structure UsageError where
  action : Option Action
  fault : UsageFault
deriving DecidableEq, Repr

/-- What arguments come to. -/
inductive Intent where
  | showVersion
  | invoke (invocation : Invocation)
deriving Repr

/-- The options of actions. -/
inductive Switch where
  | isGlobal
  | value
  | classStem
deriving DecidableEq, Repr

/-- The option of this name; only compiling has any. -/
def Switch.ofName? (action : Action) (name : Text) : Option Switch :=
  if action ≠ .compile then none
  else if name = "--global".toList then some isGlobal
  else if name = "--var".toList then some value
  else if name = "--prefix".toList then some classStem
  else none

/-- An option without its value, and the value written after an equals sign. -/
def splitOption (option : Text) : Text × Option Text :=
  match option.dropWhile (· ≠ '=') with
  | [] => (option, none)
  | _ :: value => (option.takeWhile (· ≠ '='), some value)

/-- Whether an argument is an option; a lone dash is none. -/
def isOption (argument : Text) : Bool := argument.head? = some '-' && 1 < argument.length

namespace Invocation

/-- Adds an argument that is no option. -/
def addArgument (i : Invocation) (argument : Text) : Invocation :=
  match i.path with
  | none => { i with path := some argument }
  | some _ => { i with extra := i.extra ++ [argument] }

/-- Sets an option that has a value. -/
def set (i : Invocation) (switch : Switch) (value : Text) : Invocation :=
  match switch with
  | .isGlobal => { i with isGlobal := true }
  | .value => { i with assignments := i.assignments ++ [value] }
  | .classStem => { i with classStem := value }

/-- Reads the arguments of an action. After `--` there are no options. -/
def read (i : Invocation) : List Text → Except UsageError Invocation
  | [] => .ok i
  | a :: rest =>
    if a = "--".toList then .ok (rest.foldl addArgument i)
    else if !isOption a then (i.addArgument a).read rest
    else
      let (option, value) := splitOption a
      match Switch.ofName? i.action option, value with
      | none, _ => .error ⟨some i.action, .unknownOption option⟩
      | some .isGlobal, some _ => .error ⟨some i.action, .unexpectedValue option⟩
      | some .isGlobal, none => (i.set .isGlobal []).read rest
      | some switch, some value => (i.set switch value).read rest
      | some switch, none =>
        match rest with
        | [] => .error ⟨some i.action, .missingValue option⟩
        | value :: rest => (i.set switch value).read rest

end Invocation

/-- Whether an argument is the option for a verbose run; the short one may be repeated. -/
def isVerboseOption (a : Text) : Bool :=
  a = "--verbose".toList || (isOption a && (a.drop 1).all (· = 'v'))

/-- Reads an action and its arguments, unless the version is asked for. -/
def readAction (verbose showVersion : Bool) (arguments : List Text) : Except UsageError Intent :=
  if showVersion then .ok .showVersion
  else
    match arguments with
    | [] => .error ⟨none, .missingCommand⟩
    | name :: rest =>
      match Action.ofName? name with
      | none => .error ⟨none, .unknownCommand name⟩
      | some action => .invoke <$> Invocation.read { action := action, verbose := verbose } rest

/-- Reads the arguments of the program: its own options up to the first argument that is none, or
up to `--`, then an action and its arguments. -/
def readIntent (verbose showVersion : Bool) : List Text → Except UsageError Intent
  | [] => readAction verbose showVersion []
  | a :: rest =>
    if a = "--".toList then readAction verbose showVersion rest
    else if isVerboseOption a then readIntent true showVersion rest
    else if a = "--version".toList then readIntent verbose true rest
    else if isOption a then .error ⟨none, .unknownOption (splitOption a).1⟩
    else readAction verbose showVersion (a :: rest)

/-- What the arguments of a run of the program come to. -/
def parse (arguments : List Text) : Except UsageError Intent := readIntent false false arguments

end ScopedCss.CommandLine
