/-
What the program writes, and the code it ends with.
-/
import ScopedCss.CommandLine.Arguments
import ScopedCss.CommandLine.File
import ScopedCss.CommandLine.Outline
import ScopedCss.Registry.Basic
import ScopedCss.Text.ControlSequence

namespace ScopedCss.CommandLine

/-- Why a run breaks off without a word. -/
inductive Crash where
  /-- No file can have the path, which holds a null character. -/
  | badPath
  | isDirectory
  | notUtf8
deriving DecidableEq, Repr

/-- What a run comes to. -/
structure Outcome where
  exitCode : Nat := 0
  stdout : Text := []
  stderr : Text := []
  crash : Option Crash := none
deriving DecidableEq, Repr

/-- Lines as they are. -/
def unlines (ls : List Text) : Text := ls.flatMap (· ++ ['\n'])

/-- Lines for a reader who gets no control sequences. -/
def echo (ls : List Text) : Text := unlines (ls.map Text.withoutControls)

namespace UsageFault

def message : UsageFault → Text
  | missingCommand => "Missing command.".toList
  | unknownCommand name => "No such command ".toList ++ Text.quoted name ++ ".".toList
  | unknownOption option => "No such option: ".toList ++ option
  | missingValue option => "Option ".toList ++ Text.quoted option ++ " requires an argument.".toList
  | unexpectedValue option =>
    "Option ".toList ++ Text.quoted option ++ " does not take a value.".toList
  | missingFile => "Missing argument 'STYLEFILE'.".toList
  | unexpectedArguments arguments =>
    "Got unexpected extra argument".toList ++
      (if arguments.length = 1 then [] else ['s']) ++ " (".toList ++
      Text.join [' '] arguments ++ ")".toList
  | noSuchPath path =>
    "Invalid value for 'STYLEFILE': Path ".toList ++ Text.quoted path ++ " does not exist.".toList
  | badAssignment pair =>
    "Invalid value for --var: expected NAME=VALUE, got ".toList ++ Text.quoted pair

end UsageFault

section Outcome

-- how lines are put before the reader; the log has lines of its own
variable (echo : List Text → Text)

/-- How a refusal of arguments is reported. -/
def UsageError.outcome (e : UsageError) : Outcome :=
  let command := match e.action with
    | none => programName
    | some action => programName ++ ' ' :: action.name
  let synopsis := match e.action with
    | none => " [OPTIONS] COMMAND [ARGS]...".toList
    | some _ => " [OPTIONS] STYLEFILE".toList
  { exitCode := 2
    stderr := echo [
      "Usage: ".toList ++ command ++ synopsis,
      "Try '".toList ++ command ++ " --help' for help.".toList,
      [],
      "Error: ".toList ++ e.fault.message] }

/-- The values of placeholders; the first pair without a name is refused. A later value of a name
replaces an earlier one. -/
def readAssignments (pairs : List Text) : Except UsageFault (Assoc Text Value) :=
  Assoc.ofList <$> pairs.mapM fun pair =>
    match pair.takeWhile (· ≠ '='), pair.dropWhile (· ≠ '=') with
    | [], _ => .error (.badAssignment pair)
    | _, [] => .error (.badAssignment pair)
    | name, _ :: value => .ok (name, .string value)

/-- The log that a verbose run shows. -/
def logText (i : Invocation) (log : List LogEntry) : Text :=
  if i.verbose then unlines (log.map (·.line)) else []

/-- What was wrong, as the last line of a run. -/
def errorLine (text : Text) : Text := "Error: ".toList ++ text

/-- Compiles a style. -/
def runCompile (i : Invocation) (values : Assoc Text Value) (source : Text) : Outcome :=
  let registry : Registry := { config := { classStem := i.classStem } }
  let request : Request := { source := source, values := .named values, isGlobal := i.isGlobal }
  let c := registry.compile [] 0 request
  let log := logText i c.log
  match c.result with
  | .error e => { exitCode := 1, stderr := log ++ echo [errorLine e.text] }
  | .ok h =>
    match c.holdings[h]? with
    | none => { stderr := log }
    | some holding =>
      let style := holding.style
      { stdout := echo (
          ("/* ".toList ++ style.className ++ " */".toList) ::
            if style.cssText.isEmpty then [] else [style.cssText])
        stderr := log ++ echo (style.warnings.map (·.text)) }

/-- Reports on a style without compiling it. -/
def runCheck (i : Invocation) (path source : Text) : Outcome :=
  let parse := Sheet.read source
  let log := logText i (parse.recovered.map .ofDangling)
  match parse.result with
  | .error e => { exitCode := 1, stderr := log ++ echo [(Diagnostic.ofError e).text] }
  | .ok sheet =>
    let warnings := Sheet.warnings sheet
    let report :=
      if warnings.isEmpty then
        ["OK: ".toList ++ baseName path ++ " is valid (0 diagnostics)".toList]
      else
        warnings.map (·.text) ++ [[], "Summary: 0 error(s), ".toList ++
          Text.ofNat warnings.length ++ " warning(s)".toList]
    { stdout := echo report, stderr := log }

/-- Shows the outline of a style. -/
def runInspect (i : Invocation) (source : Text) : Outcome :=
  let parse := Sheet.read source
  let log := logText i (parse.recovered.map .ofDangling)
  match parse.result with
  | .error e => { exitCode := 1, stderr := log ++ echo [errorLine e.text] }
  | .ok sheet =>
    { stdout := echo (("Items: ".toList ++ Text.ofNat sheet.length) :: Sheet.outline 0 sheet)
      stderr := log }

/-- Does what is asked with the file it names. Faults of the arguments come first, the file's
absence before all others. -/
def Invocation.run (i : Invocation) (lookup : Text → File) : Outcome :=
  let refuse := fun fault => UsageError.outcome echo ⟨some i.action, fault⟩
  match i.path with
  | none => refuse .missingFile
  | some path =>
    let file := lookup path
    match path.contains '\x00', file with
    | true, _ => { exitCode := 1, crash := some .badPath }
    | false, .missing => refuse (.noSuchPath path)
    | false, _ =>
      if !i.extra.isEmpty then refuse (.unexpectedArguments i.extra)
      else
        match readAssignments i.assignments with
        | .error fault => refuse fault
        | .ok values =>
          match file with
          | .regular bytes =>
            match decode? bytes with
            | none => { exitCode := 1, crash := some .notUtf8 }
            | some source =>
              match i.action with
              | .compile => runCompile echo i values source
              | .check => runCheck echo i path source
              | .inspect => runInspect echo i source
          | _ => { exitCode := 1, crash := some .isDirectory }

end Outcome

/-- Runs the program on arguments, with the files that `lookup` finds. -/
def run (arguments : List Text) (lookup : Text → File) : Outcome :=
  match parse arguments with
  | .error e => e.outcome echo
  | .ok .showVersion => { stdout := echo [programName ++ ", version ".toList ++ version] }
  | .ok (.invoke i) => i.run echo lookup

end ScopedCss.CommandLine
