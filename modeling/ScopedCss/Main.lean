/-
The command line program: reads the style file that the arguments name and writes what the run comes
to.
-/
import ScopedCss.CommandLine.Run

namespace ScopedCss.CommandLine

/-- The code of the system for reading a directory as a file. -/
def isDirectoryCode : UInt32 := 21

/-- What stands at a path of the file system. -/
def readFile (path : String) : IO File := do
  match ← (IO.FS.readBinFile path).toBaseIO with
  | .ok bytes => return .regular bytes
  | .error (.inappropriateType _ code _) =>
    return if code = isDirectoryCode then .directory else .missing
  | .error _ => return .missing

/-- The file that arguments name. -/
def namedFile (arguments : List Text) : IO File := do
  match parse arguments with
  | .ok (.invoke { path := some path, .. }) => readFile (String.ofList path)
  | _ => return .missing

def Crash.message : Crash → Text
  | badPath => "the path of the style file holds a null character".toList
  | isDirectory => "the style file is a directory".toList
  | notUtf8 => "the style file is not UTF-8".toList

end ScopedCss.CommandLine

open ScopedCss in
def main (arguments : List String) : IO UInt32 := do
  let arguments := arguments.map String.toList
  let file ← CommandLine.namedFile arguments
  let outcome := CommandLine.run arguments fun _ => file
  IO.print (String.ofList outcome.stdout)
  IO.eprint (String.ofList outcome.stderr)
  if let some crash := outcome.crash then IO.eprintln (String.ofList crash.message)
  return outcome.exitCode.toUInt32
