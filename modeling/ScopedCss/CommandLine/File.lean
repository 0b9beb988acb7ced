/-
Style files: what stands at a path, and the text in a file.
-/
import ScopedCss.Text.Line

namespace ScopedCss.CommandLine

/-- What stands at a path. -/
inductive File where
  | missing
  | directory
  | regular (bytes : ByteArray)

/-- The text of a file, its line ends unified; none if it is no UTF-8. -/
def decode? (bytes : ByteArray) : Option Text :=
  (String.fromUTF8? bytes).map fun s => Text.unifyBreaks s.toList

/-- A path cut at its slashes. -/
def splitPath : Text → List Text
  | [] => [[]]
  | c :: t =>
    if c = '/' then [] :: splitPath t
    else
      match splitPath t with
      | [] => [[c]]
      | part :: parts => (c :: part) :: parts

/-- Whether a part of a path stays where it is. -/
def isStay (part : Text) : Bool := part.isEmpty || part = ['.']

/-- Whether a part of a path goes up. -/
def isUp (part : Text) : Bool := part = ['.', '.']

/-- The parts of a path that name something. -/
def pathParts (path : Text) : List Text := (splitPath path).filter (!isStay ·)

/-- The last part of a path. -/
def baseName (path : Text) : Text := (pathParts path).getLast?.getD []

/-- The files of a working directory by the parts of their paths. -/
abbrev Directory := List (List Text × ByteArray)

/-- Where a path leads. -/
inductive Place where
  | nowhere
  | file (bytes : ByteArray)
  /-- The working directory, or one in it. -/
  | within (parts : List Text)
  /-- A directory around the working directory. -/
  | around

namespace Place

/-- Where one more part of a path leads. Directories are known only in the working directory, and
nothing leads on from a file. -/
def follow (d : Directory) (place : Place) (part : Text) : Place :=
  match place with
  | nowhere => nowhere
  | file _ => nowhere
  | around => if isStay part || isUp part then around else nowhere
  | within parts =>
    if isStay part then within parts
    else if isUp part then if parts.isEmpty then around else within parts.dropLast
    else
      match d.find? (·.1 = parts ++ [part]) with
      | some (_, bytes) => file bytes
      | none =>
        if d.any fun f => (parts ++ [part]).isPrefixOf f.1 then within (parts ++ [part])
        else nowhere

def toFile : Place → File
  | nowhere => .missing
  | file bytes => .regular bytes
  | within _ => .directory
  | around => .directory

end Place

/-- How many bytes a path may have. -/
def longestPath : Nat := 4095

/-- What stands at a path, seen from a working directory with these files. A path that begins with a
slash begins at the root. -/
def Directory.lookup (d : Directory) (path : Text) : File :=
  if path.isEmpty || longestPath < (String.ofList path).utf8ByteSize then .missing
  else
    let start := if path.head? = some '/' then Place.around else .within []
    ((splitPath path).foldl (Place.follow d) start).toFile

end ScopedCss.CommandLine
