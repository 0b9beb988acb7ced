/-
Association lists that keep the order in which their keys came in.
-/
namespace ScopedCss

/-- Values by key, in order of insertion. -/
abbrev Assoc (κ α : Type) := List (κ × α)

namespace Assoc

variable {κ α : Type} [BEq κ]

/-- The value of a key. -/
def get? (m : Assoc κ α) (k : κ) : Option α := (m.find? fun e => e.1 == k).map (·.2)

/-- Sets the value of a key: in its place if it has one, else at the end. -/
def insert (m : Assoc κ α) (k : κ) (v : α) : Assoc κ α :=
  if m.any fun e => e.1 == k then m.map fun e => if e.1 == k then (e.1, v) else e
  else m ++ [(k, v)]

/-- Takes a key out. -/
def erase (m : Assoc κ α) (k : κ) : Assoc κ α := m.filter fun e => !(e.1 == k)

/-- The list that a sequence of insertions makes. -/
def ofList (entries : List (κ × α)) : Assoc κ α := entries.foldl (fun m e => insert m e.1 e.2) []

end Assoc

end ScopedCss
