/-
Handles of compiled styles and how often each is held. A handle stays valid after its registry has
dropped it, and its count outlives that too.
-/
import ScopedCss.Registry.Style

namespace ScopedCss

/-- The number of a compiled style, in order of compilation. -/
abbrev Handle := Nat

/-- The number of a registry, in order of creation. -/
abbrev RegistryId := Nat

/-- A style, the number of its holders and the registry that compiled it. -/
structure Holding where
  style : Style
  holders : Nat := 0
  owner : Option RegistryId := none
deriving DecidableEq, Repr

/-- Every style ever compiled, by handle. -/
abbrev Holdings := List Holding

namespace Holdings

/-- The number of holders of a handle. -/
def holders (hs : Holdings) (h : Handle) : Nat := (hs[h]?.map (·.holders)).getD 0

/-- The handle that the next style gets. -/
def fresh (hs : Holdings) : Handle := hs.length

/-- Adds a style that nobody holds yet. -/
def add (hs : Holdings) (style : Style) (owner : Option RegistryId) : Holdings :=
  hs ++ [{ style := style, owner := owner }]

/-- Changes the number of holders of a handle. -/
def setHolders (hs : Holdings) (h : Handle) (n : Nat) : Holdings :=
  hs.modify h fun holding => { holding with holders := n }

end Holdings

end ScopedCss
