/-
The state of a host: its registries, buses, listeners and styles, and what happened during the
command at hand. Registries, buses and listeners are numbered in order of creation, and their names
may move on to newer ones while older ones live on.
-/
import ScopedCss.Host.Command

namespace ScopedCss.Host

/-- The number of a bus, in order of creation. -/
abbrev BusId := Nat

/-- A listener and how often it has been called. -/
structure Listener where
  name : Text
  reaction : List Command
  limit : Option Int
  calls : Nat := 0

/-- Whether a listener still reacts. -/
def Listener.isActive (l : Listener) : Bool := l.limit.all fun n : Int => l.calls < n

structure State where
  registries : List (Registry × BusId) := []
  buses : List Bus := []
  listeners : List Listener := []
  holdings : Holdings := []
  registryNames : Assoc Text RegistryId := []
  busNames : Assoc Text BusId := []
  listenerNames : Assoc Text ListenerId := []
  standard : Option RegistryId := none
  /-- The styles shown so far; the number of a style is its place here. -/
  shown : List Handle := []
  /-- The calls of listeners during the command at hand, the last one first. -/
  calls : List (Text × Event) := []
  /-- The log of the command at hand, the last entry first. -/
  log : List LogEntry := []

/-- A computation that may fail and keeps the changes made before it fails. -/
abbrev Run := ExceptT Failure (StateM State)

/-- Adds a bus. -/
def addBus : Run BusId := do
  let s ← get
  set { s with buses := s.buses ++ [Bus.mk [] []] }
  return s.buses.length

/-- Adds a registry on a bus. -/
def addRegistry (r : Registry) (bus : BusId) : Run RegistryId := do
  let s ← get
  set { s with registries := s.registries ++ [(r, bus)] }
  return s.registries.length

/-- The bus of a name, made on first use. -/
def namedBus (name : Text) : Run BusId := do
  match (← get).busNames.get? name with
  | some b => return b
  | none =>
    let b ← addBus
    modify fun s => { s with busNames := s.busNames.insert name b }
    return b

/-- A registry, made with a bus of its own on first use. -/
def findRegistry : RegistryRef → Run RegistryId
  | .named name => do
    match (← get).registryNames.get? name with
    | some r => return r
    | none =>
      let r ← addRegistry {} (← addBus)
      modify fun s => { s with registryNames := s.registryNames.insert name r }
      return r
  | .standard => do
    match (← get).standard with
    | some r => return r
    | none =>
      let r ← addRegistry {} (← addBus)
      modify fun s => { s with standard := some r }
      return r

/-- The registry of a number and the number of its bus. -/
def registryAt (r : RegistryId) : Run (Registry × BusId) := do
  return ((← get).registries[r]?).getD ({}, 0)

/-- A bus by reference, made on first use. -/
def findBus : BusRef → Run BusId
  | .named name => namedBus name
  | .ofRegistry registry => do return (← registryAt (← findRegistry registry)).2

/-- The handle of the style of this number. -/
def findStyle (number : Nat) : Run Handle := do
  match (← get).shown[number]? with
  | some h => return h
  | none => throw .unknownStyle

def holdingOf (h : Handle) : Run Holding := do
  match (← get).holdings[h]? with
  | some holding => return holding
  | none => throw .unknownStyle

def findListener (name : Text) : Run ListenerId := do
  match (← get).listenerNames.get? name with
  | some l => return l
  | none => throw .unknownListener

/-- The number of a style, given to it now if it was not shown before. -/
def numberOf (h : Handle) : Run Nat := do
  let s ← get
  match s.shown.findIdx? (· = h) with
  | some n => return n
  | none =>
    set { s with shown := s.shown ++ [h] }
    return s.shown.length

/-- A style as a reply. -/
def showStyle (h : Handle) : Run Reply := do
  let number ← numberOf h
  return .style number (← holdingOf h)

def writeLog (entries : List LogEntry) : Run Unit :=
  modify fun s => { s with log := entries.reverse ++ s.log }

end ScopedCss.Host
