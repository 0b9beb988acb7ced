/-
Running commands. Every change of a registry is made before its event is published, and a listener
may answer an event with commands of its own, so commands nest; `depth` bounds how deeply.
-/
import ScopedCss.Host.Basic

namespace ScopedCss.Host

/-- Tells one listener of an event. `react` runs its commands. -/
def notify (react : List Command → Run Unit) (e : Event) (l : ListenerId) : Run Unit := do
  match (← get).listeners[l]? with
  | none => throw .unknownListener
  | some listener =>
    modify fun s =>
      { s with
        calls := (listener.name, e) :: s.calls
        listeners := s.listeners.set l { listener with calls := listener.calls + 1 } }
    if listener.isActive then react listener.reaction

/-- Publishes an event on a bus, to those who listen there when it starts. A listener that fails
keeps the later ones from being told. -/
def publish (react : List Command → Run Unit) (bus : BusId) (e : Event) : Run Unit := do
  match (← get).buses[bus]? with
  | none => return
  | some b => (b.audience e).forM (notify react e)

/-- Makes a change to a registry, then publishes its event. -/
def commit {α : Type} (react : List Command → Run Unit) (r : RegistryId)
    (change : Registry → Holdings → Change α) : Run α := do
  let (registry, bus) ← registryAt r
  let c := change registry (← get).holdings
  modify fun s =>
    { s with registries := s.registries.set r (c.registry, bus), holdings := c.holdings }
  writeLog c.log
  match c.result with
  | .error e => throw (.ofRefusal e)
  | .ok a =>
    match c.event with
    | some e => publish react bus e
    | none => pure ()
    return a

/-- The registry that compiled a style. -/
def ownerOf (h : Handle) : Run RegistryId := do
  let holding ← holdingOf h
  match holding.owner with
  | some r => return r
  | none => throw (.detached holding.style.className)

/-- Releases a style from the registry that compiled it. -/
def releaseOwn (react : List Command → Run Unit) (h : Handle) : Run Unit := do
  commit react (← ownerOf h) fun r hs => r.release hs h

def findKey : KeyRef → Run Text
  | .fingerprint key => return key
  | .style number => do return (← holdingOf (← findStyle number)).style.fingerprint

/-- Runs a body and then the release of a style. A failure of the release comes before one of the
body. -/
def releasingAfter {α : Type} (release : Run Unit) (body : Run α) : Run α := fun s =>
  let (result, s) := body.run s
  match release.run s with
  | (.error e, s) => (.error e, s)
  | (.ok (), s) => (result, s)

/-- Runs one command; `inner` runs the commands that it gives rise to. -/
def runCommand (inner : Command → Run Reply) (c : Command) : Run Reply := do
  let react := fun cs : List Command => cs.forM fun c => discard (inner c)
  match c with
  | .createRegistry name config bus transforms =>
    let bus ← match bus with
      | some bus => namedBus bus
      | none => addBus
    let r ← addRegistry { config := config, transforms := transforms } bus
    modify fun s => { s with registryNames := s.registryNames.insert name r }
    return .nothing
  | .resetStandard config =>
    let r ← addRegistry { config := config } (← addBus)
    modify fun s => { s with standard := some r }
    return .nothing
  | .compile registry request =>
    let r ← findRegistry registry
    showStyle (← commit react r fun registry hs => registry.compile hs r request)
  | .createDetached style =>
    let h := (← get).holdings.fresh
    modify fun s => { s with holdings := s.holdings.add style none }
    showStyle h
  | .register style =>
    let h ← findStyle style
    commit react (← ownerOf h) fun r hs => r.acquire hs h
    showStyle h
  | .unregister style =>
    releaseOwn react (← findStyle style)
    return .nothing
  | .acquire registry style =>
    let r ← findRegistry registry
    let h ← findStyle style
    commit react r fun r hs => r.acquire hs h
    return .nothing
  | .release registry style =>
    let r ← findRegistry registry
    let h ← findStyle style
    commit react r fun r hs => r.release hs h
    return .nothing
  | .within style body =>
    let h ← findStyle style
    releasingAfter (releaseOwn react h) (.replies <$> body.mapM inner)
  | .className style => return .text (← holdingOf (← findStyle style)).style.className
  | .get registry key =>
    let (r, _) ← registryAt (← findRegistry registry)
    match r.get? (← findKey key) with
    | some h => showStyle h
    | none => return .nothing
  | .contains registry key =>
    let (r, _) ← registryAt (← findRegistry registry)
    return .truth (r.get? (← findKey key)).isSome
  | .styles registry =>
    let (r, _) ← registryAt (← findRegistry registry)
    return .numbers (← r.handles.mapM numberOf)
  | .size registry =>
    let (r, _) ← registryAt (← findRegistry registry)
    return .number r.entries.length
  | .clear registry =>
    let id ← findRegistry registry
    let (r, bus) ← registryAt id
    modify fun s => { s with registries := s.registries.set id (r.clear, bus) }
    return .nothing
  | .defineListener name reaction limit =>
    modify fun s =>
      { s with
        listeners := s.listeners ++ [{ name := name, reaction := reaction, limit := limit }]
        listenerNames := s.listenerNames.insert name s.listeners.length }
    return .nothing
  | .subscribe name type bus =>
    let l ← findListener name
    let b ← findBus bus
    modify fun s => { s with buses := s.buses.modify b (·.subscribe type l) }
    return .nothing
  | .subscribeAll name bus =>
    let l ← findListener name
    let b ← findBus bus
    modify fun s => { s with buses := s.buses.modify b (·.subscribeAll l) }
    return .nothing
  | .unsubscribe name bus =>
    let l ← findListener name
    let b ← findBus bus
    modify fun s => { s with buses := s.buses.modify b (·.unsubscribe l) }
    return .nothing
  | .emit event bus =>
    publish react (← findBus bus) event
    return .nothing
  | .fail message => throw (.deliberate message)

/-- Runs a command whose commands nest at most `depth` deep. -/
def run : (depth : Nat) → Command → Run Reply
  | 0, _ => throw .tooDeep
  | depth + 1, c => runCommand (run depth) c

/-- A stored style: its number, class name and holders. -/
structure Stored where
  number : Nat
  className : Text
  holders : Nat

/-- What is seen of a host after a command. -/
structure Report where
  result : Except Failure Reply
  calls : List (Text × Event)
  log : List LogEntry
  /-- What each named registry stores, in order of creation. -/
  registries : List (Text × List Stored)
  /-- What the standard registry stores, once there is one. -/
  standard : Option (List Stored)
  /-- The holders of every style shown, by number. -/
  holders : List Nat

/-- What a registry stores; styles not shown before are shown now. -/
def storedIn (r : RegistryId) : Run (List Stored) := do
  let (registry, _) ← registryAt r
  registry.handles.mapM fun h => do
    let number ← numberOf h
    let holding ← holdingOf h
    return ⟨number, holding.style.className, holding.holders⟩

/-- What the registries store, the standard one last. -/
def stored : Run (List (Text × List Stored) × Option (List Stored)) := do
  let named ← (← get).registryNames.mapM fun e => return (e.1, ← storedIn e.2)
  match (← get).standard with
  | none => return (named, none)
  | some r => return (named, some (← storedIn r))

/-- How deeply the commands of a session may nest. -/
def sessionDepth : Nat := 1000

/-- Runs one command of a session and reports on the host after it. -/
def step (s : State) (c : Command) : Report × State :=
  let (result, s) := (run sessionDepth c).run { s with calls := [], log := [] }
  let (now, s') := stored.run s
  let (named, standard) := match now with
    | .ok r => r
    | .error _ => ([], none)
  ({ result := result
     calls := s.calls.reverse
     log := s.log.reverse
     registries := named
     standard := standard
     holders := s'.shown.map s'.holdings.holders }, s')

/-- Runs a session from a host where nothing exists. -/
def session (commands : List Command) : List Report :=
  (commands.foldl (fun (reports, s) c =>
    let (report, s) := step s c
    (reports ++ [report], s)) ([], {})).1

end ScopedCss.Host
