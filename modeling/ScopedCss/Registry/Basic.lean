/-
Registries: the compiled styles that are shared, by fingerprint. Each operation changes the registry
and the holdings first and says what event is to be published about it; publishing is the host's
part, so an event is never seen before its change.
-/
import ScopedCss.Assoc
import ScopedCss.Registry.Event
import ScopedCss.Registry.Holdings

namespace ScopedCss

/-- A cache of compiled styles. -/
structure Registry where
  config : Config := {}
  transforms : List Transform := []
  entries : Assoc Text Handle := []

/-- What an operation comes to. A failed one has changed nothing. -/
structure Change (α : Type) where
  registry : Registry
  holdings : Holdings
  event : Option Event := none
  log : List LogEntry := []
  result : Except Refusal α

namespace Registry

/-- Adds a holder of `h`, whose style is `holding`; the first one is announced. -/
def hold {α : Type} (r : Registry) (hs : Holdings) (h : Handle) (holding : Holding)
    (log : List LogEntry) (result : α) : Change α :=
  { registry := r
    holdings := hs.setHolders h (holding.holders + 1)
    event := if holding.holders = 0 then some (.ofRegistered holding.style) else none
    log := log
    result := .ok result }

/-- The shared style of a request, compiled on first use, with one more holder. `owner` is this
registry's own number. A request whose values cannot be written has no fingerprint. -/
def compile (r : Registry) (hs : Holdings) (owner : RegistryId) (q : Request) : Change Handle :=
  match q.values.check with
  | .error e => { registry := r, holdings := hs, result := .error (.style e) }
  | .ok () =>
    match (r.entries.get? q.fingerprint).bind fun h => hs[h]?.map (h, ·) with
    | some (h, holding) =>
      r.hold hs h holding [.reused holding.style.className holding.holders] h
    | none =>
      let (recovered, result) := Style.compile r.config r.transforms q
      let log := recovered.map .ofDangling
      match result with
      | .error e => { registry := r, holdings := hs, log := log, result := .error e }
      | .ok style =>
        let h := hs.fresh
        let r := { r with entries := r.entries.insert q.fingerprint h }
        r.hold (hs.add style (some owner)) h { style := style, owner := some owner }
          (log ++ [.compiled style.className]) h

/-- One more holder of a style that is already compiled; a style dropped earlier is taken in
again. -/
def acquire (r : Registry) (hs : Holdings) (h : Handle) : Change Unit :=
  match hs[h]? with
  | none => { registry := r, holdings := hs, result := .ok () }
  | some holding =>
    let style := holding.style
    match r.entries.get? style.fingerprint with
    | none =>
      { r with entries := r.entries.insert style.fingerprint h }.hold hs h holding [] ()
    | some current =>
      if current = h then r.hold hs h holding [] ()
      else
        { registry := r
          holdings := hs
          result := .error (.style ⟨.replaced style.className, none⟩) }

/-- One holder less. The last release drops the style, unless unused styles are kept, and is
announced. A release of a style that is not stored or that nobody holds is ignored. -/
def release (r : Registry) (hs : Holdings) (h : Handle) : Change Unit :=
  match hs[h]? with
  | none => { registry := r, holdings := hs, result := .ok () }
  | some holding =>
    let style := holding.style
    if r.entries.get? style.fingerprint ≠ some h || holding.holders = 0 then
      { registry := r, holdings := hs, log := [.releaseIgnored style.className], result := .ok () }
    else
      let hs := hs.setHolders h (holding.holders - 1)
      if holding.holders ≠ 1 then { registry := r, holdings := hs, result := .ok () }
      else if r.config.retainUnused then
        { registry := r, holdings := hs, event := some (.ofUnregistered style), result := .ok () }
      else
        { registry := { r with entries := r.entries.erase style.fingerprint }
          holdings := hs
          event := some (.ofUnregistered style)
          log := [.evicted style.className]
          result := .ok () }

/-- The handle stored under a fingerprint. -/
def get? (r : Registry) (fingerprint : Text) : Option Handle := r.entries.get? fingerprint

/-- The stored handles in order of insertion. -/
def handles (r : Registry) : List Handle := r.entries.map (·.2)

/-- Drops every style. Holders are not told, and counts stay as they are. -/
def clear (r : Registry) : Registry := { r with entries := [] }

end Registry

end ScopedCss
