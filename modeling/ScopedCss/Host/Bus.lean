/-
Buses: who is told of which events. An event goes to those who listen to everything and then to
those who listen to its type, each group in order of subscription.
-/
import ScopedCss.Registry.Event

namespace ScopedCss

/-- The number of a listener, in order of definition. -/
abbrev ListenerId := Nat

/-- The subscriptions to one bus. -/
structure Bus where
  toAll : List ListenerId := []
  toType : List (EventType × ListenerId) := []
deriving DecidableEq, Repr

namespace Bus

def subscribeAll (b : Bus) (l : ListenerId) : Bus := { b with toAll := b.toAll ++ [l] }

def subscribe (b : Bus) (type : EventType) (l : ListenerId) : Bus :=
  { b with toType := b.toType ++ [(type, l)] }

/-- Takes a listener off every subscription. -/
def unsubscribe (b : Bus) (l : ListenerId) : Bus :=
  { toAll := b.toAll.filter (· ≠ l), toType := b.toType.filter (·.2 ≠ l) }

/-- Whom an event goes to, in order. -/
def audience (b : Bus) (e : Event) : List ListenerId :=
  b.toAll ++ (b.toType.filter (·.1 = e.type)).map (·.2)

end Bus

end ScopedCss
