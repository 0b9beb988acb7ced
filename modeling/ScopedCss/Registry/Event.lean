/-
What a registry makes known: events for the host, and log entries for whoever reads the log.
-/
import ScopedCss.Registry.Style

namespace ScopedCss

/-- A notice to the host. -/
inductive Event where
  /-- A style gained its first holder. -/
  | registered (className cssText fingerprint : Text)
  /-- A style lost its last holder. -/
  | unregistered (className fingerprint : Text)
  /-- Any other event, which only hosts emit. -/
  | other (text : Text)
deriving DecidableEq, Repr

inductive EventType where
  | registered
  | unregistered
  | other
deriving DecidableEq, Repr

namespace Event

def type : Event → EventType
  | registered .. => .registered
  | unregistered .. => .unregistered
  | other _ => .other

def ofRegistered (s : Style) : Event := registered s.className s.cssText s.fingerprint

def ofUnregistered (s : Style) : Event := unregistered s.className s.fingerprint

end Event

/-- An entry of the log. -/
inductive LogEntry where
  | recovered (location : Option Location) (reason : Text)
  | compiled (className : Text)
  | reused (className : Text) (holders : Nat)
  | evicted (className : Text)
  | releaseIgnored (className : Text)
deriving DecidableEq, Repr

namespace LogEntry

/-- The entry about a malformed declaration. -/
def ofDangling (d : Declaration) : LogEntry := recovered d.location (d.dangling.getD [])

/-- An entry as one line of the log. -/
def line : LogEntry → Text
  | recovered location reason =>
    "DEBUG stylescope.parser.parser: ".toList ++
      Location.annotate "recovered from malformed declaration".toList location ++ ": ".toList ++
      reason
  | compiled className => "DEBUG stylescope.registry.registry: compiled style ".toList ++ className
  | reused className holders =>
    "DEBUG stylescope.registry.registry: reusing style ".toList ++ className ++
      " (refs=".toList ++ Text.ofNat holders ++ ")".toList
  | evicted className => "DEBUG stylescope.registry.registry: evicted style ".toList ++ className
  | releaseIgnored className =>
    "WARNING stylescope.registry.registry: ignoring release of unregistered style ".toList ++
      className

end LogEntry

end ScopedCss
