/-
What a host can be told to do, and what it answers. Styles are named by the number under which the
session first showed them.
-/
import ScopedCss.Host.Bus
import ScopedCss.Registry.Basic

namespace ScopedCss.Host

/-- A registry by its name, or the standard one of the process. -/
inductive RegistryRef where
  | named (name : Text)
  | standard
deriving DecidableEq, Repr

/-- A bus by its name, or the one of a registry. -/
inductive BusRef where
  | named (name : Text)
  | ofRegistry (registry : RegistryRef)
deriving DecidableEq, Repr

/-- A fingerprint, or that of a style. -/
inductive KeyRef where
  | fingerprint (key : Text)
  | style (number : Nat)
deriving DecidableEq, Repr

inductive Command where
  | createRegistry (name : Text) (config : Config) (bus : Option Text)
      (transforms : List Transform)
  | resetStandard (config : Config)
  | compile (registry : RegistryRef) (request : Request)
  /-- Makes a style that belongs to no registry. -/
  | createDetached (style : Style)
  | register (style : Nat)
  | unregister (style : Nat)
  | acquire (registry : RegistryRef) (style : Nat)
  | release (registry : RegistryRef) (style : Nat)
  /-- Runs commands and then releases the style, whether they succeed or not. -/
  | within (style : Nat) (body : List Command)
  | className (style : Nat)
  | get (registry : RegistryRef) (key : KeyRef)
  | contains (registry : RegistryRef) (key : KeyRef)
  | styles (registry : RegistryRef)
  | size (registry : RegistryRef)
  | clear (registry : RegistryRef)
  /-- Defines a listener that reacts to an event with commands, at most `limit` times. -/
  | defineListener (name : Text) (reaction : List Command) (limit : Option Int)
  | subscribe (listener : Text) (type : EventType) (bus : BusRef)
  | subscribeAll (listener : Text) (bus : BusRef)
  | unsubscribe (listener : Text) (bus : BusRef)
  | emit (event : Event) (bus : BusRef)
  /-- Fails on purpose. -/
  | fail (message : Text)

/-- Why a command fails. -/
inductive Failure where
  | style (e : Error)
  | detached (className : Text)
  /-- What the host itself fails with, in a listener or a transform. -/
  | deliberate (message : Text)
  | unknownStyle
  | unknownListener
  /-- Listeners and commands call each other too deeply. -/
  | tooDeep
deriving DecidableEq, Repr

/-- A refusal as a failure: the words of a transform are those of the host itself. -/
def Failure.ofRefusal : Refusal → Failure
  | .style e => style e
  | .foreign message => deliberate message

/-- The wording of the failures that have one of their own. -/
def Failure.message : Failure → Text
  | style e => e.message
  | detached className =>
    "style ".toList ++ className ++ " is not attached to a registry".toList
  | deliberate message => message
  | unknownStyle => "unknown style".toList
  | unknownListener => "unknown listener".toList
  | tooDeep => "commands are nested too deeply".toList

/-- What a command answers. A style is shown as it is at that moment. -/
inductive Reply where
  | nothing
  | style (number : Nat) (holding : Holding)
  | truth (b : Bool)
  | number (n : Nat)
  | numbers (ns : List Nat)
  | text (t : Text)
  | replies (rs : List Reply)

end ScopedCss.Host
