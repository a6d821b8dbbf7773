import SheetFormula.Log.Event

/-!
# Stored events

A store keeps the latest events, up to a fixed number, and answers questions about them. A service
stands before a store: it lets through what its minimum level admits, or nothing at all if it is not
attached to the store. Events may also be put into the store directly.
-/

namespace SheetFormula.Log

/-- The most events that a store keeps. -/
def storeCapacity : Nat := 10000

/-- The latest events, the oldest first. -/
structure Store where
  events : Array Event := #[]
deriving DecidableEq, Repr

namespace Store

/-- Keeps an event; a full store loses its oldest ones for it. -/
def record (s : Store) (e : Event) : Store :=
  if s.events.size < storeCapacity then ⟨s.events.push e⟩
  else ⟨(s.events.extract (s.events.size + 1 - storeCapacity) s.events.size).push e⟩

/-- The store without events. -/
def clear (_ : Store) : Store := {}

/-- How many events are kept. -/
def size (s : Store) : Nat := s.events.size

/-- The events of one level. -/
def ofLevel (s : Store) (l : Level) : List Event := s.events.toList.filter (·.level = l)

/-- The events with one code. -/
def withCode (s : Store) (c : Code) : List Event := s.events.toList.filter (·.code = c)

/-- How many events of one level are kept. -/
def countOf (s : Store) (l : Level) : Nat := s.events.toList.countP (·.level = l)

end Store

/-- How many events a store keeps, in all and of each level. -/
structure Summary where
  total : Nat
  errors : Nat
  warnings : Nat
  infos : Nat
  debugs : Nat
deriving DecidableEq, Repr

/-- Counts the events of a store. -/
def Store.summary (s : Store) : Summary :=
  ⟨s.size, s.countOf .error, s.countOf .warning, s.countOf .info, s.countOf .debug⟩

/-- A store behind a filter. -/
structure Service where
  minLevel : Level
  /-- What the filter lets through reaches the store. -/
  attached : Bool := true
  store : Store := {}
deriving DecidableEq, Repr

/-- What can be done with a service and its store. -/
inductive Service.Command where
  | log (e : Event)
  /-- Puts an event into the store past the filter. -/
  | logDirect (e : Event)
  | setMinLevel (l : Level)
  | clear
deriving Repr

namespace Service

/-- The filter lets events of this level through. -/
def admits (s : Service) (l : Level) : Bool := s.minLevel.admits l

/-- The service after a command. -/
def step (s : Service) : Command → Service
  | .log e => if s.admits e.level && s.attached then { s with store := s.store.record e } else s
  | .logDirect e => { s with store := s.store.record e }
  | .setMinLevel l => { s with minLevel := l }
  | .clear => { s with store := s.store.clear }

/-- The service after a sequence of commands. -/
def run (s : Service) (cs : List Command) : Service := cs.foldl step s

end Service

end SheetFormula.Log
