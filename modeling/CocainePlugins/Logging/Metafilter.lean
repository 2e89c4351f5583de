import CocainePlugins.Logging.Filter

/-!
# Metafilters

A metafilter holds filters, each with a deadline, and accepts a record when one of them does. What
it counts is in the metrics hub and decides nothing, so the filters stand alone here. A filter
is what decides about a record, whatever its own structure is; the service has those of
`Filter.accepts`.
-/

namespace Cocaine.Logging

open Framework

def Filter.accepts (P : Platform) (f : Filter) (r : LogRecord) : Bool := f.apply P r = .accept

/-- `emit_ack` adds the name of the logger to the attributes, which are one list. -/
def LogRecord.withSource (r : LogRecord) (backend : Str) : LogRecord :=
  { r with attributes := [r.attributes.flatten ++ [("source".toList, .string backend)]] }

inductive Disposition where
  | localOnly | cluster
deriving DecidableEq, Repr

structure FilterInfo (φ : Type) where
  filter : φ
  /-- In seconds, as the clock. -/
  deadline : Nat
  id : Nat
  disposition : Disposition
  loggerName : Str
deriving DecidableEq, Repr

def FilterInfo.expired {φ : Type} (info : FilterInfo φ) (now : Nat) : Bool := info.deadline < now

structure Metafilter (φ : Type) where
  filters : List (FilterInfo φ) := []
deriving DecidableEq, Repr

namespace Metafilter

variable {φ : Type} (m : Metafilter φ)

def hasFilter (id : Nat) : Bool := m.filters.any (·.id = id)

def hasExpired (now : Nat) : Bool := m.filters.any (·.expired now)

def addFilter (info : FilterInfo φ) : Metafilter φ :=
  if m.hasFilter info.id then m else { m with filters := m.filters ++ [info] }

/-- `remove_filter`, and whether there was such a filter. -/
def removeFilter (id : Nat) : Metafilter φ × Bool :=
  if m.hasFilter id then ({ m with filters := m.filters.eraseP (·.id = id) }, true) else (m, false)

def empty : Bool := m.filters.isEmpty

def cleanup (now : Nat) : Metafilter φ :=
  { m with filters := m.filters.filter fun info => !info.expired now }

/-- The loop of `apply`: whether a filter has expired, and whether one accepts the record. -/
def scan (now : Nat) (accepts : φ → Bool) : List (FilterInfo φ) → Bool × Bool :=
  List.foldl (fun p info =>
    if info.expired now then (true, p.2)
    else if !p.2 && accepts info.filter then (p.1, true)
    else p) (false, false)

/-- `apply`, and whether the record is accepted. -/
def apply (now : Nat) (accepts : φ → Bool) : Metafilter φ × Bool :=
  let p := scan now accepts m.filters
  (if p.1 then m.cleanup now else m, p.2)

end Metafilter

end Cocaine.Logging
