import TypedBindings.Text.Number

/-!
# Log levels

The level of an event, and limits up to which events are let through.
-/

namespace TypedBindings.Log

inductive Level where
  | error
  | warn
  | info
  | debug
  | trace
deriving DecidableEq, Repr

/-- How much a level lets through; errors are let through by every level. -/
def Level.rank : Level → Nat
  | .error => 1
  | .warn => 2
  | .info => 3
  | .debug => 4
  | .trace => 5

def Level.name : Level → String
  | .error => "error"
  | .warn => "warn"
  | .info => "info"
  | .debug => "debug"
  | .trace => "trace"

/-- Lets through nothing, or the events up to a level. -/
inductive Limit where
  | off
  | upTo (level : Level)
deriving DecidableEq, Repr

namespace Limit

/-- Every limit, by increasing rank. -/
def all : List Limit :=
  [.off, .upTo .error, .upTo .warn, .upTo .info, .upTo .debug, .upTo .trace]

def name : Limit → String
  | .off => "off"
  | .upTo level => level.name

/-- Whether an event of a level is let through. -/
def admits : Limit → Level → Bool
  | .off, _ => false
  | .upTo limit, level => level.rank ≤ limit.rank

/-- Reads a limit: its rank, or its name in any case. An empty text means errors. -/
def ofText? (text : List Char) : Option Limit :=
  match (Text.count? text).bind fun n => all[n]? with
  | some limit => some limit
  | none =>
    if text.isEmpty then some (.upTo .error)
    else all.find? fun limit => limit.name.toList = text.map Char.toLower

end Limit

/-- The wishes of a command line about the log. -/
structure Options where
  verbosity : Option Nat := none
  isSilent : Option Bool := none
  limit : Option Limit := none

/-- The limit that options ask for, if any: an explicit one, or that of the verbosity, or
silence. -/
def Options.wanted? (o : Options) : Option Limit :=
  match o.limit, o.verbosity, o.isSilent with
  | some limit, _, _ => some limit
  | none, some 1, _ => some (.upTo .debug)
  | none, some (_ + 2), _ => some (.upTo .trace)
  | none, _, some true => some .off
  | none, _, _ => none

end TypedBindings.Log
