import TypedBindings.Log.Filter
import TypedBindings.Text.Hex

/-!
# The log on the console

How the events of a run reach standard output and standard error.
-/

namespace TypedBindings.Log

/-- Where events are written. -/
inductive Writer where
  /-- Warnings and errors to standard error, everything else to standard output. -/
  | split
  | output
  | error
deriving DecidableEq, Repr

/-- Whether an event goes to standard error. -/
def Writer.usesError : Writer → Level → Bool
  | .split, level => level.rank ≤ Level.warn.rank
  | .output, _ => false
  | .error, _ => true

/-- A character of a message as it is written: control characters that terminals obey are
escaped. -/
def escape (c : Char) : List Char :=
  let n := c.toNat
  if n = 0x1b ∨ n = 0x07 ∨ n = 0x08 ∨ n = 0x0c ∨ n = 0x7f then '\\' :: 'x' :: Text.hexByte n
  else if 0x80 ≤ n ∧ n ≤ 0x9f then ['\\', 'u', '\x7b'] ++ Text.hexByte n ++ ['\x7d']
  else [c]

/-- The line of an event. -/
def Event.line (e : Event) : String := String.ofList (e.message.toList.flatMap escape) ++ "\n"

/-- What is written to the two streams of a process. -/
structure Streams where
  output : String := ""
  error : String := ""

/-- Adds the line of an event. -/
def Streams.add (w : Writer) (s : Streams) (e : Event) : Streams :=
  if w.usesError e.level then { s with error := s.error ++ e.line }
  else { s with output := s.output ++ e.line }

/-- What some events write, given the filter and writer in force. -/
def Streams.ofEvents (f : Filter) (w : Writer) (events : List Event) : Streams :=
  (events.filter f.admits).foldl (Streams.add w) {}

end TypedBindings.Log
