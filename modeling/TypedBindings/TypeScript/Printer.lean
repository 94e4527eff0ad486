/-!
# A printer that indents

A `Printer` is a text under construction with the current indentation and column. Indentation
is written lazily, in front of the first characters of a line, so an empty line has none. A
`Layout` says what to write.

* `Layout.write`: writes what a layout says.
* `Layout.text`: what it gives on an empty page.
-/

namespace TypedBindings.TypeScript

/-- The width up to which lists and chains stay on one line. -/
def maxWidth : Nat := 80

structure Printer where
  /-- What has been written, the last character first. -/
  written : List Char := []
  /-- The level of indentation of the next line. -/
  indent : Nat := 0
  /-- The number of characters on the current line, zero at its start. -/
  column : Nat := 0

namespace Printer

/-- The text written so far. -/
def text (p : Printer) : String := String.ofList p.written.reverse

/-- Adds characters at the end. -/
def push (s : String) (p : Printer) : Printer :=
  { p with written := s.toList.reverseAux p.written, column := p.column + s.length }

/-- Adds the indentation of a line that has nothing on it. -/
def startLine (p : Printer) : Printer :=
  if p.column = 0 then
    { p with written := List.replicate (2 * p.indent) ' ' ++ p.written, column := 2 * p.indent }
  else p

/-- Writes text on the current line. -/
def write (s : String) (p : Printer) : Printer :=
  if s.isEmpty then p else p.startLine.push s

def newline (p : Printer) : Printer := { p with written := '\n' :: p.written, column := 0 }

/-- Leaves a line empty, unless nothing is written yet or the last line is empty already. -/
def blankLine (p : Printer) : Printer :=
  match p.written with
  | [] => p
  | '\n' :: '\n' :: _ => p
  | _ => p.newline

/-- Writes something one level deeper. -/
def indented (body : Printer → Printer) (p : Printer) : Printer :=
  { body { p with indent := p.indent + 1 } with indent := p.indent }

/-- The column at which the next character goes. -/
def position (p : Printer) : Nat := if p.column = 0 then 2 * p.indent else p.column

/-- Whether so many more characters fit on the current line. -/
def fits (p : Printer) (extra : Nat) : Bool := p.position + extra ≤ maxWidth

end Printer

/-- Whether a text stays on one line. -/
def isOneLine (s : String) : Bool := !s.toList.contains '\n'

/-! ## Layouts -/

/-- What to write. -/
inductive Layout where
  | nothing
  /-- Text on the current line. -/
  | put (s : String)
  | newline
  | blankLine
  /-- Something one level deeper. -/
  | indented (body : Layout)
  | append (first second : Layout)
  /-- A text and the rest behind it, if that is wanted and the text fits on the current line with
  `tail` more bytes; something else otherwise. -/
  | fitting (wanted : Bool) (head : String) (tail : Nat) (rest tall : Layout)
deriving Repr

namespace Layout

instance : Append Layout := ⟨append⟩

/-- Writes what a layout says. -/
def write : Layout → Printer → Printer
  | nothing, p => p
  | put s, p => p.write s
  | newline, p => p.newline
  | blankLine, p => p.blankLine
  | indented body, p => p.indented body.write
  | append first second, p => second.write (first.write p)
  | fitting wanted head tail rest tall, p =>
    if wanted && p.fits (head.utf8ByteSize + tail) then rest.write (p.write head) else tall.write p

/-- What a layout gives on an empty page. -/
def text (a : Layout) : String := (a.write {}).text

/-- Text that ends its line. -/
def line (s : String) : Layout := put s ++ newline

/-- Something one level deeper, on lines between two marks. -/
def block (first : String) (body : Layout) (last : String) : Layout :=
  line first ++ indented body ++ put last

/-- Layouts one after the other. -/
def joined : List Layout → Layout
  | [] => nothing
  | a :: rest => a ++ joined rest

/-- Layouts on lines of their own, with a mark behind each. -/
def lines (mark : String) : List Layout → Layout
  | [] => nothing
  | a :: rest => a ++ line mark ++ lines mark rest

/-- Layouts on lines of their own, with a comma between two. -/
def stacked : List Layout → Layout
  | [] => nothing
  | [a] => a ++ newline
  | a :: rest => a ++ line "," ++ stacked rest

/-- Layouts with an empty line between two. -/
def setApart : List Layout → Layout
  | [] => nothing
  | [a] => a
  | a :: rest => a ++ blankLine ++ setApart rest

end Layout

end TypedBindings.TypeScript
