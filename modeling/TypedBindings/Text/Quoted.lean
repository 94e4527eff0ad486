import TypedBindings.Text.Hex

/-!
# Quoted text

Double-quoted literals with backslash escapes. `escape` is the written form of one character
and `quote` that of a whole text; `readQuoted` reads a literal from just behind its opening
quote. Reading accepts more than writing produces (`\u0041` and `A` are one character), so the
two are tied in one direction: what `quote` writes reads back.
-/

namespace TypedBindings.Text

/-- One character inside a literal. Quotes, backslashes and control characters are escaped,
everything else stands for itself. -/
def escape (c : Char) : List Char :=
  if c = '"' then ['\\', '"']
  else if c = '\\' then ['\\', '\\']
  else if c = '\x08' then ['\\', 'b']
  else if c = '\t' then ['\\', 't']
  else if c = '\n' then ['\\', 'n']
  else if c = '\x0c' then ['\\', 'f']
  else if c = '\r' then ['\\', 'r']
  else if c.toNat < 32 then
    ['\\', 'u', '0', '0'] ++ hexByte c.toNat
  else [c]

/-- The literal of a text. -/
def quote (s : String) : String := String.ofList ('"' :: s.toList.flatMap escape ++ ['"'])

/-- What stands behind an opening quote. -/
inductive Quoted where
  /-- A complete literal: its text and what follows the closing quote. -/
  | text (body rest : List Char)
  /-- A complete literal that names half of a surrogate pair, so that it is not a text. -/
  | unpaired (rest : List Char)
  /-- No complete literal. -/
  | torn

/-- Puts a character in front of the text. -/
def Quoted.cons (c : Char) : Quoted → Quoted
  | .text body rest => .text (c :: body) rest
  | q => q

/-- Gives up the text but keeps looking for the end of the literal. -/
def Quoted.spoil : Quoted → Quoted
  | .text _ rest => .unpaired rest
  | q => q

/-- The sixteen-bit unit written by four hexadecimal digits. -/
def unit? (a b c d : Char) : Option Nat := hexNumber? [a, b, c, d]

/-- A unit that opens a surrogate pair. -/
def isLeading (u : Nat) : Bool := 0xD800 ≤ u && u ≤ 0xDBFF

/-- A unit that closes a surrogate pair. -/
def isTrailing (u : Nat) : Bool := 0xDC00 ≤ u && u ≤ 0xDFFF

/-- The character that a single letter after a backslash stands for. -/
def escapeLetter? : Char → Option Char
  | '"' => some '"'
  | '\\' => some '\\'
  | '/' => some '/'
  | 'b' => some '\x08'
  | 'f' => some '\x0c'
  | 'n' => some '\n'
  | 'r' => some '\r'
  | 't' => some '\t'
  | _ => none

/-- The half of a pair that the last escape opened, if any. A half that is not closed by the
next escape spoils the text. -/
def settle (lead : Option Nat) (q : Quoted) : Quoted := if lead.isSome then q.spoil else q

/-- Reads a literal from behind its opening quote; `lead` is an open half of a surrogate pair. -/
def readQuotedFrom (lead : Option Nat) : List Char → Quoted
  | [] => .torn
  | '"' :: rest => settle lead (.text [] rest)
  | '\\' :: 'u' :: a :: b :: c :: d :: rest =>
    match unit? a b c d with
    | none => .torn
    | some u =>
      match lead with
      | some high =>
        -- A pair counts from the first character beyond the sixteen-bit ones.
        if isTrailing u then
          (readQuotedFrom none rest).cons
            (Char.ofNat (0x10000 + (high - 0xD800) * 0x400 + (u - 0xDC00)))
        else if isLeading u then (readQuotedFrom (some u) rest).spoil
        else (readQuotedFrom none rest).spoil
      | none =>
        if isLeading u then readQuotedFrom (some u) rest
        else if isTrailing u then (readQuotedFrom none rest).spoil
        else (readQuotedFrom none rest).cons (Char.ofNat u)
  -- Any other character leaves an open half without its partner.
  | '\\' :: e :: rest =>
    match escapeLetter? e with
    | some c => settle lead ((readQuotedFrom none rest).cons c)
    | none => .torn
  | c :: rest =>
    if c.toNat < 32 || c = '\\' then .torn
    else settle lead ((readQuotedFrom none rest).cons c)

/-- Reads a literal from behind its opening quote. -/
def readQuoted : List Char → Quoted := readQuotedFrom none

end TypedBindings.Text
