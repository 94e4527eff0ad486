import TypedBindings.Text.Hex

/-!
# Settings texts

The part of TOML that settings use: lines `key = value` at the top, where a value is a string or
a list of strings, with comments and blank lines between them. All four forms of strings are read.

* `Toml.parse?`: the keys of a text with their values. A key must not repeat.
-/

namespace TypedBindings.Toml

/-- A value of a key. -/
inductive Value where
  | string (text : String)
  | list (texts : List String)
deriving DecidableEq, Repr

/-- What a reader takes off the front of a text, and what is left. -/
abbrev Taken (α : Type) := Option (α × List Char)

/-! ## Characters -/

def isSpace (c : Char) : Bool := c == ' ' || c == '\t'

def skipSpace : List Char → List Char := List.dropWhile isSpace

/-- A character that may stand in comments and literal strings. -/
def isPlain (c : Char) : Bool := c == '\t' || (32 ≤ c.toNat && c.toNat ≠ 127)

/-- The rest of a text behind a line break. -/
def newline? : List Char → Option (List Char)
  | '\n' :: rest => some rest
  | '\r' :: '\n' :: rest => some rest
  | _ => none

/-- What stands behind a comment, if the text begins with one. -/
def skipComment : List Char → List Char
  | '#' :: rest => rest.dropWhile isPlain
  | cs => cs

/-- The rest of a text behind blanks and line breaks. -/
def skipBlankLines : (fuel : Nat) → List Char → List Char
  | 0, cs => cs
  | fuel + 1, cs =>
    match newline? (skipSpace cs) with
    | some rest => skipBlankLines fuel rest
    | none => skipSpace cs

/-- The rest of a text behind blanks, comments and line breaks. -/
def skipLines : (fuel : Nat) → List Char → List Char
  | 0, cs => cs
  | fuel + 1, cs =>
    let cs := skipSpace cs
    match newline? (skipComment cs) with
    | some rest => skipLines fuel rest
    | none => cs

/-! ## Strings -/

/-- The character with a number in hexadecimal digits. -/
def codePoint? (digits : List Char) : Option Char := do
  let n ← Text.hexNumber? digits
  if n < 0xD800 ∨ (0xDFFF < n ∧ n < 0x110000) then some (Char.ofNat n) else none

/-- Reads what stands behind a backslash. -/
def escape? : List Char → Taken Char
  | 'b' :: rest => some ('\x08', rest)
  | 't' :: rest => some ('\t', rest)
  | 'n' :: rest => some ('\n', rest)
  | 'f' :: rest => some ('\x0c', rest)
  | 'r' :: rest => some ('\r', rest)
  | '"' :: rest => some ('"', rest)
  | '\\' :: rest => some ('\\', rest)
  | 'u' :: rest =>
    if (rest.take 4).length = 4 then (codePoint? (rest.take 4)).map fun c => (c, rest.drop 4)
    else none
  | 'U' :: rest =>
    if (rest.take 8).length = 8 then (codePoint? (rest.take 8)).map fun c => (c, rest.drop 8)
    else none
  | _ => none

/-- Puts a character in front of a text that is taken. -/
def put (c : Char) : Taken (List Char) → Taken (List Char) :=
  Option.map fun (cs, rest) => (c :: cs, rest)

/-- Reads a basic string from behind its opening quote. -/
def basic : (fuel : Nat) → List Char → Taken (List Char)
  | 0, _ => none
  | _, [] => none
  | _, '"' :: rest => some ([], rest)
  | fuel + 1, '\\' :: rest => (escape? rest).bind fun (c, rest) => put c (basic fuel rest)
  | fuel + 1, c :: rest => if isPlain c then put c (basic fuel rest) else none

/-- Reads a literal string from behind its opening quote. -/
def verbatim : List Char → Taken (List Char)
  | [] => none
  | '\'' :: rest => some ([], rest)
  | c :: rest => if isPlain c then put c (verbatim rest) else none

/-- Reads the quotes that end a string of several lines: three, and up to two before them that
belong to the string. -/
def closing? (quote : Char) (cs : List Char) : Taken (List Char) :=
  let quotes := cs.takeWhile (· == quote)
  if 3 ≤ quotes.length ∧ quotes.length ≤ 5 then
    some (quotes.drop 3, cs.drop quotes.length)
  else if 5 < quotes.length then some (quotes.take 2, cs.drop 5)
  else none

/-- What stands behind a backslash at the end of a line: all blanks and line breaks are skipped. -/
def skipFold (cs : List Char) : Option (List Char) :=
  (newline? (skipSpace cs)).map fun rest => skipBlankLines rest.length rest

/-- Reads a basic string of several lines from behind its opening quotes. -/
def basicLines : (fuel : Nat) → List Char → Taken (List Char)
  | 0, _ => none
  | fuel + 1, cs =>
    match closing? '"' cs, newline? cs, cs with
    | some taken, _, _ => some taken
    | none, some rest, _ => put '\n' (basicLines fuel rest)
    | none, none, '\\' :: rest =>
      match skipFold rest with
      | some rest => basicLines fuel rest
      | none => (escape? rest).bind fun (c, rest) => put c (basicLines fuel rest)
    | none, none, c :: rest => if isPlain c then put c (basicLines fuel rest) else none
    | none, none, [] => none

/-- Reads a literal string of several lines from behind its opening quotes. -/
def verbatimLines : (fuel : Nat) → List Char → Taken (List Char)
  | 0, _ => none
  | fuel + 1, cs =>
    match closing? '\'' cs, newline? cs, cs with
    | some taken, _, _ => some taken
    | none, some rest, _ => put '\n' (verbatimLines fuel rest)
    | none, none, c :: rest => if isPlain c then put c (verbatimLines fuel rest) else none
    | none, none, [] => none

/-- A line break right behind the opening quotes does not count. -/
def dropNewline (cs : List Char) : List Char := (newline? cs).getD cs

/-- Reads a string of one line. -/
def line? : List Char → Taken (List Char)
  | '"' :: rest => basic (rest.length + 1) rest
  | '\'' :: rest => verbatim rest
  | _ => none

/-- Reads a string of any form. -/
def string? : List Char → Taken (List Char)
  | '"' :: '"' :: '"' :: rest => basicLines (rest.length + 1) (dropNewline rest)
  | '\'' :: '\'' :: '\'' :: rest => verbatimLines (rest.length + 1) (dropNewline rest)
  | cs => line? cs

/-! ## Values and keys -/

/-- Reads the strings of a list from behind its opening bracket. -/
def strings : (fuel : Nat) → List Char → Option (List String × List Char)
  | 0, _ => none
  | fuel + 1, cs =>
    match skipLines cs.length cs with
    | ']' :: rest => some ([], rest)
    | cs => do
      let (s, rest) ← string? cs
      match skipLines rest.length rest with
      | ']' :: rest => some ([String.ofList s], rest)
      | ',' :: rest => (strings fuel rest).map fun (ss, rest) => (String.ofList s :: ss, rest)
      | _ => none

def value? : List Char → Taken Value
  | '[' :: rest => (strings (rest.length + 1) rest).map fun (ss, rest) => (.list ss, rest)
  | cs => (string? cs).map fun (s, rest) => (.string (String.ofList s), rest)

def isBare (c : Char) : Bool := c.isAlphanum || c == '-' || c == '_'

/-- Reads a key, bare or quoted. -/
def key? (cs : List Char) : Taken String :=
  match line? cs with
  | some (key, rest) => some (String.ofList key, rest)
  | none =>
    let key := cs.takeWhile isBare
    if key.isEmpty then none else some (String.ofList key, cs.dropWhile isBare)

/-- Reads a key, an equals sign and a value. -/
def pair? (cs : List Char) : Option ((String × Value) × List Char) := do
  let (key, rest) ← key? cs
  match skipSpace rest with
  | '=' :: rest =>
    let (value, rest) ← value? (skipSpace rest)
    some ((key, value), rest)
  | _ => none

/-- Reads lines up to the end of a text. -/
def pairs? : (fuel : Nat) → List Char → Option (List (String × Value))
  | 0, _ => none
  | fuel + 1, cs =>
    match skipSpace (skipLines cs.length cs) with
    | [] => some []
    | '#' :: rest => if rest.all isPlain then some [] else none
    | cs => do
      let (pair, rest) ← pair? cs
      let rest := skipComment (skipSpace rest)
      if rest.isEmpty then some [pair]
      else
        let more ← pairs? fuel (← newline? rest)
        if (more.lookup pair.1).isSome then none else some (pair :: more)

/-- The keys of a text with their values. A mark of the byte order may stand in front. -/
def parse? (text : String) : Option (List (String × Value)) :=
  let cs := match text.toList with
    | '\ufeff' :: rest => rest
    | cs => cs
  pairs? (cs.length + 1) cs

end TypedBindings.Toml
