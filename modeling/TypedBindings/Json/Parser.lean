import TypedBindings.Json.Basic
import TypedBindings.Text.Number
import TypedBindings.Text.Quoted

/-!
# Reading JSON texts

`Json.ofText` reads a text into the tree of `Json` and says whether the text ends with it.
The reader never fails: a fault of the text is a `defect` in the tree, at the place where the
text has it. `Json.parse?` accepts the texts that are a document throughout.
-/

namespace TypedBindings.Json

open Text

/-- The blanks allowed between tokens. -/
def isSpace (c : Char) : Bool := c == ' ' || c == '\t' || c == '\n' || c == '\r'

def skipSpace : List Char → List Char := List.dropWhile isSpace

/-- How deeply arrays and objects may nest in a value that is read. -/
def depthLimit : Nat := 127

/-! ## Numbers -/

/-- The parts of a number's literal. -/
structure Numeral where
  isNegative : Bool
  whole : List Char
  fraction : List Char
  exponent : Option (Bool × List Char)

/-- A whole part: a zero alone, or digits that do not begin with one. -/
def readWhole? : List Char → Option (List Char × List Char)
  | '0' :: rest => if (rest.head?.any Char.isDigit) then none else some (['0'], rest)
  | cs =>
    let digits := cs.takeWhile Char.isDigit
    if digits.isEmpty then none else some (digits, cs.dropWhile Char.isDigit)

/-- The digits behind a point, if there is one. -/
def readFraction? : List Char → Option (List Char × List Char)
  | '.' :: rest =>
    let digits := rest.takeWhile Char.isDigit
    if digits.isEmpty then none else some (digits, rest.dropWhile Char.isDigit)
  | cs => some ([], cs)

/-- The sign and digits behind an exponent mark, if there is one. -/
def readExponent? (cs : List Char) : Option (Option (Bool × List Char) × List Char) :=
  match cs with
  | mark :: rest =>
    if mark = 'e' ∨ mark = 'E' then
      let (isNegative, rest) := match rest with
        | '-' :: r => (true, r)
        | '+' :: r => (false, r)
        | r => (false, r)
      let digits := rest.takeWhile Char.isDigit
      if digits.isEmpty then none
      else some (some (isNegative, digits), rest.dropWhile Char.isDigit)
    else some (none, cs)
  | [] => some (none, [])

def Numeral.read? (cs : List Char) : Option (Numeral × List Char) := do
  let (isNegative, rest) := match cs with
    | '-' :: r => (true, r)
    | r => (false, r)
  let (whole, rest) ← readWhole? rest
  let (fraction, rest) ← readFraction? rest
  let (exponent, rest) ← readExponent? rest
  return ({ isNegative, whole, fraction, exponent }, rest)

/-- The power of ten that a numeral's exponent stands for. -/
def Numeral.power (n : Numeral) : Int :=
  match n.exponent with
  | none => 0
  | some (isNegative, digits) =>
    if isNegative then -(digitsValue digits) else digitsValue digits

/-- Whether `m · 10 ^ e` is nearer to some double than to the infinities. -/
def fitsDouble (m : Nat) (e : Int) : Bool :=
  let top := (Nat.toDigits 10 m).length + e
  m == 0 || top < 309 ||
    (top == 309 &&
      m * Nat.pow 10 e.toNat < (Nat.pow 2 1024 - Nat.pow 2 970) * Nat.pow 10 (-e).toNat)

/-- The value of a numeral whose literal is given. Zero with a sign is not an integer. -/
def Numeral.value (n : Numeral) (literal : String) : Json :=
  let whole := digitsValue n.whole
  let isInteger := n.fraction.isEmpty && n.exponent.isNone
  if isInteger && !n.isNegative && whole < wordSize then .int whole
  else if isInteger && n.isNegative && 0 < whole && whole ≤ wordSize / 2 then .int (-whole)
  else
    let power := n.power - n.fraction.length
    if fitsDouble (digitsValue (n.whole ++ n.fraction)) power then .real literal
    else .defect .content

/-! ## Values -/

/-- What reading a part of a text gives: the part's tree, and the text behind it unless the
text broke off inside. -/
abbrev Reading (α : Type) := α × Option (List Char)

def brokenOff : Reading Json := (.defect .grammar, none)

/-- A value made of the parts that were read, or a defect when the nesting is at its limit. -/
def enclose {α : Type} (room : Nat) (make : α → Json) : Reading α → Reading Json
  | (parts, rest) =>
    if room = 0 then (.defect (if rest.isSome then .content else .grammar), rest)
    else (make parts, rest)

def readNumber (cs : List Char) : Reading Json :=
  match Numeral.read? cs with
  | none => brokenOff
  | some (n, rest) => (n.value (String.ofList (cs.take (cs.length - rest.length))), some rest)

/-- A member's name and the text behind it; half a surrogate pair makes it no name. -/
def readName : List Char → Option (Option String × List Char)
  | '"' :: rest =>
    match readQuoted rest with
    | .text body rest => some (some (String.ofList body), rest)
    | .unpaired rest => some (none, rest)
    | .torn => none
  | _ => none

/-- The member of a name that was read and a value. -/
def member : Option String → Json → String × Json
  | some name, v => (name, v)
  | none, v => ("", if v.isSkippable then .defect .name else v)

mutual

/-- Reads a value; `room` is how many arrays and objects may still be opened. -/
def readValue : (fuel room : Nat) → List Char → Reading Json
  | 0, _, _ => brokenOff
  | fuel + 1, room, cs =>
    match skipSpace cs with
    | 'n' :: 'u' :: 'l' :: 'l' :: rest => (.null, some rest)
    | 't' :: 'r' :: 'u' :: 'e' :: rest => (.bool true, some rest)
    | 'f' :: 'a' :: 'l' :: 's' :: 'e' :: rest => (.bool false, some rest)
    | '"' :: rest =>
      match readQuoted rest with
      | .text body rest => (.str (String.ofList body), some rest)
      | .unpaired rest => (.defect .content, some rest)
      | .torn => brokenOff
    -- What stands inside is read even where no room is left, to find the end.
    | '[' :: rest =>
      match skipSpace rest with
      | ']' :: rest => enclose room .arr ([], some rest)
      | rest => enclose room .arr (readItems fuel (room - 1) rest)
    | '{' :: rest =>
      match skipSpace rest with
      | '}' :: rest => enclose room .obj ([], some rest)
      | rest => enclose room .obj (readMembers fuel (room - 1) rest)
    | cs => readNumber cs

/-- Reads the items of an array up to its end; there is at least one. -/
def readItems : (fuel room : Nat) → List Char → Reading (List Json)
  | 0, _, _ => ([.defect .grammar], none)
  | fuel + 1, room, cs =>
    match readValue fuel room cs with
    | (v, none) => ([v], none)
    | (v, some rest) =>
      match skipSpace rest with
      | ']' :: rest => ([v], some rest)
      | ',' :: rest =>
        let (vs, rest) := readItems fuel room rest
        (v :: vs, rest)
      | _ => ([v, .defect .grammar], none)

/-- Reads the members of an object up to its end; there is at least one. -/
def readMembers : (fuel room : Nat) → List Char → Reading (List (String × Json))
  | 0, _, _ => ([("", .defect .grammar)], none)
  | fuel + 1, room, cs =>
    match readName (skipSpace cs) with
    | none => ([("", .defect .grammar)], none)
    | some (name, rest) =>
      match skipSpace rest with
      | ':' :: rest =>
        match readValue fuel room rest with
        | (v, none) => ([member name v], none)
        | (v, some rest) =>
          match skipSpace rest with
          | '}' :: rest => ([member name v], some rest)
          | ',' :: rest =>
            let (ms, rest) := readMembers fuel room rest
            (member name v :: ms, rest)
          | _ => ([member name v, ("", .defect .grammar)], none)
      | _ => ([member name (.defect .grammar)], none)

end

/-- The tree of a text, and whether the text ends with it. -/
def ofText (text : String) (limit : Nat) : Json × Bool :=
  let cs := text.toList
  match readValue (2 * cs.length + 2) limit cs with
  | (v, some rest) => (v, (skipSpace rest).isEmpty)
  | (v, none) => (v, false)

/-- The document that a text holds, if it holds one throughout. -/
def parse? (text : String) (limit : Nat) : Option Json :=
  let (v, isWhole) := ofText text limit
  if isWhole && v.isSound then some v else none

end TypedBindings.Json
