/-!
# Decimal numbers

Readers for decimal numbers of two kinds: machine-size counts (`count?`), and integers of any
size with `_` between their digits (`natural`, `integer`).
-/

namespace TypedBindings.Text

/-- The value of a run of decimal digits. -/
def digitsValue (digits : List Char) : Nat :=
  digits.foldl (fun n c => 10 * n + (c.toNat - 48)) 0

/-- The number of values of a word of 64 bits. -/
def wordSize : Nat := 0x10000000000000000

/-- A count that fits a word: decimal digits, one `+` allowed in front of them. -/
def count? (cs : List Char) : Option Nat :=
  let digits := match cs with
    | '+' :: rest => rest
    | cs => cs
  if !digits.isEmpty && digits.all Char.isDigit && digitsValue digits < wordSize then
    some (digitsValue digits)
  else none

/-- Why a text is no integer. -/
inductive NumberFault where
  | empty
  | badDigit
deriving DecidableEq, Repr

def NumberFault.message : NumberFault → String
  | .empty => "cannot parse integer from empty string"
  | .badDigit => "invalid digit found in string"

/-- A sign in front of a number is dropped unless a `+` follows it, in which case the `+` is left
to be read as a digit, which it is not. -/
def dropSign (sign : Char) : List Char → Option (List Char)
  | c :: rest => if c = sign ∧ rest.head? ≠ some '+' then some rest else none
  | [] => none

/-- Digits of a natural number without a sign; `_` may stand behind the first digit. -/
def separatedDigits : List Char → Except NumberFault Nat
  | [] => .error .empty
  | c :: rest =>
    if c.isDigit && rest.all (fun d => d.isDigit || d == '_') then
      .ok (digitsValue (c :: rest.filter Char.isDigit))
    else .error .badDigit

/-- A natural number, with an optional `+`. -/
def natural (cs : List Char) : Except NumberFault Nat :=
  separatedDigits ((dropSign '+' cs).getD cs)

/-- An integer, with an optional sign. -/
def integer (cs : List Char) : Except NumberFault Int :=
  match cs with
  | '-' :: _ => (natural ((dropSign '-' cs).getD cs)).map fun n => -(n : Int)
  | _ => (natural cs).map fun n => (n : Int)

end TypedBindings.Text
