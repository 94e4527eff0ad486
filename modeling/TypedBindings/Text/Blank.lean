/-!
# Blank characters

The characters with Unicode's `White_Space` property, and trimming them off the ends of a text.
-/

namespace TypedBindings.Text

/-- The `White_Space` property of a code point. -/
def isBlank (c : Char) : Bool :=
  let n := c.toNat
  (9 ≤ n && n ≤ 13) || n == 32 || n == 0x85 || n == 0xA0 || n == 0x1680 ||
    (0x2000 ≤ n && n ≤ 0x200A) || n == 0x2028 || n == 0x2029 || n == 0x202F || n == 0x205F ||
    n == 0x3000

/-- A text without the blanks at its front. -/
def trimFront : List Char → List Char := List.dropWhile isBlank

/-- A text without the blanks at either end. -/
def trim (cs : List Char) : List Char := (trimFront (trimFront cs).reverse).reverse

end TypedBindings.Text
