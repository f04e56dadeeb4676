/-!
# Blank characters

The characters that count as white space around a text, and the smaller class that
may surround a number.  The four information separators `U+001C` to `U+001F` are blank
between the parts of a list but are no part of a number's margin.
-/

namespace Chip8.Blank

/-- The four information separators. -/
def isSeparator (c : Char) : Bool :=
  0x1C ≤ c.toNat && c.toNat ≤ 0x1F

/-- White space: the ASCII blanks, the information separators, the next-line control
and the space, line and paragraph separators of Unicode. -/
def isBlank (c : Char) : Bool :=
  let n := c.toNat
  (0x09 ≤ n && n ≤ 0x0D) || isSeparator c || n == 0x20 || n == 0x85 || n == 0xA0 ||
    n == 0x1680 || (0x2000 ≤ n && n ≤ 0x200A) || n == 0x2028 || n == 0x2029 ||
    n == 0x202F || n == 0x205F || n == 0x3000

/-- White space that may stand around a number. -/
def isMargin (c : Char) : Bool :=
  isBlank c && !isSeparator c

/-- Removes the characters of a class from both ends. -/
def strip (inClass : Char → Bool) (cs : List Char) : List Char :=
  ((cs.dropWhile inClass).reverse.dropWhile inClass).reverse

end Chip8.Blank
