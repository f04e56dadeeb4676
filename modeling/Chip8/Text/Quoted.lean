import Chip8.Text.Hexadecimal
import Chip8.Text.Printable

/-!
# Quoted text

A text is quoted on one line: the quote and the backslash are escaped, and so is every
character that would not show.  Apostrophes are the quotes unless the text holds an
apostrophe and no double quote.
-/

namespace Chip8.Quoted

/-- The apostrophe, the usual quote. -/
def apostrophe : Char := Char.ofNat 0x27

def quotation : Char := Char.ofNat 0x22

/-- The quote that encloses a text. -/
def quoteFor (cs : List Char) : Char :=
  if cs.contains apostrophe && !cs.contains quotation then quotation else apostrophe

/-- Lower-case hexadecimal digits of a character's position, filled to a width. -/
def position (width : Nat) (c : Char) : List Char :=
  (Hexadecimal.format { width := width } c.toNat).toList

/-- One character between the quotes. -/
def escape (quote : Char) (c : Char) : List Char :=
  if c == quote || c == '\\' then ['\\', c]
  else if c == '\n' then ['\\', 'n']
  else if c == '\r' then ['\\', 'r']
  else if c == '\t' then ['\\', 't']
  else if Printable.isPrintable c then [c]
  else if c.toNat ≤ 0xFF then '\\' :: 'x' :: position 2 c
  else if c.toNat ≤ 0xFFFF then '\\' :: 'u' :: position 4 c
  else '\\' :: 'U' :: position 8 c

/-- The quoted form of a text. -/
def quote (text : String) : String :=
  let cs := text.toList
  let mark := quoteFor cs
  String.ofList (mark :: cs.flatMap (escape mark) ++ [mark])

end Chip8.Quoted
