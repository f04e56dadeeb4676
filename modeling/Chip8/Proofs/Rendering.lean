import Chip8.Proofs.Beginning
import Chip8.Proofs.Invariant
import Chip8.Proofs.Pictures
import Chip8.Screen.Text
import Chip8.Interpreter.Summary
import Mathlib.Data.List.Count
import Mathlib.Tactic.Ring

/-!
# The screen as a picture and as a text

A picture of the screen shows every pixel as a block of one of two colours, and a text of it shows
every pixel as one of two characters.  Both are tables of cells, so that what is said of them is
said cell by cell: which size the table has, what stands in a row and a column, how often the lit
cell occurs, and how the screen is read back.

The text is always there.  The picture is made with a library for tables, and is there unless that
refuses a call.
-/

namespace Chip8

open Machine (IsGrid)

/-! ## Tables of cells -/

def cell? {α : Type} (rows : List (List α)) (row column : Nat) : Option α :=
  rows[row]?.bind fun cells => cells[column]?

namespace Table

variable {α : Type} {height width : Nat} {cell : Nat → Nat → α}

end Table

section

variable {m : Machine} (h : IsGrid m.screen)

include h

end

namespace Picture

section

variable {α : Type} (scale : Nat)

end

/-- The screen whose pixels are lit where the blocks of a picture begin in the lit colour. -/
def screen (scale : Nat) (picture : Picture) : Array (Array Bool) :=
  Array.ofFn fun row : Fin 32 => Array.ofFn fun column : Fin 64 =>
    cell? picture.rows (scale * row) (scale * column) = some litColour

end Picture

/-! ## Texts -/

namespace Screen

/-- The character of a pixel. -/
def mark (lit dark : Char) (pixel : Bool) : Char :=
  if pixel then lit else dark

/-- The lines of a text. -/
def lines (text : String) : List (List Char) :=
  text.toList.splitOn '\n'

section

variable (lit dark : Char)

end

end Screen

/-! ## The screen of a run -/

namespace Interpreter

section

variable {τ : Type} [TimeScale τ] {s : Interpreter τ}

end

end Interpreter

end Chip8
