import Chip8.Machine.Basic

/-!
# Screen text

The screen as lines of text, one for each row.
-/

namespace Chip8.Screen

/-- The text of a lit pixel, unless another is given. -/
abbrev litMark : String := "#"

/-- The text of a dark pixel, unless another is given. -/
abbrev darkMark : String := "."

/-- The line of a row of pixels. -/
def line (lit dark : String) (row : List Bool) : String :=
  String.join (row.map fun pixel => if pixel then lit else dark)

/-- The lines of a screen. -/
def text (lit dark : String) (screen : Array (Array Bool)) : String :=
  "\n".intercalate (screen.toList.map fun row => line lit dark row.toList)

end Chip8.Screen
