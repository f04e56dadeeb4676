/-!
# Hexadecimal text

Integers written in base sixteen, with an optional `0x` mark and with zeros up to a
least width.  The width counts every character, the sign and the mark included, so
`-1` at width six with the mark is `-0x001`.
-/

namespace Chip8.Hexadecimal

/-- How an integer is written: the case of its digits, its mark and its least width. -/
structure Layout where
  upper : Bool := false
  marked : Bool := false
  width : Nat := 0

/-- The base-sixteen digits of a natural number, most significant first. -/
def digits (upper : Bool) (n : Nat) : List Char :=
  let lower := Nat.toDigits 16 n
  if upper then lower.map Char.toUpper else lower

/-- Writes an integer as sign, mark, zeros up to the width, and digits. -/
def format (layout : Layout) (n : Int) : String :=
  let sign := if n < 0 then "-" else ""
  let mark := if layout.marked then "0x" else ""
  let ds := digits layout.upper n.natAbs
  let zeros := layout.width - (sign.length + mark.length + ds.length)
  sign ++ mark ++ String.ofList (List.replicate zeros '0' ++ ds)

/-- Memory addresses and register contents carry the mark and fill six characters. -/
def address (n : Int) : String := format { marked := true, width := 6 } n

/-- Instruction words fill four upper-case digits. -/
def word (n : Int) : String := format { upper := true, width := 4 } n

/-- Program addresses fill three upper-case digits. -/
def location (n : Int) : String := format { upper := true, width := 3 } n

/-- Register contents in a state line fill two upper-case digits. -/
def byte (n : Int) : String := format { upper := true, width := 2 } n

/-- Register numbers are upper-case digits without filling. -/
def index (n : Int) : String := format { upper := true } n

end Chip8.Hexadecimal
