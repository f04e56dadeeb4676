import Chip8.Error

/-!
# Tables

Tables of cells in rows, and the operations that a library for them offers.  Whatever is made
with tables has the library as a parameter, because an operation can fail for want of room.
-/

namespace Chip8

/-- A colour by the strengths of its three lights. -/
structure Colour where
  red : UInt8
  green : UInt8
  blue : UInt8
deriving DecidableEq

/-- A table by its sides and its rows. -/
structure Table (α : Type) where
  height : Nat
  width : Nat
  rows : List (List α)

namespace Table

variable {α β : Type}

/-- The table with a given cell in each row and column. -/
def ofFn (height width : Nat) (cell : Nat → Nat → α) : Table α where
  height := height
  width := width
  rows := (List.range height).map fun row => (List.range width).map (cell row)

def map (f : α → β) (table : Table α) : Table β where
  height := table.height
  width := table.width
  rows := table.rows.map (List.map f)

/-- The Kronecker product, which has a multiple of one table in place of every cell of another. -/
def kron (table block : Table UInt8) : Table UInt8 where
  height := table.height * block.height
  width := table.width * block.width
  rows := table.rows.flatMap fun cells =>
    block.rows.map fun factors => cells.flatMap fun cell => factors.map (cell * ·)

end Table

/-- The operations that a library offers for tables.  Any of them can fail. -/
structure TableLibrary where
  ofRows : (rows : List (List UInt8)) → Except Error (Table UInt8)
  /-- A table of ones. -/
  ones : (height width : Int) → Except Error (Table UInt8)
  /-- The Kronecker product. -/
  kron : (table block : Table UInt8) → Except Error (Table UInt8)
  /-- Whether each cell is equal to a byte. -/
  equals : (table : Table UInt8) → (byte : UInt8) → Except Error (Table Bool)
  /-- A colour as a table of its three bytes. -/
  ofColour : Colour → Except Error Colour
  /-- One colour for each cell that holds and another one for all others. -/
  choose : (mask : Table Bool) → (lit dark : Colour) → Except Error (Table Colour)

namespace TableLibrary

/-- The most bytes of a table that can be counted. -/
abbrev mostBytes : Nat := 0x7FFFFFFFFFFFFFFF

/-- A table of ones, unless its sides are no lengths or its bytes cannot be counted. -/
def countedOnes (height width : Int) : Except Error (Table UInt8) :=
  if ¬ (Slot.IsPosition height ∧ Slot.IsPosition width) then .error .scaleTooLarge
  else if height < 0 ∨ width < 0 then .error .negativeScale
  else if mostBytes < height.toNat * width.toNat then .error .tableTooLarge
  else .ok (.ofFn height.toNat width.toNat fun _ _ => 1)

/-- A library that never lacks room. -/
def ample : TableLibrary where
  ofRows rows := .ok { height := rows.length, width := (rows.headD []).length, rows := rows }
  ones := countedOnes
  kron table block := .ok (table.kron block)
  equals table byte := .ok (table.map (· == byte))
  ofColour := .ok
  choose mask lit dark := .ok (mask.map fun holds => if holds then lit else dark)

end TableLibrary

end Chip8
