import Chip8.Machine.Memory

/-!
# Font and initial machines

The glyphs of the sixteen hexadecimal digits, five bytes each, stand at the start of memory
of a new machine.
-/

namespace Chip8

/-- The built-in font.  Each byte is a row of four pixels from the left. -/
def font : List UInt8 :=
  [0xF0, 0x90, 0x90, 0x90, 0xF0,
    0x20, 0x60, 0x20, 0x20, 0x70,
    0xF0, 0x10, 0xF0, 0x80, 0xF0,
    0xF0, 0x10, 0xF0, 0x10, 0xF0,
    0x90, 0x90, 0xF0, 0x10, 0x10,
    0xF0, 0x80, 0xF0, 0x10, 0xF0,
    0xF0, 0x80, 0xF0, 0x90, 0xF0,
    0xF0, 0x10, 0x20, 0x40, 0x40,
    0xF0, 0x90, 0xF0, 0x90, 0xF0,
    0xF0, 0x90, 0xF0, 0x10, 0xF0,
    0xF0, 0x90, 0xF0, 0x90, 0x90,
    0xE0, 0x90, 0xE0, 0x90, 0xE0,
    0xF0, 0x80, 0x80, 0x80, 0xF0,
    0xE0, 0x90, 0x90, 0x90, 0xE0,
    0xF0, 0x80, 0xF0, 0x80, 0xF0,
    0xF0, 0x80, 0xF0, 0x80, 0x80]

namespace Machine

/-- A machine with the font in memory and a seeded random source. -/
def ofSeed (seed : Int) : Machine :=
  let m : Machine := { random := .ofSeed seed }
  { m with memory := overlay m.memory 0 font }

/-- A machine with the font and a program in memory.  Only the low eight bits of the
program's values are kept. -/
def create (program : List Int) (seed : Int) : Except Error Machine :=
  if program.isEmpty then .ok (ofSeed seed)
  else
    match loadBytes programStart program (ofSeed seed) with
    | .ok length m => .ok { m with programLength := length }
    | .error e _ => .error e

end Machine

end Chip8
