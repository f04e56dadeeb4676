/-!
# Dimensions of the machine

The fixed sizes and addresses of a CHIP-8 machine.
-/

namespace Chip8

abbrev memorySize : Nat := 4096

/-- The address of the first byte of a program. -/
abbrev programStart : Nat := 0x200

/-- The number of bytes from the start of a program to the end of memory. -/
abbrev programCapacity : Nat := 3584

abbrev registerCount : Nat := 16

/-- The number of the register that holds carries, borrows and collisions. -/
abbrev flagRegister : Nat := 15

abbrev stackDepth : Nat := 16

abbrev keyCount : Nat := 16

abbrev screenWidth : Nat := 64

abbrev screenHeight : Nat := 32

/-- The number of bytes of a glyph of the built-in font. -/
abbrev glyphSize : Nat := 5

theorem programStart_add_programCapacity : programStart + programCapacity = memorySize := rfl

end Chip8
