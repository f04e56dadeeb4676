/-!
# Sample programs

Two small programs to show the machine with.
-/

namespace Chip8.Showcase

/-- Draws the sixteen glyphs of the font in two rows. -/
def hexFont : List UInt8 :=
  [0x60, 0x00, 0x61, 0x01, 0x62, 0x01, 0xF0, 0x29, 0xD1, 0x25, 0x71, 0x07, 0x70, 0x01,
    0x30, 0x08, 0x12, 0x16, 0x61, 0x01, 0x62, 0x08, 0x30, 0x10, 0x12, 0x06, 0x12, 0x1A]

/-- Counts up and shows the three decimal digits. -/
def decimalCounter : List UInt8 :=
  [0x63, 0x00, 0x00, 0xE0, 0xA3, 0x00, 0xF3, 0x33, 0xF2, 0x65, 0x64, 0x10, 0x65, 0x0C,
    0xF0, 0x29, 0xD4, 0x55, 0x74, 0x08, 0xF1, 0x29, 0xD4, 0x55, 0x74, 0x08, 0xF2, 0x29,
    0xD4, 0x55, 0x73, 0x01, 0x12, 0x02]

/-- The sample programs by name. -/
def programs : List (String × List UInt8) :=
  [("Hex Font", hexFont), ("BCD Counter", decimalCounter)]

end Chip8.Showcase
