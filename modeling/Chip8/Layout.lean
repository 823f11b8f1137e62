/-! # Layout of the machine

Fixed sizes and offsets: the address space, the screen, the register file, the call stack,
the hexadecimal keypad and the font that a machine is switched on with.
-/

namespace Chip8.Layout

abbrev memorySize : Nat := 0x1000

/-- Where programs are loaded and where execution starts. -/
abbrev programStart : Nat := 0x200

/-- The largest program that fits between its start and the end of memory. -/
abbrev maxRomSize : Nat := memorySize - programStart

abbrev screenRows : Nat := 32

abbrev screenColumns : Nat := 64

abbrev instructionSize : Nat := 2

abbrev registerCount : Nat := 16

abbrev stackDepth : Nat := 16

abbrev keyCount : Nat := 16

/-- Where the glyphs of the hexadecimal digits lie in memory. -/
abbrev fontStart : Nat := 0x50

/-- Bytes that one glyph takes, a byte for each of its rows. -/
abbrev glyphSize : Nat := 5

/-- Instructions that a cycle runs unless it is told otherwise. -/
abbrev instructionsPerCycle : Nat := 9

/-- Cycles per second unless told otherwise. -/
abbrev frequency : Nat := 60

/-- The glyphs of the digits 0 to F, four pixels wide, in the high half of each byte. -/
def font : List UInt8 :=
  [0xf0, 0x90, 0x90, 0x90, 0xf0,
   0x20, 0x60, 0x20, 0x20, 0x70,
   0xf0, 0x10, 0xf0, 0x80, 0xf0,
   0xf0, 0x10, 0xf0, 0x10, 0xf0,
   0x90, 0x90, 0xf0, 0x10, 0x10,
   0xf0, 0x80, 0xf0, 0x10, 0xf0,
   0xf0, 0x80, 0xf0, 0x90, 0xf0,
   0xf0, 0x10, 0x20, 0x40, 0x40,
   0xf0, 0x90, 0xf0, 0x90, 0xf0,
   0xf0, 0x90, 0xf0, 0x10, 0xf0,
   0xf0, 0x90, 0xf0, 0x90, 0x90,
   0xe0, 0x90, 0xe0, 0x90, 0xe0,
   0xf0, 0x80, 0x80, 0x80, 0xf0,
   0xe0, 0x90, 0x90, 0x90, 0xe0,
   0xf0, 0x80, 0xf0, 0x80, 0xf0,
   0xf0, 0x80, 0xf0, 0x80, 0x80]

end Chip8.Layout
