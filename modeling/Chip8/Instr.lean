import Chip8.Opcode

/-! # Instructions

An instruction is an opcode with the operands that it needs. Nibbles of a word that are no
operands of its opcode are not kept, so two words that mean the same decode to one instruction.
-/

namespace Chip8

/-- A place that an instruction can name. -/
abbrev Address := Fin Layout.memorySize

inductive Instr
  | clearScreen
  | ret
  | sys (addr : Address)
  | jump (addr : Address)
  | call (addr : Address)
  | skipEqualByte (x : Reg) (byte : UInt8)
  | skipUnequalByte (x : Reg) (byte : UInt8)
  | skipEqual (x y : Reg)
  | loadByte (x : Reg) (byte : UInt8)
  | addByte (x : Reg) (byte : UInt8)
  | copy (x y : Reg)
  | or (x y : Reg)
  | and (x y : Reg)
  | xor (x y : Reg)
  | add (x y : Reg)
  | sub (x y : Reg)
  | shiftRight (x : Reg)
  | subFrom (x y : Reg)
  | shiftLeft (x : Reg)
  | skipUnequal (x y : Reg)
  | loadIndex (addr : Address)
  | jumpOffset (addr : Address)
  | random (x : Reg) (byte : UInt8)
  | draw (x y : Reg) (rows : Fin 16)
  | skipKeyDown (x : Reg)
  | skipKeyUp (x : Reg)
  | readDelay (x : Reg)
  | waitKey (x : Reg)
  | setDelay (x : Reg)
  | setSound (x : Reg)
  | addIndex (x : Reg)
  | glyph (x : Reg)
  | storeDecimal (x : Reg)
  | storeRegisters (x : Reg)
  | loadRegisters (x : Reg)
deriving DecidableEq

namespace Instr

open Word

/-- An opcode with its operands taken from a word. -/
def ofOpcode (w : UInt16) : Opcode → Instr
  | .clearScreen => .clearScreen
  | .ret => .ret
  | .sys => .sys (nnn w)
  | .jump => .jump (nnn w)
  | .call => .call (nnn w)
  | .skipEqualByte => .skipEqualByte (x w) (kk w)
  | .skipUnequalByte => .skipUnequalByte (x w) (kk w)
  | .skipEqual => .skipEqual (x w) (y w)
  | .loadByte => .loadByte (x w) (kk w)
  | .addByte => .addByte (x w) (kk w)
  | .copy => .copy (x w) (y w)
  | .or => .or (x w) (y w)
  | .and => .and (x w) (y w)
  | .xor => .xor (x w) (y w)
  | .add => .add (x w) (y w)
  | .sub => .sub (x w) (y w)
  | .shiftRight => .shiftRight (x w)
  | .subFrom => .subFrom (x w) (y w)
  | .shiftLeft => .shiftLeft (x w)
  | .skipUnequal => .skipUnequal (x w) (y w)
  | .loadIndex => .loadIndex (nnn w)
  | .jumpOffset => .jumpOffset (nnn w)
  | .random => .random (x w) (kk w)
  | .draw => .draw (x w) (y w) (n w)
  | .skipKeyDown => .skipKeyDown (x w)
  | .skipKeyUp => .skipKeyUp (x w)
  | .readDelay => .readDelay (x w)
  | .waitKey => .waitKey (x w)
  | .setDelay => .setDelay (x w)
  | .setSound => .setSound (x w)
  | .addIndex => .addIndex (x w)
  | .glyph => .glyph (x w)
  | .storeDecimal => .storeDecimal (x w)
  | .storeRegisters => .storeRegisters (x w)
  | .loadRegisters => .loadRegisters (x w)

def opcode : Instr → Opcode
  | clearScreen => .clearScreen
  | ret => .ret
  | sys _ => .sys
  | jump _ => .jump
  | call _ => .call
  | skipEqualByte .. => .skipEqualByte
  | skipUnequalByte .. => .skipUnequalByte
  | skipEqual .. => .skipEqual
  | loadByte .. => .loadByte
  | addByte .. => .addByte
  | copy .. => .copy
  | or .. => .or
  | and .. => .and
  | xor .. => .xor
  | add .. => .add
  | sub .. => .sub
  | shiftRight _ => .shiftRight
  | subFrom .. => .subFrom
  | shiftLeft _ => .shiftLeft
  | skipUnequal .. => .skipUnequal
  | loadIndex _ => .loadIndex
  | jumpOffset _ => .jumpOffset
  | random .. => .random
  | draw .. => .draw
  | skipKeyDown _ => .skipKeyDown
  | skipKeyUp _ => .skipKeyUp
  | readDelay _ => .readDelay
  | waitKey _ => .waitKey
  | setDelay _ => .setDelay
  | setSound _ => .setSound
  | addIndex _ => .addIndex
  | glyph _ => .glyph
  | storeDecimal _ => .storeDecimal
  | storeRegisters _ => .storeRegisters
  | loadRegisters _ => .loadRegisters

@[simp]
theorem opcode_ofOpcode (w : UInt16) (op : Opcode) : (ofOpcode w op).opcode = op := by
  cases op <;> rfl

def decode? (w : UInt16) : Option Instr := (Opcode.decode? w).map (ofOpcode w)

theorem map_opcode_decode? (w : UInt16) : (decode? w).map opcode = Opcode.decode? w := by
  cases h : Opcode.decode? w <;> simp [decode?, h]

end Instr

end Chip8
