import Chip8.Instr
import Chip8.Text.Ansi
import Chip8.Text.Hex

/-! # Assembly text

An instruction is written as a mnemonic and its operands, which stand between commas.
-/

namespace Chip8

open Text

/-- What an operand of a written instruction names. -/
inductive Operand
  | register (r : Reg)
  | address (addr : Address)
  | byte (value : UInt8)
  | count (n : Fin 16)
  | index
  | atIndex
  | delay
  | sound
  | key
  | font
  | decimal
deriving DecidableEq

namespace Operand

def text : Operand → String
  | register r => "V" ++ Hex.upper r.val
  | address addr => "0x" ++ Hex.lower 3 addr.val
  | byte value => "0x" ++ Hex.lower 2 value.toNat
  | count n => toString n.val
  | index => "I"
  | atIndex => "[I]"
  | delay => "DT"
  | sound => "ST"
  | key => "K"
  | font => "F"
  | decimal => "B"

end Operand

structure Assembly where
  mnemonic : String
  operands : List Operand

namespace Assembly

def text : Assembly → String
  | ⟨mnemonic, []⟩ => mnemonic
  | ⟨mnemonic, operands⟩ =>
    mnemonic ++ " " ++ String.intercalate ", " (operands.map Operand.text)

end Assembly

namespace Instr

open Operand

def assembly : Instr → Assembly
  | clearScreen => ⟨"CLS", []⟩
  | ret => ⟨"RET", []⟩
  | sys addr => ⟨"SYS", [address addr]⟩
  | jump addr => ⟨"JP", [address addr]⟩
  | call addr => ⟨"CALL", [address addr]⟩
  | skipEqualByte x value => ⟨"SE", [register x, byte value]⟩
  | skipUnequalByte x value => ⟨"SNE", [register x, byte value]⟩
  | skipEqual x y => ⟨"SE", [register x, register y]⟩
  | loadByte x value => ⟨"LD", [register x, byte value]⟩
  | addByte x value => ⟨"ADD", [register x, byte value]⟩
  | copy x y => ⟨"LD", [register x, register y]⟩
  | or x y => ⟨"OR", [register x, register y]⟩
  | and x y => ⟨"AND", [register x, register y]⟩
  | xor x y => ⟨"XOR", [register x, register y]⟩
  | add x y => ⟨"ADD", [register x, register y]⟩
  | sub x y => ⟨"SUB", [register x, register y]⟩
  | shiftRight x => ⟨"SHR", [register x]⟩
  | subFrom x y => ⟨"SUBN", [register x, register y]⟩
  | shiftLeft x => ⟨"SHL", [register x]⟩
  | skipUnequal x y => ⟨"SNE", [register x, register y]⟩
  | loadIndex addr => ⟨"LD", [index, address addr]⟩
  | jumpOffset addr => ⟨"JP", [register Reg.first, address addr]⟩
  | random x value => ⟨"RND", [register x, byte value]⟩
  | draw x y rows => ⟨"DRW", [register x, register y, count rows]⟩
  | skipKeyDown x => ⟨"SKP", [register x]⟩
  | skipKeyUp x => ⟨"SKNP", [register x]⟩
  | readDelay x => ⟨"LD", [register x, delay]⟩
  | waitKey x => ⟨"LD", [register x, key]⟩
  | setDelay x => ⟨"LD", [delay, register x]⟩
  | setSound x => ⟨"LD", [sound, register x]⟩
  | addIndex x => ⟨"ADD", [index, register x]⟩
  | glyph x => ⟨"LD", [font, register x]⟩
  | storeDecimal x => ⟨"LD", [decimal, register x]⟩
  | storeRegisters x => ⟨"LD", [atIndex, register x]⟩
  | loadRegisters x => ⟨"LD", [register x, atIndex]⟩

end Instr

namespace Word

def mnemonic? (w : UInt16) : Option String := (Instr.decode? w).map (·.assembly.text)

/-- The assembly text of a word in the style of valid instructions, or the word itself in the style
of invalid ones. -/
def styled (w : UInt16) : String :=
  match mnemonic? w with
  | some text => Style.valid.paint text
  | none => Style.invalid.paint ("inval " ++ Hex.lower 4 w.toNat)

end Word

end Chip8
