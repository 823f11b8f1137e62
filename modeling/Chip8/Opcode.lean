import Chip8.Error
import Chip8.Word

/-! # Opcodes

The thirty-five instructions of the machine, without their operands. Each is named by the pattern of
its words, in which letters stand for nibbles that are free.
-/

namespace Chip8

inductive Opcode
  | clearScreen
  | ret
  | sys
  | jump
  | call
  | skipEqualByte
  | skipUnequalByte
  | skipEqual
  | loadByte
  | addByte
  | copy
  | or
  | and
  | xor
  | add
  | sub
  | shiftRight
  | subFrom
  | shiftLeft
  | skipUnequal
  | loadIndex
  | jumpOffset
  | random
  | draw
  | skipKeyDown
  | skipKeyUp
  | readDelay
  | waitKey
  | setDelay
  | setSound
  | addIndex
  | glyph
  | storeDecimal
  | storeRegisters
  | loadRegisters
deriving DecidableEq

namespace Opcode

/-- Every opcode with its pattern, in the order of their words. -/
def patterns : List (Opcode × String) :=
  [(clearScreen, "00E0"), (ret, "00EE"), (sys, "0nnn"), (jump, "1nnn"), (call, "2nnn"),
   (skipEqualByte, "3xkk"), (skipUnequalByte, "4xkk"), (skipEqual, "5xy0"), (loadByte, "6xkk"),
   (addByte, "7xkk"), (copy, "8xy0"), (or, "8xy1"), (and, "8xy2"), (xor, "8xy3"), (add, "8xy4"),
   (sub, "8xy5"), (shiftRight, "8xy6"), (subFrom, "8xy7"), (shiftLeft, "8xyE"),
   (skipUnequal, "9xy0"), (loadIndex, "Annn"), (jumpOffset, "Bnnn"), (random, "Cxkk"),
   (draw, "Dxyn"), (skipKeyDown, "Ex9E"), (skipKeyUp, "ExA1"), (readDelay, "Fx07"),
   (waitKey, "Fx0A"), (setDelay, "Fx15"), (setSound, "Fx18"), (addIndex, "Fx1E"), (glyph, "Fx29"),
   (storeDecimal, "Fx33"), (storeRegisters, "Fx55"), (loadRegisters, "Fx65")]

def all : List Opcode := patterns.map Prod.fst

theorem mem_all (op : Opcode) : op ∈ all := by cases op <;> decide

def name (op : Opcode) : String := (patterns.lookup op).getD ""

def index (op : Opcode) : Nat := all.idxOf op

def order (a b : Opcode) : Ordering := compare a.index b.index

/-- Reads a pattern. Letters of ASCII count the same in either case. -/
def ofName (name : String) : Except Error Opcode :=
  match patterns.find? fun (_, pattern) => pattern.toLower = name.toLower with
  | some (op, _) => .ok op
  | none => .error (.invalidOpcodeName name)

/-- The opcode of the words `8xy_` by their last nibble. -/
def arithmetic? : Nat → Option Opcode
  | 0x0 => some copy
  | 0x1 => some or
  | 0x2 => some and
  | 0x3 => some xor
  | 0x4 => some add
  | 0x5 => some sub
  | 0x6 => some shiftRight
  | 0x7 => some subFrom
  | 0xe => some shiftLeft
  | _ => none

/-- The opcode of the words `Fx__` by their last byte. -/
def device? : Nat → Option Opcode
  | 0x07 => some readDelay
  | 0x0a => some waitKey
  | 0x15 => some setDelay
  | 0x18 => some setSound
  | 0x1e => some addIndex
  | 0x29 => some glyph
  | 0x33 => some storeDecimal
  | 0x55 => some storeRegisters
  | 0x65 => some loadRegisters
  | _ => none

/-- The opcode of a word, if it is an instruction. The third nibble of `00E0`, `00EE`, `Ex9E` and
`ExA1` and the last of `5xy0` and `9xy0` may be any. -/
def decode? (w : UInt16) : Option Opcode :=
  match Word.family w, (Word.x w).val, (Word.n w).val with
  | 0x0, 0x0, 0x0 => some clearScreen
  | 0x0, 0x0, 0xe => some ret
  | 0x0, 0x0, _ => none
  | 0x0, _, _ => some sys
  | 0x1, _, _ => some jump
  | 0x2, _, _ => some call
  | 0x3, _, _ => some skipEqualByte
  | 0x4, _, _ => some skipUnequalByte
  | 0x5, _, _ => some skipEqual
  | 0x6, _, _ => some loadByte
  | 0x7, _, _ => some addByte
  | 0x8, _, n => arithmetic? n
  | 0x9, _, _ => some skipUnequal
  | 0xa, _, _ => some loadIndex
  | 0xb, _, _ => some jumpOffset
  | 0xc, _, _ => some random
  | 0xd, _, _ => some draw
  | 0xe, _, 0xe => some skipKeyDown
  | 0xe, _, 0x1 => some skipKeyUp
  | 0xf, _, _ => device? (Word.kk w).toNat
  | _, _, _ => none

def decode (w : UInt16) : Except Error Opcode :=
  match decode? w with
  | some op => .ok op
  | none => .error (.unknownOpcode w)

end Opcode

end Chip8
