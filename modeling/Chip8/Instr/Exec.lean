import Chip8.Instr
import Chip8.Machine

/-! # What the instructions do

`Machine.exec` is the meaning of each instruction. An instruction that fails has no effect, so it
has a machine as its result or an error. The program counter is already past the instruction.
-/

namespace Chip8.Machine

/-- Moves past the next instruction if the condition holds. -/
def skipIf (m : Machine) (condition : Bool) : Machine :=
  if condition then { m with pc := m.pc + UInt16.ofNat Layout.instructionSize } else m

def jumpTo (m : Machine) (addr : Nat) : Machine := { m with pc := UInt16.ofNat addr }

def setV (m : Machine) (r : Reg) (value : UInt8) : Machine := { m with v := m.v.set r value }

/-- Stores a result and then the flag that came with it. The flag wins if both have one register. -/
def setResult (m : Machine) (r : Reg) (value : UInt8) (flag : Bool) : Machine :=
  (m.setV r value).setV Reg.flag flag.toUInt8

/-- The decimal digits of a byte, hundreds first. -/
def decimalDigits (value : UInt8) : List UInt8 := [value / 100, value / 10 % 10, value % 10]

/-- The machine after an instruction. The byte `roll` is what chance has to offer. -/
def exec (m : Machine) (roll : UInt8) : Instr → Except Error Machine
  | .clearScreen => .ok { m with display := m.display.clear }
  | .ret =>
    match m.stack.pop? with
    | some (addr, stack) => .ok { m with stack, pc := addr }
    | none => .error (.stackUnderflow m.pc)
  | .sys _ => .ok m
  | .jump addr => .ok (m.jumpTo addr)
  | .call addr =>
    match m.stack.push? m.pc with
    | some stack => .ok ({ m with stack }.jumpTo addr)
    | none => .error (.stackOverflow m.pc)
  | .skipEqualByte x byte => .ok (m.skipIf (m.v.get x == byte))
  | .skipUnequalByte x byte => .ok (m.skipIf (m.v.get x != byte))
  | .skipEqual x y => .ok (m.skipIf (m.v.get x == m.v.get y))
  | .skipUnequal x y => .ok (m.skipIf (m.v.get x != m.v.get y))
  | .loadByte x byte => .ok (m.setV x byte)
  | .addByte x byte => .ok (m.setV x (m.v.get x + byte))
  | .copy x y => .ok (m.setV x (m.v.get y))
  | .or x y => .ok (m.setV x (m.v.get x ||| m.v.get y))
  | .and x y => .ok (m.setV x (m.v.get x &&& m.v.get y))
  | .xor x y => .ok (m.setV x (m.v.get x ^^^ m.v.get y))
  | .add x y =>
    let (a, b) := (m.v.get x, m.v.get y)
    .ok (m.setResult x (a + b) (256 ≤ a.toNat + b.toNat))
  | .sub x y =>
    let (a, b) := (m.v.get x, m.v.get y)
    .ok (m.setResult x (a - b) (b ≤ a))
  | .shiftRight x =>
    let a := m.v.get x
    .ok (m.setResult x (a >>> 1) (a &&& 1 != 0))
  | .subFrom x y =>
    let (a, b) := (m.v.get x, m.v.get y)
    .ok (m.setResult y (b - a) (a ≤ b))
  | .shiftLeft x =>
    let a := m.v.get x
    .ok (m.setResult x (a <<< 1) (a &&& 0x80 != 0))
  | .loadIndex addr => .ok { m with i := UInt16.ofNat addr }
  | .jumpOffset addr => .ok (m.jumpTo (addr + (m.v.get Reg.first).toNat))
  | .random x byte => .ok (m.setV x (roll &&& byte))
  | .draw x y rows => do
    let sprite ← m.memory.read m.i.toNat rows
    let (hit, display) := m.display.drawSprite (m.v.get x).toUInt64 (m.v.get y).toUInt64 sprite
    return { m with display }.setV Reg.flag hit.toUInt8
  | .skipKeyDown x => do
    return m.skipIf (← m.keypad.line (m.v.get x).toNat)
  | .skipKeyUp x => do
    return m.skipIf (!(← m.keypad.line (m.v.get x).toNat))
  | .readDelay x => .ok (m.setV x m.delay)
  | .waitKey x =>
    match m.keypad.lowest? with
    | some key => .ok (m.setV x (UInt8.ofNat key))
    | none => .ok { m with pc := m.pc - UInt16.ofNat Layout.instructionSize }
  | .setDelay x => .ok { m with delay := m.v.get x }
  | .setSound x => .ok (m.setSound (m.v.get x))
  | .addIndex x =>
    let sum := m.i.toNat + (m.v.get x).toNat
    .ok ({ m with i := UInt16.ofNat sum }.setV Reg.flag (decide (0x10000 ≤ sum)).toUInt8)
  | .glyph x =>
    .ok { m with i := UInt16.ofNat (Layout.fontStart + Layout.glyphSize * (m.v.get x).toNat) }
  | .storeDecimal x => m.write m.i.toNat (decimalDigits (m.v.get x))
  | .storeRegisters x => m.write m.i.toNat (m.v.upTo x)
  | .loadRegisters x => do
    return { m with v := m.v.load (← m.memory.read m.i.toNat (x + 1)) }

end Chip8.Machine
