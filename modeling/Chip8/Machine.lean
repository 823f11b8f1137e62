import Chip8.CallStack
import Chip8.Display
import Chip8.Keypad
import Chip8.Memory
import Chip8.Registers

/-! # The machine

All of the hardware of one machine, and what can be done to it from outside: reading and writing
memory, setting registers and timers, moving keys, and asking whether its output has changed.
-/

namespace Chip8

structure Machine where
  memory : Memory
  stack : CallStack
  v : Registers
  /-- The index register, which addresses memory. -/
  i : UInt16
  pc : UInt16
  delay : UInt8
  sound : UInt8
  keypad : Keypad
  display : Display
  /-- Whether the buzzer went on or off since somebody last asked. -/
  soundChanged : Bool
deriving DecidableEq

namespace Machine

def powerOn : Machine where
  memory := .powerOn
  stack := .empty
  v := .zero
  i := 0
  pc := UInt16.ofNat Layout.programStart
  delay := 0
  sound := 0
  keypad := .released
  display := .blank
  soundChanged := false

def loadRom (m : Machine) (rom : List UInt8) : Except Error Machine := do
  return { m with memory := ← m.memory.load rom }

def write (m : Machine) (addr : Nat) (data : List UInt8) : Except Error Machine := do
  return { m with memory := ← m.memory.write addr data }

def setRegister (m : Machine) (reg : Nat) (value : UInt8) : Except Error Machine :=
  if h : reg < Layout.registerCount then .ok { m with v := m.v.set ⟨reg, h⟩ value }
  else .error (.invalidRegister reg)

def register (m : Machine) (reg : Nat) : Except Error UInt8 :=
  if h : reg < Layout.registerCount then .ok (m.v.get ⟨reg, h⟩) else .error (.invalidRegister reg)

def setKey (m : Machine) (key : Nat) (down : Bool) : Except Error Machine := do
  return { m with keypad := ← m.keypad.set key down }

/-- The buzzer sounds while the sound timer runs. -/
def buzzer (m : Machine) : Bool := m.sound != 0

/-- Sets the sound timer. It counts as a change of the output if the buzzer goes on or off. -/
def setSound (m : Machine) (value : UInt8) : Machine :=
  { m with sound := value, soundChanged := m.soundChanged || (m.buzzer != (value != 0)) }

def countDown (timer : UInt8) : UInt8 := if timer = 0 then 0 else timer - 1

def tickTimers (m : Machine) : Machine :=
  { m with delay := countDown m.delay }.setSound (countDown m.sound)

/-- Tells whether the screen or the buzzer changed since this was last asked, and forgets it. -/
def takeOutputChanged (m : Machine) : Bool × Machine :=
  let (shown, display) := m.display.takeChanged
  (m.soundChanged || shown, { m with display, soundChanged := false })

/-- The word at the program counter, and the machine with the counter moved past it. -/
def fetch (m : Machine) : Except Error (UInt16 × Machine) := do
  let word ← m.memory.readWord m.pc.toNat
  return (word, { m with pc := m.pc + UInt16.ofNat Layout.instructionSize })

end Machine

end Chip8
