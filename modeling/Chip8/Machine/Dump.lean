import Chip8.Machine
import Chip8.Text.Hex

/-! # Views of a machine as text

`dump` is the table of registers, timers and return addresses that a person reads, `describe` the
same as one line with field names.
-/

namespace Chip8.Machine

open Text

def registerEntry (m : Machine) (r : Reg) : String :=
  "v" ++ Hex.upper r.val ++ ": " ++ Hex.lower 2 (m.v.get r).toNat ++ " "
    ++ (if r.val % 4 = 3 then "\n" else "")

def bracketed (items : List String) : String := "[" ++ String.intercalate ", " items ++ "]"

/-- Registers stand four in a row. -/
def dump (m : Machine) : String :=
  "PC: " ++ Hex.lower 4 m.pc.toNat ++ ", SP: " ++ Hex.lower 2 m.stack.depth
    ++ ", I: " ++ Hex.lower 4 m.i.toNat ++ "\n"
    ++ String.join ((List.finRange Layout.registerCount).map m.registerEntry)
    ++ "DLY: " ++ toString m.delay ++ ", SND: " ++ toString m.sound
    ++ ", STACK: " ++ bracketed (m.stack.toList.map fun a => Hex.lower 3 a.toNat) ++ "\n"

def describe (m : Machine) : String :=
  "MachineState \x7b stack: " ++ bracketed (m.stack.toList.map toString)
    ++ ", pc: " ++ toString m.pc ++ ", i: " ++ toString m.i
    ++ ", v: " ++ bracketed (m.v.cells.toList.map toString)
    ++ ", delay: " ++ toString m.delay ++ ", sound: " ++ toString m.sound
    ++ ", keyboard: " ++ bracketed (m.keypad.lines.toList.map toString) ++ ", .. \x7d"

end Chip8.Machine
