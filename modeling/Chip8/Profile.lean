import Chip8.Machine
import Chip8.Named

/-! # Profiles

A profile describes a program: where it lies, where its interesting values are found in the machine,
and which keys a controller may press.
-/

namespace Chip8

inductive VariableKind
  /-- Three decimal digits in memory, hundreds first. -/
  | decimal
  | register
deriving DecidableEq

structure Variable where
  kind : VariableKind
  index : UInt64
deriving DecidableEq

structure Profile where
  /-- The path of the program. -/
  rom : String
  vars : Named Variable
  /-- The keys that a controller may press, if the profile says so. -/
  actions : Option (List UInt64)
deriving DecidableEq

namespace Variable

/-- The number that bytes write when each counts as a decimal digit. -/
def ofDigits (digits : List UInt8) : UInt32 :=
  digits.foldl (fun value digit => value * 10 + digit.toUInt32) 0

def read (var : Variable) (m : Machine) : Except Error UInt32 :=
  match var.kind with
  | .decimal => (m.memory.read var.index.toNat 3).map ofDigits
  | .register => (m.register var.index.toNat).map UInt8.toUInt32

end Variable

namespace Profile

def lookup (profile : Profile) (name : String) : Except Error Variable :=
  match profile.vars.get? name with
  | some found => .ok found
  | none => .error (.unknownVariable name)

/-- The present values of all variables, in the order of their names. -/
def readAll (profile : Profile) (m : Machine) : Except Error (List (String × UInt32)) :=
  profile.vars.entries.mapM fun (name, var) => do return (name, ← var.read m)

/-- Refuses a profile whose actions name a key that does not exist. -/
def validate (profile : Profile) : Except Error Profile :=
  match (profile.actions.getD []).find? fun key => Layout.keyCount ≤ key.toNat with
  | some key => .error (.invalidKey key.toNat)
  | none => .ok profile

end Profile

end Chip8
