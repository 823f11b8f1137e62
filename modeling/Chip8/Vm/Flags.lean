import Chip8.Layout

/-! # Scheduling flags -/

namespace Chip8

structure Flags where
  /-- Whether each cycle waits until its time is over. -/
  pacing : Bool
  /-- Instructions per cycle. -/
  ipc : Nat
  /-- Cycles per second when pacing. -/
  frequency : Nat
deriving DecidableEq

namespace Flags

def standard : Flags := ⟨false, Layout.instructionsPerCycle, Layout.frequency⟩

def togglePacing (flags : Flags) : Flags := { flags with pacing := !flags.pacing }

/-- How long a cycle takes, in whole nanoseconds. None if no cycle ever begins. -/
def period? (flags : Flags) : Option Nat :=
  if flags.frequency = 0 then none else some (1000000000 / flags.frequency)

/-- Flags are compared field by field, and off comes before on. -/
def order (a b : Flags) : Ordering :=
  (compare a.pacing.toNat b.pacing.toNat).then
    ((compare a.ipc b.ipc).then (compare a.frequency b.frequency))

end Flags

end Chip8
