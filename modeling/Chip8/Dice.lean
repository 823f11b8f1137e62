/-! # Dice

The bytes that chance has in store, in the order in which they are rolled.
-/

namespace Chip8

structure Dice where
  roll : Nat → UInt8
  rolled : Nat

namespace Dice

def top (dice : Dice) : UInt8 := dice.roll dice.rolled

def next (dice : Dice) : Dice := { dice with rolled := dice.rolled + 1 }

/-- A large number for each turn, made of eight bytes. -/
def number (dice : Dice) (turn : Nat) : Nat :=
  (List.range 8).foldl (fun n k => n * 0x100 + (dice.roll (8 * turn + k)).toNat) 0

/-- Dice whose every byte is a mixture of the seed and of its place. -/
def ofSeed (seed : UInt64) : Dice where
  roll n :=
    let z := seed + UInt64.ofNat (n + 1) * 0x9e3779b97f4a7c15
    let z := (z ^^^ (z >>> 30)) * 0xbf58476d1ce4e5b9
    let z := (z ^^^ (z >>> 27)) * 0x94d049bb133111eb
    (z ^^^ (z >>> 31)).toUInt8
  rolled := 0

end Dice

end Chip8
