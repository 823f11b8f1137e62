import Chip8.Error
import Chip8.Layout

/-! # The keypad

Sixteen key lines, numbered by their digits. A line is down or up.
-/

namespace Chip8

structure Keypad where
  lines : Vector Bool Layout.keyCount
deriving DecidableEq

namespace Keypad

def released : Keypad := ⟨Vector.replicate Layout.keyCount false⟩

def line (k : Keypad) (key : Nat) : Except Error Bool :=
  if h : key < Layout.keyCount then .ok k.lines[key] else .error (.invalidKey key)

def set (k : Keypad) (key : Nat) (down : Bool) : Except Error Keypad :=
  if h : key < Layout.keyCount then .ok ⟨k.lines.set key down⟩ else .error (.invalidKey key)

/-- After a line was moved it is as it was put, and the others are as they were. -/
theorem line_set {k k' : Keypad} {key : Nat} {down : Bool} (h : k.set key down = .ok k')
    (other : Nat) : k'.line other = if other = key then .ok down else k.line other := by
  unfold set at h
  split at h
  case isTrue hkey =>
    cases h
    by_cases hother : other = key
    · simp [line, hother, hkey]
    · simp [line, hother, Ne.symm hother]
  case isFalse => cases h

/-- The lines that are down, lowest first. -/
def down (k : Keypad) : List (Fin Layout.keyCount) :=
  (List.finRange Layout.keyCount).filter fun key => k.lines[key]

theorem mem_down {k : Keypad} {key : Fin Layout.keyCount} :
    key ∈ k.down ↔ k.lines.get key = true := by
  simp only [down, List.mem_filter, List.mem_finRange, true_and]
  rfl

def lowest? (k : Keypad) : Option (Fin Layout.keyCount) :=
  (List.finRange Layout.keyCount).find? fun key => k.lines[key]

theorem lowest?_eq_head?_down (k : Keypad) : k.lowest? = k.down.head? := by
  simp [lowest?, down, List.head?_filter]

end Keypad

end Chip8
