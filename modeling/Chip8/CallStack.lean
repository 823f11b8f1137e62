import Chip8.Layout

/-! # The call stack

Sixteen slots for return addresses, of which the first `depth` are live. A slot that is no longer
live keeps its address until the next call overwrites it.
-/

namespace Chip8

structure CallStack where
  slots : Vector UInt16 Layout.stackDepth
  depth : Nat
  depth_le : depth ≤ Layout.stackDepth
deriving DecidableEq

namespace CallStack

def empty : CallStack := ⟨Vector.replicate Layout.stackDepth 0, 0, by decide⟩

/-- The live return addresses, oldest first. -/
def toList (s : CallStack) : List UInt16 := s.slots.toList.take s.depth

def push? (s : CallStack) (addr : UInt16) : Option CallStack :=
  if h : s.depth < Layout.stackDepth then some ⟨s.slots.set s.depth addr, s.depth + 1, h⟩ else none

def pop? (s : CallStack) : Option (UInt16 × CallStack) :=
  match s with
  | ⟨_, 0, _⟩ => none
  | ⟨slots, depth + 1, h⟩ => some (slots[depth], ⟨slots, depth, Nat.le_of_succ_le h⟩)

@[simp]
theorem length_toList (s : CallStack) : s.toList.length = s.depth := by
  simp [toList, s.depth_le]

theorem toList_push? {s t : CallStack} {addr : UInt16} (h : s.push? addr = some t) :
    t.toList = s.toList ++ [addr] := by
  unfold push? at h
  split at h
  case isTrue hlt =>
    cases h
    simp [toList, List.take_add_one, hlt, Vector.toList_set, List.take_set_of_le]
  case isFalse => cases h

theorem toList_pop? {s t : CallStack} {addr : UInt16} (h : s.pop? = some (addr, t)) :
    s.toList = t.toList ++ [addr] := by
  obtain ⟨slots, depth, hle⟩ := s
  cases depth with
  | zero => simp [pop?] at h
  | succ depth =>
    simp only [pop?, Option.some.injEq, Prod.mk.injEq] at h
    obtain ⟨rfl, rfl⟩ := h
    simp [toList, List.take_add_one, Nat.lt_of_succ_le hle]

end CallStack

end Chip8
