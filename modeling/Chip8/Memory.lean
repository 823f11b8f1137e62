import Chip8.Error
import Chip8.Word

/-! # Memory

Four kibibytes that are read and written in ranges. A range that does not lie inside memory as a
whole is refused, and then nothing is written.
-/

namespace Chip8

structure Memory where
  cells : Vector UInt8 Layout.memorySize
deriving DecidableEq

namespace Memory

@[ext]
theorem ext {m m' : Memory} (h : ∀ (j : Nat) (hj : j < Layout.memorySize),
    m.cells[j] = m'.cells[j]) : m = m' := by
  cases m; cases m'
  exact congrArg Memory.mk (Vector.ext h)

def zero : Memory := ⟨Vector.replicate Layout.memorySize 0⟩

/-- Lays data over the cells from an address on. What would pass the end is dropped. -/
def overlay (m : Memory) (addr : Nat) : List UInt8 → Memory
  | [] => m
  | byte :: rest => overlay ⟨m.cells.setIfInBounds addr byte⟩ (addr + 1) rest

/-- Each cell of the range holds its byte of the data, and every other cell what it held. -/
theorem cells_overlay (m : Memory) (addr : Nat) (data : List UInt8) (j : Nat)
    (hj : j < Layout.memorySize) : (m.overlay addr data).cells[j] =
      if h : addr ≤ j ∧ j - addr < data.length then data[j - addr] else m.cells[j] := by
  induction data generalizing m addr with
  | nil => simp [overlay]
  | cons byte rest ih =>
    rw [overlay, ih]
    by_cases hlt : j < addr
    · rw [dif_neg (by omega), dif_neg (by omega), Vector.getElem_setIfInBounds, if_neg (by omega)]
    by_cases heq : j = addr
    · subst heq
      rw [dif_neg (by omega), dif_pos ⟨Nat.le_refl j, by simp⟩, Vector.getElem_setIfInBounds]
      simp
    obtain ⟨k, hk⟩ : ∃ k, j - addr = k + 1 := ⟨j - addr - 1, by omega⟩
    have hk' : j - (addr + 1) = k := by omega
    by_cases hin : k < rest.length
    · rw [dif_pos ⟨by omega, by omega⟩, dif_pos ⟨by omega, by simp [hk, hin]⟩]
      simp [hk, hk']
    · rw [dif_neg (by omega), dif_neg (by simp [hk]; omega), Vector.getElem_setIfInBounds,
        if_neg (by omega)]

/-- Where a range ends. Addresses are words of 64 bits, and a sum that none of them holds stays at
the greatest. -/
def rangeEnd (addr len : Nat) : Nat := min (addr + len) (UInt64.size - 1)

/-- The cells from an address up to another, which has to be neither before it nor past the end. -/
abbrev Spans (start stop : Nat) : Prop := start ≤ stop ∧ stop ≤ Layout.memorySize

/-- Memory is far smaller than the range of addresses, so no sum that was cut short ends in it. -/
theorem spans_rangeEnd_iff {addr len : Nat} :
    Spans addr (rangeEnd addr len) ↔ addr + len ≤ Layout.memorySize := by
  simp only [Spans, rangeEnd, UInt64.size, Layout.memorySize]
  omega

theorem rangeEnd_sub {addr len : Nat} (h : addr + len ≤ Layout.memorySize) :
    rangeEnd addr len - addr = len := by
  simp only [rangeEnd, UInt64.size]
  simp only [Layout.memorySize] at h
  omega

def read (m : Memory) (addr len : Nat) : Except Error (List UInt8) :=
  if h : Spans addr (rangeEnd addr len) then
    .ok (List.ofFn fun k : Fin (rangeEnd addr len - addr) => m.cells[addr + k])
  else .error (.outOfBounds addr len)

theorem read_eq (m : Memory) (addr len : Nat) : m.read addr len =
    if h : addr + len ≤ Layout.memorySize then
      .ok (List.ofFn fun k : Fin len => m.cells[addr + k])
    else .error (.outOfBounds addr len) := by
  unfold read
  by_cases h : addr + len ≤ Layout.memorySize
  · rw [dif_pos (spans_rangeEnd_iff.mpr h), dif_pos h]
    refine congrArg Except.ok (List.ext_getElem ?_ ?_)
    · simp only [List.length_ofFn, rangeEnd_sub h]
    · intro k _ _
      simp only [List.getElem_ofFn]
  · rw [dif_neg (mt spans_rangeEnd_iff.mp h), dif_neg h]

def write (m : Memory) (addr : Nat) (data : List UInt8) : Except Error Memory :=
  if Spans addr (rangeEnd addr data.length) then .ok (m.overlay addr data)
  else .error (.outOfBounds addr data.length)

theorem write_eq (m : Memory) (addr : Nat) (data : List UInt8) : m.write addr data =
    if addr + data.length ≤ Layout.memorySize then .ok (m.overlay addr data)
    else .error (.outOfBounds addr data.length) := by
  simp only [write, spans_rangeEnd_iff]

/-- The word at an address, more significant byte first. -/
def readWord (m : Memory) (addr : Nat) : Except Error UInt16 :=
  if h : addr + 1 < Layout.memorySize then
    .ok (Word.ofBytes m.cells[addr] m.cells[addr + 1])
  else .error (.outOfBounds addr Layout.instructionSize)

def load (m : Memory) (rom : List UInt8) : Except Error Memory :=
  if rom.length ≤ Layout.maxRomSize then .ok (m.overlay Layout.programStart rom)
  else .error (.romTooLarge rom.length Layout.maxRomSize)

/-- What memory holds when the machine is switched on: the font and nothing else. -/
def powerOn : Memory := zero.overlay Layout.fontStart Layout.font

end Memory

end Chip8
