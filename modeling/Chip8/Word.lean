import Chip8.Layout

/-! # Instruction words

An instruction is a word of sixteen bits, read as four nibbles. Those that do not choose the
instruction carry its operands: `x` and `y` name registers, `n` is a count, `kk` a byte and `nnn` an
address.
-/

namespace Chip8

/-- A nibble that names one of the sixteen registers. -/
abbrev Reg := Fin Layout.registerCount

/-- The register that `Bnnn` adds. -/
def Reg.first : Reg := ⟨0, by decide⟩

/-- The register that holds carries, borrows, bits shifted out and collisions. -/
def Reg.flag : Reg := ⟨15, by decide⟩

namespace Word

/-- The most significant nibble. -/
def family (w : UInt16) : Nat := w.toNat / 0x1000

def x (w : UInt16) : Reg := Fin.ofNat 16 (w.toNat / 0x100)

def y (w : UInt16) : Reg := Fin.ofNat 16 (w.toNat / 0x10)

def n (w : UInt16) : Fin 16 := Fin.ofNat 16 w.toNat

def kk (w : UInt16) : UInt8 := UInt8.ofNat w.toNat

def nnn (w : UInt16) : Fin 4096 := Fin.ofNat 4096 w.toNat

/-- The word whose first byte is the more significant one. -/
def ofBytes (high low : UInt8) : UInt16 := UInt16.ofNat (high.toNat * 0x100 + low.toNat)

end Word

end Chip8
