import Chip8.Word

/-! # General purpose registers -/

namespace Chip8

structure Registers where
  cells : Vector UInt8 Layout.registerCount
deriving DecidableEq

namespace Registers

def zero : Registers := ⟨Vector.replicate Layout.registerCount 0⟩

def get (v : Registers) (r : Reg) : UInt8 := v.cells[r]

def set (v : Registers) (r : Reg) (value : UInt8) : Registers := ⟨v.cells.set r value⟩

@[ext]
theorem ext {v w : Registers} (h : ∀ r, v.get r = w.get r) : v = w := by
  cases v; cases w
  exact congrArg Registers.mk (Vector.ext fun i hi => h ⟨i, hi⟩)

@[simp]
theorem get_set (v : Registers) (r s : Reg) (value : UInt8) :
    (v.set r value).get s = if r = s then value else v.get s := by
  simp [get, set, Vector.getElem_set, Fin.ext_iff]

/-- The registers up to `r`, which is one of them. -/
def upTo (v : Registers) (r : Reg) : List UInt8 := v.cells.toList.take (r.val + 1)

/-- The first registers take the given bytes, and the others keep what they hold. -/
def load (v : Registers) (bytes : List UInt8) : Registers :=
  ⟨Vector.ofFn fun r => bytes[r.val]?.getD (v.get r)⟩

@[simp]
theorem get_load (v : Registers) (bytes : List UInt8) (r : Reg) :
    (v.load bytes).get r = bytes[r.val]?.getD (v.get r) := by
  simp [get, load]

end Registers

end Chip8
