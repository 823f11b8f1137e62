import Chip8.Proofs.Exec
import Chip8.Proofs.Pixels

/-! # A machine in plain numbers

The view of a machine gives every cell that the machine holds as a number or a truth value. It loses
nothing: two machines with one view are one machine.
-/

namespace Chip8

@[ext]
structure View where
  v : Nat → Nat
  i : Nat
  pc : Nat
  stack : Nat → Nat
  sp : Nat
  memory : Nat → Nat
  delay : Nat
  sound : Nat
  key : Nat → Bool
  /-- Whether the pixel in a column and a row is lit. -/
  lit : Nat → Nat → Bool
  /-- Whether the screen counts as changed. -/
  shown : Bool
  /-- Whether the buzzer counts as changed. -/
  heard : Bool

namespace View

def put (f : Nat → Nat) (place value : Nat) : Nat → Nat :=
  fun k => if k = place then value else f k

def setV (s : View) (x value : Nat) : View := { s with v := put s.v x value }

def skip (s : View) (condition : Bool) : View :=
  if condition then { s with pc := (s.pc + 2) % 65536 } else s

theorem ext_memory {s t : View} (hrest : { s with memory := t.memory } = t)
    (h : ∀ k, s.memory k = t.memory k) : s = t := by
  rw [← hrest, ← funext h]

theorem ext_v {s t : View} (hrest : { s with v := t.v } = t) (h : ∀ k, s.v k = t.v k) : s = t := by
  rw [← hrest, ← funext h]

end View

theorem eq_of_getD {α : Type} {n : Nat} {cells cells' : Vector α n} {d : α}
    (h : ∀ k : Nat, cells[k]?.getD d = cells'[k]?.getD d) : cells = cells' := by
  apply Vector.ext
  intro k hk
  simpa [hk] using h k

theorem toNat_toUInt8 (flag : Bool) : flag.toUInt8.toNat = flag.toNat := by
  cases flag <;> rfl

namespace Machine

def view (m : Machine) : View where
  v k := (m.v.cells[k]?.getD 0).toNat
  i := m.i.toNat
  pc := m.pc.toNat
  stack k := (m.stack.slots[k]?.getD 0).toNat
  sp := m.stack.depth
  memory k := (m.memory.cells[k]?.getD 0).toNat
  delay := m.delay.toNat
  sound := m.sound.toNat
  key k := m.keypad.lines[k]?.getD false
  lit := m.display.pixel
  shown := m.display.changed
  heard := m.soundChanged

theorem view_v (m : Machine) (r : Reg) : m.view.v r = (m.v.get r).toNat := by
  simp [view, Registers.get]

theorem view_memory (m : Machine) {k : Nat} (hk : k < Layout.memorySize) :
    m.view.memory k = m.memory.cells[k].toNat := by
  simp [view, hk]

theorem memory_of_view {m n : Machine} (h : m.view.memory = n.view.memory) :
    m.memory = n.memory := by
  apply Memory.ext
  intro k hk
  rw [← UInt8.toNat_inj, ← view_memory m hk, ← view_memory n hk, h]

theorem view_injective {m n : Machine} (h : m.view = n.view) : m = n := by
  have hv : m.v.cells = n.v.cells :=
    eq_of_getD fun k => UInt8.toNat.inj (congrFun (congrArg View.v h) k)
  have hslots : m.stack.slots = n.stack.slots :=
    eq_of_getD fun k => UInt16.toNat.inj (congrFun (congrArg View.stack h) k)
  have hdepth : m.stack.depth = n.stack.depth := congrArg View.sp h
  have hmemory : m.memory = n.memory := memory_of_view (congrArg View.memory h)
  have hlines : m.keypad.lines = n.keypad.lines :=
    eq_of_getD fun k => congrFun (congrArg View.key h) k
  have hscreen : m.display.screen = n.display.screen :=
    Display.screen_ext fun px py => congrFun (congrFun (congrArg View.lit h) px) py
  have hi : m.i = n.i := UInt16.toNat.inj (congrArg View.i h)
  have hpc : m.pc = n.pc := UInt16.toNat.inj (congrArg View.pc h)
  have hdelay : m.delay = n.delay := UInt8.toNat.inj (congrArg View.delay h)
  have hsound : m.sound = n.sound := UInt8.toNat.inj (congrArg View.sound h)
  have hshown : m.display.changed = n.display.changed := congrArg View.shown h
  have hheard : m.soundChanged = n.soundChanged := congrArg View.heard h
  obtain ⟨memory, ⟨slots, depth, hle⟩, ⟨v⟩, i, pc, delay, sound, ⟨lines⟩,
    ⟨screen, shown⟩, heard⟩ := m
  obtain ⟨memory', ⟨slots', depth', hle'⟩, ⟨v'⟩, i', pc', delay', sound', ⟨lines'⟩,
    ⟨screen', shown'⟩, heard'⟩ := n
  cases hv
  cases hslots
  cases hdepth
  cases hmemory
  cases hlines
  cases hscreen
  cases hi
  cases hpc
  cases hdelay
  cases hsound
  cases hshown
  cases hheard
  rfl

theorem view_setV (m : Machine) (r : Reg) (value : UInt8) :
    (m.setV r value).view = m.view.setV r value.toNat := by
  have hv : (m.setV r value).view.v = View.put m.view.v r value.toNat := by
    funext k
    obtain rfl | hk := Decidable.em (k = r)
    · simp [view, setV, Registers.set, View.put]
    · simp [view, setV, Registers.set, View.put, hk, Vector.getElem?_set, Ne.symm hk]
  rw [View.setV, ← hv]
  rfl

theorem view_setFlag (m : Machine) (flag : Bool) :
    (m.setV Reg.flag flag.toUInt8).view = m.view.setV 15 flag.toNat := by
  rw [view_setV, toNat_toUInt8]
  rfl

theorem view_setResult (m : Machine) (r : Reg) (value : UInt8) (flag : Bool) :
    (m.setResult r value flag).view = (m.view.setV r value.toNat).setV 15 flag.toNat := by
  rw [setResult, view_setFlag, view_setV]

theorem view_skipIf (m : Machine) (condition : Bool) :
    (m.skipIf condition).view = m.view.skip condition := by
  cases condition with
  | false => rfl
  | true =>
    have hpc : (m.pc + UInt16.ofNat Layout.instructionSize).toNat = (m.pc.toNat + 2) % 65536 := by
      simp [UInt16.toNat_add]
    simp only [skipIf, View.skip, if_true, view, hpc]

theorem view_jumpTo (m : Machine) (addr : Nat) :
    (m.jumpTo addr).view = { m.view with pc := addr % 65536 } := by
  simp [jumpTo, view]

theorem view_overlay (m : Machine) {addr : Nat} {data : List UInt8}
    (h : addr + data.length ≤ Layout.memorySize) (k : Nat) :
    { m with memory := m.memory.overlay addr data }.view.memory k =
      if addr ≤ k ∧ k < addr + data.length then (data.getD (k - addr) 0).toNat
      else m.view.memory k := by
  obtain hk | hk := Nat.lt_or_ge k Layout.memorySize
  · rw [view_memory _ hk, view_memory m hk, Memory.cells_overlay]
    by_cases hin : addr ≤ k ∧ k < addr + data.length
    · have hlt : k - addr < data.length := by omega
      simp [hin, hlt]
    · have hout : ¬ (addr ≤ k ∧ k - addr < data.length) := by omega
      rw [dif_neg hout, if_neg hin]
  · have hout : ¬ (addr ≤ k ∧ k < addr + data.length) := by omega
    rw [if_neg hout]
    simp [view, Nat.not_lt.mpr hk]

theorem view_read {m : Machine} {addr len : Nat} {bytes : List UInt8}
    (h : m.memory.read addr len = .ok bytes) : bytes.length = len ∧
      ∀ k, k < len → (bytes.getD k 0).toNat = m.view.memory (addr + k) := by
  obtain ⟨-, hlength, hbytes⟩ := Memory.read_eq_ok_iff.mp h
  refine ⟨hlength, ?_⟩
  intro k hk
  rw [List.getD_eq_getElem?_getD, hbytes k hk]
  rfl

theorem view_load (m : Machine) {bytes : List UInt8} (h : bytes.length ≤ Layout.registerCount)
    (k : Nat) : { m with v := m.v.load bytes }.view.v k =
      if k < bytes.length then (bytes.getD k 0).toNat else m.view.v k := by
  obtain hk | hk := Nat.lt_or_ge k Layout.registerCount
  · obtain hin | hout := Nat.lt_or_ge k bytes.length
    · simp [view, Registers.load, hk, hin]
    · simp [view, Registers.load, Registers.get, hk, Nat.not_lt.mpr hout]
  · have hout : ¬ k < bytes.length := by omega
    simp [view, Nat.not_lt.mpr hk, hout]

end Machine

end Chip8
