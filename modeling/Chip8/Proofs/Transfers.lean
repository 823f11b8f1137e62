import Chip8.Proofs.Calls
import Chip8.Proofs.Hooks
import Chip8.Proofs.Variables

/-! # Between registers and memory

Two instructions write memory: one the decimal digits of a register, the other all registers up to
one. Each writes its range as a whole or fails and writes nothing, so a cell keeps its byte for as
long as no range that is written meets it. The digits read as the number that the register held,
and registers that were saved can be put back whatever they hold by then.
-/

namespace Chip8

/-! ## Ranges of memory -/

namespace Memory

theorem cells_overlay_outside (m : Memory) {addr : Nat} {data : List UInt8} {j : Nat}
    (hj : j < Layout.memorySize) (hout : j < addr ∨ addr + data.length ≤ j) :
    (m.overlay addr data).cells[j] = m.cells[j] := by
  rw [cells_overlay]
  exact dif_neg (by omega)

theorem read_congr {m n : Memory} {addr len : Nat}
    (h : ∀ (j : Nat) (hj : j < Layout.memorySize), addr ≤ j → j < addr + len →
      n.cells[j] = m.cells[j]) : n.read addr len = m.read addr len := by
  rw [read_eq, read_eq]
  split
  case isTrue hfits =>
    have hcells : ∀ k : Fin len, n.cells[addr + k] = m.cells[addr + k] := by
      intro k
      have hk := k.isLt
      exact h (addr + k) (by omega) (by omega) (by omega)
    simp only [hcells]
  case isFalse => rfl

/-- What was read from a range is what lies there. -/
theorem overlay_of_read {m : Memory} {addr len : Nat} {bytes : List UInt8}
    (h : m.read addr len = .ok bytes) : m.overlay addr bytes = m := by
  obtain ⟨hfits, hlength, hbytes⟩ := read_eq_ok_iff.mp h
  apply Memory.ext
  intro j hj
  rw [cells_overlay]
  split
  case isTrue hin =>
    have hcell := hbytes (j - addr) (by omega)
    rw [Nat.add_sub_cancel' hin.1, List.getElem?_eq_getElem hin.2,
      Vector.getElem?_eq_getElem hj] at hcell
    exact Option.some.inj hcell
  case isFalse => rfl

end Memory

namespace Registers

theorem getElem?_upTo (v : Registers) {x r : Reg} (h : r ≤ x) :
    (v.upTo x)[r.val]? = some (v.get r) := by
  have hr : r.val < x.val + 1 := Nat.lt_succ_of_le h
  rw [upTo, List.getElem?_take_of_lt hr, Vector.getElem?_toList]
  exact Vector.getElem?_eq_getElem r.isLt

theorem get_load_upTo (v w : Registers) (x r : Reg) :
    (w.load (v.upTo x)).get r = if r ≤ x then v.get r else w.get r := by
  rw [get_load]
  split
  case isTrue h => rw [getElem?_upTo v h, Option.getD_some]
  case isFalse h =>
    have hout : (v.upTo x).length ≤ r.val := by
      rw [length_upTo]
      exact Nat.lt_of_not_le h
    rw [List.getElem?_eq_none hout, Option.getD_none]

theorem upTo_load (v : Registers) {x : Reg} {bytes : List UInt8}
    (hlength : bytes.length = x.val + 1) : (v.load bytes).upTo x = bytes := by
  apply List.ext_getElem?
  intro k
  obtain hk | hk := Nat.lt_or_ge k bytes.length
  · have hr : k < Layout.registerCount := by
      have := x.isLt
      omega
    have hkx : k ≤ x.val := by omega
    have hle : (⟨k, hr⟩ : Reg) ≤ x := hkx
    rw [getElem?_upTo _ hle, get_load, List.getElem?_eq_getElem hk, Option.getD_some]
  · have hout : ((v.load bytes).upTo x).length ≤ k := by
      rw [length_upTo, ← hlength]
      exact hk
    rw [List.getElem?_eq_none hk, List.getElem?_eq_none hout]

end Registers

theorem Variable.ofDigits_decimalDigits (value : UInt8) :
    ofDigits (Machine.decimalDigits value) = value.toUInt32 := by
  have h := value.toNat_lt
  apply UInt32.toNat.inj
  rw [Machine.decimalDigits, ofDigits_three]
  simp only [UInt8.toNat_div, UInt8.toNat_mod, UInt8.toNat_toUInt32]
  simp
  omega

theorem Machine.digit_le {value digit : UInt8} (h : digit ∈ decimalDigits value) : digit ≤ 9 := by
  have hvalue := value.toNat_lt
  have hdigits : value / 100 ≤ 9 ∧ value / 10 % 10 ≤ 9 ∧ value % 10 ≤ 9 := by
    simp only [UInt8.le_iff_toNat_le, UInt8.toNat_div, UInt8.toNat_mod]
    simp
    omega
  simp only [decimalDigits, List.mem_cons, List.not_mem_nil, or_false] at h
  obtain rfl | rfl | rfl := h
  · exact hdigits.1
  · exact hdigits.2.1
  · exact hdigits.2.2

/-! ## Words that are executed -/

namespace Rig

variable {σ : Type} {rig : Rig σ} {w : UInt16} {op : Opcode}

theorem execute_of_unhooked (hhooks : rig.hooks = .empty) (hop : Opcode.decode w = .ok op) :
    rig.execute w = runInstr (.ofOpcode w op) rig := by
  have hhook : rig.hooks.hook? op = none := by rw [hhooks, HookTable.hook?_empty]
  rw [execute_eq_iff (Opcode.decode_eq_ok_iff.mp hop), hhook]
  exact .own rig

theorem execute_of_exec (hhooks : rig.hooks = .empty) (hop : Opcode.decode w = .ok op)
    (hroll : op ≠ .random) {next : Machine}
    (hexec : rig.machine.exec rig.dice.top (.ofOpcode w op) = .ok next) :
    rig.execute w = (.ok (), { rig with machine := next }) := by
  rw [execute_of_unhooked hhooks hop]
  simp only [runInstr, hexec, Instr.opcode_ofOpcode, hroll, if_false]

theorem execute_of_fault (hhooks : rig.hooks = .empty) (hop : Opcode.decode w = .ok op)
    {e : Error} (hfault : (Instr.ofOpcode w op).fault? rig.machine = some e) :
    rig.execute w = (.error e, rig) := by
  rw [execute_of_unhooked hhooks hop]
  simp only [runInstr, Machine.exec_eq_error_iff.mpr hfault]

theorem execute_storeDecimal (hhooks : rig.hooks = .empty)
    (hop : Opcode.decode w = .ok .storeDecimal)
    (hfits : rig.machine.i.toNat + 3 ≤ Layout.memorySize) :
    rig.execute w = (.ok (), { rig with machine := { rig.machine with
      memory := rig.machine.memory.overlay rig.machine.i.toNat
        (Machine.decimalDigits (rig.machine.v.get (Word.x w))) } }) := by
  apply execute_of_exec hhooks hop (by decide)
  exact Machine.write_eq_ok_iff.mpr ⟨hfits, rfl⟩

theorem execute_storeRegisters (hhooks : rig.hooks = .empty)
    (hop : Opcode.decode w = .ok .storeRegisters)
    (hfits : rig.machine.i.toNat + ((Word.x w).val + 1) ≤ Layout.memorySize) :
    rig.execute w = (.ok (), { rig with machine := { rig.machine with
      memory := rig.machine.memory.overlay rig.machine.i.toNat
        (rig.machine.v.upTo (Word.x w)) } }) := by
  apply execute_of_exec hhooks hop (by decide)
  refine Machine.write_eq_ok_iff.mpr ⟨?_, rfl⟩
  rwa [Registers.length_upTo]

theorem execute_loadRegisters (hhooks : rig.hooks = .empty)
    (hop : Opcode.decode w = .ok .loadRegisters) {bytes : List UInt8}
    (hbytes : rig.machine.memory.read rig.machine.i.toNat ((Word.x w).val + 1) = .ok bytes) :
    rig.execute w = (.ok (), { rig with machine := { rig.machine with
      v := rig.machine.v.load bytes } }) := by
  apply execute_of_exec hhooks hop (by decide)
  exact Machine.exec_loadRegisters_eq_ok_iff.mpr ⟨bytes, hbytes, rfl⟩

end Rig

/-! ## What a run writes -/

namespace Machine

/-- The next step writes so many bytes from an address on. -/
inductive Writes (m : Machine) : Nat → Nat → Prop
  | digits {w : UInt16} (hnext : m.Upcoming w .storeDecimal)
    (hfits : m.i.toNat + 3 ≤ Layout.memorySize) : Writes m m.i.toNat 3
  | registers {w : UInt16} (hnext : m.Upcoming w .storeRegisters)
    (hfits : m.i.toNat + ((Word.x w).val + 1) ≤ Layout.memorySize) :
    Writes m m.i.toNat ((Word.x w).val + 1)

theorem Writes.from_index {m : Machine} {addr len : Nat} (h : m.Writes addr len) :
    addr = m.i.toNat ∧ (m.opcode? = some .storeDecimal ∨ m.opcode? = some .storeRegisters) := by
  cases h with
  | digits hnext => exact ⟨rfl, .inl hnext.opcode?_eq⟩
  | registers hnext => exact ⟨rfl, .inr hnext.opcode?_eq⟩

/-- A step keeps the cells that it does not write. -/
theorem cells_step (m : Machine) (roll : UInt8) {j : Nat} (hj : j < Layout.memorySize)
    (hout : ∀ addr len, m.Writes addr len → j < addr ∨ addr + len ≤ j) :
    (m.step roll).2.memory.cells[j] = m.memory.cells[j] := by
  have hend := m.step_end roll
  generalize m.step roll = outcome at hend
  cases hend with
  | outside | unknown | failed => rfl
  | @done w op next hnext hexec =>
    have hmemory : next.memory = (Instr.ofOpcode w op).nextMemory m.fetched :=
      (exec_leaves hexec).memory
    simp only [hmemory]
    cases op with
    | storeDecimal =>
      obtain ⟨hfits, -⟩ := write_eq_ok_iff.mp hexec
      exact Memory.cells_overlay_outside _ hj (hout _ _ (.digits hnext hfits))
    | storeRegisters =>
      obtain ⟨hfits, -⟩ := write_eq_ok_iff.mp hexec
      rw [Registers.length_upTo] at hfits
      apply Memory.cells_overlay_outside _ hj
      rw [Registers.length_upTo]
      exact hout _ _ (.registers hnext hfits)
    | _ => rfl

end Machine

namespace Rig

variable {σ : Type} {rig : Rig σ}

theorem cells_walk (hhooks : rig.hooks = .empty) {j : Nat} (hj : j < Layout.memorySize)
    {count : Nat} (hout : ∀ k < count, ∀ addr len, (rig.walk k).machine.Writes addr len →
      j < addr ∨ addr + len ≤ j) :
    (rig.walk count).machine.memory.cells[j] = rig.machine.memory.cells[j] := by
  induction count with
  | zero => rfl
  | succ count ih =>
    have hbefore := ih fun k hk => hout k (Nat.lt_succ_of_lt hk)
    have hstep := Machine.cells_step _ (rig.walk count).dice.top hj (hout count (Nat.lt_succ_self _))
    rw [← machine_step (hooks_walk hhooks count)] at hstep
    exact hstep.trans hbefore

/-- What can be read from a range lasts as long as nothing that is written meets it. -/
theorem read_walk (hhooks : rig.hooks = .empty) {start size count : Nat}
    (hout : ∀ k < count, ∀ addr len, (rig.walk k).machine.Writes addr len →
      addr + len ≤ start ∨ start + size ≤ addr) :
    (rig.walk count).machine.memory.read start size = rig.machine.memory.read start size := by
  apply Memory.read_congr
  intro j hj hstart hend
  apply cells_walk hhooks hj
  intro k hk addr len hwrites
  have := hout k hk addr len hwrites
  omega

/-! ## Digits of a register -/

/-- After the digits of a register were stored, a variable at their place reads what the register
held, and goes on to do so whatever runs, unless the digits are written over. -/
structure StoresDigits (w : UInt16) (rig after : Rig σ) : Prop where
  reads : (⟨.decimal, rig.machine.i.toUInt64⟩ : Variable).read after.machine =
    .ok (rig.machine.v.get (Word.x w)).toUInt32
  digits : ∀ k < 3, ∃ digit : UInt8,
    after.machine.memory.cells[rig.machine.i.toNat + k]? = some digit ∧ digit ≤ 9
  elsewhere : ∀ (j : Nat) (hj : j < Layout.memorySize),
    j < rig.machine.i.toNat ∨ rig.machine.i.toNat + 3 ≤ j →
      after.machine.memory.cells[j] = rig.machine.memory.cells[j]
  rest : ∃ memory, after = { rig with machine := { rig.machine with memory } }
  lasts : ∀ count, (∀ k < count, ∀ addr len, (after.walk k).machine.Writes addr len →
      addr + len ≤ rig.machine.i.toNat ∨ rig.machine.i.toNat + 3 ≤ addr) →
    (⟨.decimal, rig.machine.i.toUInt64⟩ : Variable).read (after.walk count).machine =
      .ok (rig.machine.v.get (Word.x w)).toUInt32

theorem digits_last {w : UInt16} (hop : Opcode.decode w = .ok .storeDecimal)
    (hhooks : rig.hooks = .empty) (hfits : rig.machine.i.toNat + 3 ≤ Layout.memorySize) :
    (rig.execute w).1 = .ok () ∧ StoresDigits w rig (rig.execute w).2 := by
  rw [execute_storeDecimal hhooks hop hfits]
  refine ⟨rfl, ?_⟩
  have hread : (rig.machine.memory.overlay rig.machine.i.toNat
      (Machine.decimalDigits (rig.machine.v.get (Word.x w)))).read rig.machine.i.toNat 3 =
        .ok (Machine.decimalDigits (rig.machine.v.get (Word.x w))) :=
    Memory.read_overlay rig.machine.memory hfits
  obtain ⟨-, -, hcells⟩ := Memory.read_eq_ok_iff.mp hread
  -- The variable is read through the bytes of its range alone.
  have hreads : ∀ m : Machine, m.memory.read rig.machine.i.toNat 3 =
      .ok (Machine.decimalDigits (rig.machine.v.get (Word.x w))) →
      (⟨.decimal, rig.machine.i.toUInt64⟩ : Variable).read m =
        .ok (rig.machine.v.get (Word.x w)).toUInt32 := by
    intro m hm
    rw [Variable.read, UInt16.toNat_toUInt64, hm, Except.map, Variable.ofDigits_decimalDigits]
  constructor
  · exact hreads _ hread
  · intro k hk
    refine ⟨(Machine.decimalDigits (rig.machine.v.get (Word.x w)))[k], ?_, ?_⟩
    · rw [← hcells k hk]
      exact List.getElem?_eq_getElem hk
    · exact Machine.digit_le (List.getElem_mem hk)
  · intro j hj hout
    exact Memory.cells_overlay_outside _ hj hout
  · exact ⟨_, rfl⟩
  · intro count hout
    apply hreads
    rw [read_walk (by exact hhooks) hout]
    exact hread

/-- The program stores the digits of another register right behind. -/
def scoring : Rig Unit :=
  { powerOn ⟨fun _ => 0, 0⟩ () (.empty .off) with
    machine := { Machine.powerOn.setV Reg.flag 254 with
      memory := Memory.zero.overlay Layout.programStart [0xa3, 0x03, 0xf1, 0x33, 0x6f, 0x05]
      i := 0x300 } }

theorem scoring_lasts : Opcode.decode 0xff33 = .ok .storeDecimal ∧ scoring.hooks = .empty ∧
    scoring.machine.i.toNat + 3 ≤ Layout.memorySize ∧ (scoring.execute 0xff33).1 = .ok () ∧
    ((scoring.execute 0xff33).2.walk 3).machine.v.get Reg.flag = 5 ∧
    (⟨.decimal, 0x300⟩ : Variable).read ((scoring.execute 0xff33).2.walk 3).machine = .ok 254 := by
  have hfits : scoring.machine.i.toNat + 3 ≤ Layout.memorySize := by decide
  obtain ⟨hdone, hstores⟩ := digits_last (w := 0xff33) rfl rfl hfits
  have hspared : ∀ k < 3, ∀ addr len,
      ((scoring.execute 0xff33).2.walk k).machine.Writes addr len →
        addr + len ≤ scoring.machine.i.toNat ∨ scoring.machine.i.toNat + 3 ≤ addr := by
    intro k hk addr len hwrites
    have hstarts : ∀ k < 3,
        ((scoring.execute 0xff33).2.walk k).machine.opcode? = some .loadIndex ∨
          scoring.machine.i.toNat + 3 ≤ ((scoring.execute 0xff33).2.walk k).machine.i.toNat := by
      decide +kernel
    obtain ⟨rfl, hop⟩ := hwrites.from_index
    obtain hindex | hbehind := hstarts k hk
    · simp [hindex] at hop
    · exact .inr hbehind
  exact ⟨rfl, rfl, hfits, hdone, by decide +kernel, hstores.lasts 3 hspared⟩

/-! ## Registers that are saved and put back -/

/-- What comes of registers that were saved on one rig and put back on another, which has the
memory of the first. -/
structure PutsBack (x : Reg) (rig other after : Rig σ) : Prop where
  saved : ∀ r ≤ x, after.machine.v.get r = rig.machine.v.get r
  above : ∀ r, x < r → after.machine.v.get r = other.machine.v.get r
  memory : ∀ (j : Nat) (hj : j < Layout.memorySize),
    j < rig.machine.i.toNat ∨ rig.machine.i.toNat + x < j →
      after.machine.memory.cells[j] = rig.machine.memory.cells[j]
  rest : ∃ v, after = { other with machine := { other.machine with v } }

variable {store load : UInt16} {x : Reg}

theorem putsBack_of_saved (hstore : Opcode.decode store = .ok .storeRegisters)
    (hload : Opcode.decode load = .ok .loadRegisters) (hx : Word.x store = x)
    (hx' : Word.x load = x) (hhooks : rig.hooks = .empty)
    (hfits : rig.machine.i.toNat + (x + 1) ≤ Layout.memorySize) {other : Rig σ}
    (hother : other.hooks = .empty)
    (hmemory : other.machine.memory = (rig.execute store).2.machine.memory)
    (hi : other.machine.i = (rig.execute store).2.machine.i) :
    (other.execute load).1 = .ok () ∧ PutsBack x rig other (other.execute load).2 := by
  subst hx
  rw [execute_storeRegisters hhooks hstore hfits] at hmemory hi
  have hread : other.machine.memory.read other.machine.i.toNat ((Word.x load).val + 1) =
      .ok (rig.machine.v.upTo (Word.x store)) := by
    rw [hmemory, hi, hx', ← Registers.length_upTo rig.machine.v]
    apply Memory.read_overlay
    rwa [Registers.length_upTo]
  rw [execute_loadRegisters hother hload hread]
  refine ⟨rfl, ?_⟩
  constructor
  · intro r hr
    exact (Registers.get_load_upTo _ _ _ _).trans (if_pos hr)
  · intro r hr
    exact (Registers.get_load_upTo _ _ _ _).trans (if_neg (Fin.not_le.mpr hr))
  · intro j hj hout
    simp only [hmemory]
    apply Memory.cells_overlay_outside _ hj
    rw [Registers.length_upTo]
    omega
  · exact ⟨_, rfl⟩

/-- Storing what was loaded from the same place leaves memory as it is. -/
theorem memory_load_store (hstore : Opcode.decode store = .ok .storeRegisters)
    (hload : Opcode.decode load = .ok .loadRegisters) (hx : Word.x store = x)
    (hx' : Word.x load = x) (hhooks : rig.hooks = .empty)
    (hfits : rig.machine.i.toNat + (x + 1) ≤ Layout.memorySize) :
    (rig.execute load).1 = .ok () ∧ ((rig.execute load).2.execute store).1 = .ok () ∧
      ((rig.execute load).2.execute store).2.machine.memory = rig.machine.memory := by
  subst hx
  obtain ⟨bytes, hread⟩ : ∃ bytes,
      rig.machine.memory.read rig.machine.i.toNat ((Word.x load).val + 1) = .ok bytes :=
    ⟨_, (Memory.read_eq _ _ _).trans (dif_pos (hx' ▸ hfits))⟩
  have hlength := Memory.length_of_read hread
  rw [hx'] at hlength
  let loaded : Rig σ :=
    { rig with machine := { rig.machine with v := rig.machine.v.load bytes } }
  have hloaded : rig.execute load = (.ok (), loaded) := execute_loadRegisters hhooks hload hread
  have hplain : loaded.hooks = .empty := hhooks
  have hstored := execute_storeRegisters hplain hstore hfits
  rw [hloaded, hstored]
  refine ⟨rfl, rfl, ?_⟩
  have hblock : loaded.machine.v.upTo (Word.x store) = bytes := Registers.upTo_load _ hlength
  rw [hblock]
  exact Memory.overlay_of_read hread

/-- Registers that were saved can be put back over whatever the registers hold by then, and saving
what was put back changes no byte. A block that does not lie inside memory is not moved at all. -/
theorem registers_restored (hstore : Opcode.decode store = .ok .storeRegisters)
    (hload : Opcode.decode load = .ok .loadRegisters) (hx : Word.x store = x)
    (hx' : Word.x load = x) (hhooks : rig.hooks = .empty) :
    (rig.machine.i.toNat + x + 1 ≤ Layout.memorySize →
      (rig.execute store).1 = .ok () ∧
      (∃ memory, (rig.execute store).2 = { rig with machine := { rig.machine with memory } }) ∧
      (∀ other : Rig σ, other.hooks = .empty →
        other.machine.memory = (rig.execute store).2.machine.memory →
        other.machine.i = (rig.execute store).2.machine.i →
          (other.execute load).1 = .ok () ∧ PutsBack x rig other (other.execute load).2) ∧
      (rig.execute load).1 = .ok () ∧ ((rig.execute load).2.execute store).1 = .ok () ∧
      ((rig.execute load).2.execute store).2.machine.memory = rig.machine.memory) ∧
    (Layout.memorySize < rig.machine.i.toNat + x + 1 →
      rig.execute store = (.error (.outOfBounds rig.machine.i.toNat (x + 1)), rig) ∧
      rig.execute load = (.error (.outOfBounds rig.machine.i.toNat (x + 1)), rig)) := by
  constructor
  · intro hfits
    have hloaded := memory_load_store hstore hload hx hx' hhooks hfits
    refine ⟨?_, ?_, ?_, hloaded⟩
    · rw [execute_storeRegisters hhooks hstore (hx ▸ hfits)]
    · rw [execute_storeRegisters hhooks hstore (hx ▸ hfits)]
      exact ⟨_, rfl⟩
    · intro other hother hmemory hi
      exact putsBack_of_saved hstore hload hx hx' hhooks hfits hother hmemory hi
  · intro hend
    have hfault : ∀ w op, op = .storeRegisters ∨ op = .loadRegisters → Word.x w = x →
        (Instr.ofOpcode w op).fault? rig.machine =
          some (.outOfBounds rig.machine.i.toNat (x + 1)) := by
      rintro w op (rfl | rfl) rfl
      · exact if_pos hend
      · exact if_pos hend
    exact ⟨execute_of_fault hhooks hstore (hfault _ _ (.inl rfl) hx),
      execute_of_fault hhooks hload (hfault _ _ (.inr rfl) hx')⟩

/-- All sixteen registers fit between `ff0` and the end of memory. -/
def nearEnd (i : UInt16) : Rig Unit :=
  { powerOn ⟨fun _ => 0, 0⟩ () (.empty .off) with
    machine := { Machine.powerOn.setV Reg.flag 7 with i } }

def cleared : Rig Unit :=
  { ((nearEnd 0xff0).execute 0xff55).2 with
    machine := { ((nearEnd 0xff0).execute 0xff55).2.machine with v := .zero } }

theorem flag_put_back : Opcode.decode 0xff55 = .ok .storeRegisters ∧
    Opcode.decode 0xff65 = .ok .loadRegisters ∧ Word.x 0xff55 = 15 ∧ Word.x 0xff65 = 15 ∧
    (nearEnd 0xff0).hooks = .empty ∧ 0xff0 + 15 + 1 ≤ Layout.memorySize ∧
    cleared.machine.v.get 15 = 0 ∧ (cleared.execute 0xff65).1 = .ok () ∧
    (cleared.execute 0xff65).2.machine.v.get 15 = 7 ∧ Layout.memorySize < 0xff1 + 15 + 1 ∧
    (nearEnd 0xff1).execute 0xff55 = (.error (.outOfBounds 0xff1 16), nearEnd 0xff1) := by
  have hstore : Opcode.decode 0xff55 = .ok .storeRegisters := rfl
  have hload : Opcode.decode 0xff65 = .ok .loadRegisters := rfl
  have hblock : ∀ i, (nearEnd i).hooks = .empty := fun _ => rfl
  obtain ⟨hfits, -⟩ := registers_restored (x := 15) hstore hload rfl rfl (hblock 0xff0)
  obtain ⟨-, hend⟩ := registers_restored (x := 15) hstore hload rfl rfl (hblock 0xff1)
  obtain ⟨-, -, hback, -⟩ := hfits (by decide)
  obtain ⟨hdone, hputsBack⟩ := hback cleared rfl rfl rfl
  exact ⟨hstore, hload, rfl, rfl, hblock _, by decide, rfl, hdone,
    hputsBack.saved 15 (Nat.le_refl _), by decide, (hend (by decide)).1⟩

end Rig

end Chip8
