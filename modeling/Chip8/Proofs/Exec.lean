import Chip8.Instr.Exec

/-! # What an instruction can do

Each fallible instruction succeeds exactly when its guard holds (`Instr.fault?`), and what a
successful one leaves is said here field by field: the program counter and the index register in
unbounded numbers, the call stack by its operation.
-/

namespace Chip8

/-! ## Sequences that can fail -/

theorem bind_eq_ok {α β : Type} {first : Except Error α} {next : α → Except Error β} {result : β} :
    (first >>= next) = .ok result ↔ ∃ value, first = .ok value ∧ next value = .ok result := by
  cases first with
  | error e => simp [bind, Except.bind]
  | ok value => simp [bind, Except.bind]

theorem bind_eq_error {α β : Type} {first : Except Error α} {next : α → Except Error β}
    {e : Error} : (first >>= next) = .error e ↔
      first = .error e ∨ ∃ value, first = .ok value ∧ next value = .error e := by
  cases first with
  | error other => simp [bind, Except.bind]
  | ok value => simp [bind, Except.bind]

namespace Memory

theorem read_eq_ok_iff {m : Memory} {addr len : Nat} {bytes : List UInt8} :
    m.read addr len = .ok bytes ↔ addr + len ≤ Layout.memorySize ∧ bytes.length = len ∧
      ∀ k, k < len → bytes[k]? = m.cells[addr + k]? := by
  rw [read_eq]
  split
  case isTrue h =>
    rw [Except.ok.injEq]
    constructor
    · rintro rfl
      refine ⟨h, List.length_ofFn, ?_⟩
      intro k hk
      have hcell : addr + k < Layout.memorySize := by omega
      simp [hk, hcell]
    · rintro ⟨-, hlength, hbytes⟩
      apply List.ext_getElem?
      intro k
      obtain hk | hk := Nat.lt_or_ge k len
      · have hcell : addr + k < Layout.memorySize := by omega
        rw [hbytes k hk]
        simp [hk, hcell]
      · have hout : bytes.length ≤ k := by omega
        simp [Nat.not_lt.mpr hk, hout]
  case isFalse h => simp [h]

theorem length_of_read {m : Memory} {addr len : Nat} {bytes : List UInt8}
    (h : m.read addr len = .ok bytes) : bytes.length = len := (read_eq_ok_iff.mp h).2.1

/-- The rows of a sprite that is read for drawing are numbered without wrapping. -/
theorem rows_of_read {m : Memory} {addr : Nat} {rows : Fin 16} {sprite : List UInt8} (y : UInt8)
    (h : m.read addr rows = .ok sprite) :
    y.toUInt64.toNat + sprite.length < UInt64.size := by
  have hy := y.toNat_lt
  have hlength := length_of_read h
  rw [UInt8.toNat_toUInt64, UInt64.size]
  omega

theorem length_lt_of_read {m : Memory} {addr : Nat} {rows : Fin 16} {sprite : List UInt8}
    (h : m.read addr rows = .ok sprite) : sprite.length < UInt64.size :=
  Nat.lt_of_le_of_lt (Nat.le_add_left _ _) (rows_of_read 0 h)

theorem read_eq_error_iff {m : Memory} {addr len : Nat} {e : Error} :
    m.read addr len = .error e ↔
      Layout.memorySize < addr + len ∧ Error.outOfBounds addr len = e := by
  rw [read_eq]
  split
  case isTrue h => simp [Nat.not_lt.mpr h]
  case isFalse h => simp [Nat.not_le.mp h]

theorem write_eq_ok_iff {m next : Memory} {addr : Nat} {data : List UInt8} :
    m.write addr data = .ok next ↔
      addr + data.length ≤ Layout.memorySize ∧ next = m.overlay addr data := by
  rw [write_eq]
  split
  case isTrue h => simp [h, eq_comm]
  case isFalse h => simp [h]

theorem write_eq_error_iff {m : Memory} {addr : Nat} {data : List UInt8} {e : Error} :
    m.write addr data = .error e ↔
      Layout.memorySize < addr + data.length ∧ Error.outOfBounds addr data.length = e := by
  rw [write_eq]
  split
  case isTrue h => simp [Nat.not_lt.mpr h]
  case isFalse h => simp [Nat.not_le.mp h]

end Memory

namespace Keypad

theorem line_eq_error_iff {k : Keypad} {key : Nat} {e : Error} :
    k.line key = .error e ↔ Layout.keyCount ≤ key ∧ Error.invalidKey key = e := by
  unfold line
  split
  case isTrue h => simp [Nat.not_le.mpr h]
  case isFalse h => simp [Nat.not_lt.mp h]

theorem getElem?_lines_of_line {k : Keypad} {key : Nat} {down : Bool} (h : k.line key = .ok down) :
    k.lines[key]? = some down := by
  unfold line at h
  split at h
  case isTrue hkey => simpa [hkey] using h
  case isFalse => cases h

end Keypad

namespace CallStack

theorem push?_eq_none_iff {s : CallStack} {addr : UInt16} :
    s.push? addr = none ↔ s.depth = Layout.stackDepth := by
  have hdepth := s.depth_le
  unfold push?
  split
  case isTrue h => simp; omega
  case isFalse h => simp; omega

theorem pop?_eq_none_iff {s : CallStack} : s.pop? = none ↔ s.depth = 0 := by
  obtain ⟨slots, depth, hdepth⟩ := s
  cases depth with
  | zero => simp [pop?]
  | succ depth => simp [pop?]

end CallStack

namespace Registers

theorem length_upTo (v : Registers) (r : Reg) : (v.upTo r).length = r.val + 1 := by
  rw [upTo, List.length_take, Vector.length_toList]
  exact Nat.min_eq_left r.isLt

theorem getD_upTo (v : Registers) {r : Reg} {k : Nat} (hk : k ≤ r.val) :
    (v.upTo r).getD k 0 = v.cells[k]?.getD 0 := by
  rw [upTo, List.getD_eq_getElem?_getD, List.getElem?_take_of_lt (Nat.lt_succ_of_le hk),
    Vector.getElem?_toList]

end Registers

namespace Instr

/-- Why an instruction fails, if it does. -/
def fault? (m : Machine) : Instr → Option Error
  | .ret => if m.stack.depth = 0 then some (.stackUnderflow m.pc) else none
  | .call _ => if m.stack.depth = Layout.stackDepth then some (.stackOverflow m.pc) else none
  | .skipKeyDown x | .skipKeyUp x =>
    let key := (m.v.get x).toNat
    if Layout.keyCount ≤ key then some (.invalidKey key) else none
  | .draw _ _ rows => outside rows
  | .storeDecimal _ => outside 3
  | .storeRegisters x | .loadRegisters x => outside (x + 1)
  | _ => none
where
  outside (len : Nat) : Option Error :=
    if Layout.memorySize < m.i.toNat + len then some (.outOfBounds m.i.toNat len) else none

/-- Where an instruction leaves the program counter, in numbers that never wrap. -/
def nextPc (m : Machine) : Instr → Int
  | .ret =>
    match m.stack.pop? with
    | some (addr, _) => addr.toNat
    | none => m.pc.toNat
  | .jump addr | .call addr => addr.val
  | .jumpOffset addr => addr.val + (m.v.get Reg.first).toNat
  | .skipEqualByte x byte => past (m.v.get x = byte)
  | .skipUnequalByte x byte => past (m.v.get x ≠ byte)
  | .skipEqual x y => past (m.v.get x = m.v.get y)
  | .skipUnequal x y => past (m.v.get x ≠ m.v.get y)
  | .skipKeyDown x => past (m.keypad.lines[(m.v.get x).toNat]? = some true)
  | .skipKeyUp x => past (m.keypad.lines[(m.v.get x).toNat]? = some false)
  | .waitKey _ => if m.keypad.lowest? = none then m.pc.toNat - 2 else m.pc.toNat
  | _ => m.pc.toNat
where
  past (condition : Prop) [Decidable condition] : Int :=
    if condition then m.pc.toNat + 2 else m.pc.toNat

/-- Where an instruction leaves the index register, in numbers that never wrap. -/
def nextIndex (m : Machine) : Instr → Nat
  | .loadIndex addr => addr.val
  | .addIndex x => m.i.toNat + (m.v.get x).toNat
  | .glyph x => Layout.fontStart + Layout.glyphSize * (m.v.get x).toNat
  | _ => m.i.toNat

def nextStack (m : Machine) : Instr → CallStack
  | .ret =>
    match m.stack.pop? with
    | some (_, stack) => stack
    | none => m.stack
  | .call _ => (m.stack.push? m.pc).getD m.stack
  | _ => m.stack

def nextMemory (m : Machine) : Instr → Memory
  | .storeDecimal x => m.memory.overlay m.i.toNat (Machine.decimalDigits (m.v.get x))
  | .storeRegisters x => m.memory.overlay m.i.toNat (m.v.upTo x)
  | _ => m.memory

def nextDisplay (m : Machine) : Instr → Display
  | .clearScreen => m.display.clear
  | .draw x y rows =>
    match m.memory.read m.i.toNat rows with
    | .ok sprite => (m.display.drawSprite (m.v.get x).toUInt64 (m.v.get y).toUInt64 sprite).2
    | .error _ => m.display
  | _ => m.display

def nextDelay (m : Machine) : Instr → UInt8
  | .setDelay x => m.v.get x
  | _ => m.delay

def nextSound (m : Machine) : Instr → UInt8
  | .setSound x => m.v.get x
  | _ => m.sound

end Instr

namespace Machine

theorem skipIf_eq (m : Machine) (condition : Bool) :
    m.skipIf condition =
      { m with pc := if condition then m.pc + UInt16.ofNat Layout.instructionSize else m.pc } := by
  cases condition <;> rfl

theorem write_eq_ok_iff {m next : Machine} {addr : Nat} {data : List UInt8} :
    m.write addr data = .ok next ↔ addr + data.length ≤ Layout.memorySize ∧
      next = { m with memory := m.memory.overlay addr data } := by
  unfold write
  rw [bind_eq_ok]
  constructor
  · rintro ⟨memory, hmemory, hnext⟩
    obtain ⟨hrange, rfl⟩ := Memory.write_eq_ok_iff.mp hmemory
    cases hnext
    exact ⟨hrange, rfl⟩
  · rintro ⟨hrange, rfl⟩
    exact ⟨_, Memory.write_eq_ok_iff.mpr ⟨hrange, rfl⟩, rfl⟩

theorem write_eq_error_iff {m : Machine} {addr : Nat} {data : List UInt8} {e : Error} :
    m.write addr data = .error e ↔
      Layout.memorySize < addr + data.length ∧ Error.outOfBounds addr data.length = e := by
  unfold write
  rw [bind_eq_error, Memory.write_eq_error_iff]
  simp [pure, Except.pure]

theorem exec_eq_error_iff {m : Machine} {roll : UInt8} {instr : Instr} {e : Error} :
    m.exec roll instr = .error e ↔ instr.fault? m = some e := by
  cases instr with
  | ret =>
    simp only [exec, Instr.fault?]
    cases hpop : m.stack.pop? with
    | none => simp [CallStack.pop?_eq_none_iff.mp hpop]
    | some top =>
      have hdepth : m.stack.depth ≠ 0 := fun h => by simp [CallStack.pop?_eq_none_iff.mpr h] at hpop
      simp [hdepth]
  | call addr =>
    simp only [exec, Instr.fault?]
    cases hpush : m.stack.push? m.pc with
    | none => simp [CallStack.push?_eq_none_iff.mp hpush]
    | some stack =>
      have hdepth : m.stack.depth ≠ Layout.stackDepth := fun h => by
        simp [CallStack.push?_eq_none_iff.mpr h] at hpush
      simp [hdepth]
  | skipKeyDown x =>
    simp [exec, Instr.fault?, bind_eq_error, Keypad.line_eq_error_iff, pure, Except.pure]
  | skipKeyUp x =>
    simp [exec, Instr.fault?, bind_eq_error, Keypad.line_eq_error_iff, pure, Except.pure]
  | draw x y rows =>
    simp [exec, Instr.fault?, Instr.fault?.outside, bind_eq_error, Memory.read_eq_error_iff, pure,
      Except.pure]
  | storeDecimal x =>
    simp [exec, Instr.fault?, Instr.fault?.outside, write_eq_error_iff, decimalDigits]
  | storeRegisters x =>
    simp [exec, Instr.fault?, Instr.fault?.outside, write_eq_error_iff, Registers.length_upTo]
  | loadRegisters x =>
    simp [exec, Instr.fault?, Instr.fault?.outside, bind_eq_error, Memory.read_eq_error_iff, pure,
      Except.pure]
  | waitKey x =>
    simp only [exec, Instr.fault?]
    cases m.keypad.lowest? <;> simp
  | _ => simp [exec, Instr.fault?]

theorem exec_ne_unknownOpcode (m : Machine) (roll : UInt8) (instr : Instr) (word : UInt16) :
    m.exec roll instr ≠ .error (.unknownOpcode word) := by
  rw [Ne, exec_eq_error_iff]
  cases instr <;> simp [Instr.fault?, Instr.fault?.outside]

variable {m next : Machine} {roll : UInt8}

theorem exec_draw_eq_ok_iff {x y : Reg} {rows : Fin 16} :
    m.exec roll (.draw x y rows) = .ok next ↔ ∃ sprite,
      m.memory.read m.i.toNat rows = .ok sprite ∧
      (let drawn := m.display.drawSprite (m.v.get x).toUInt64 (m.v.get y).toUInt64 sprite;
        { m with display := drawn.2 }.setV Reg.flag drawn.1.toUInt8) = next := by
  simp only [exec, bind_eq_ok, pure, Except.pure, Except.ok.injEq]

theorem exec_skipKeyDown_eq_ok_iff {x : Reg} : m.exec roll (.skipKeyDown x) = .ok next ↔
    ∃ down, m.keypad.line (m.v.get x).toNat = .ok down ∧ m.skipIf down = next := by
  simp only [exec, bind_eq_ok, pure, Except.pure, Except.ok.injEq]

theorem exec_skipKeyUp_eq_ok_iff {x : Reg} : m.exec roll (.skipKeyUp x) = .ok next ↔
    ∃ down, m.keypad.line (m.v.get x).toNat = .ok down ∧ m.skipIf (!down) = next := by
  simp only [exec, bind_eq_ok, pure, Except.pure, Except.ok.injEq]

theorem exec_loadRegisters_eq_ok_iff {x : Reg} : m.exec roll (.loadRegisters x) = .ok next ↔
    ∃ bytes, m.memory.read m.i.toNat (x + 1) = .ok bytes ∧
      { m with v := m.v.load bytes } = next := by
  simp only [exec, bind_eq_ok, pure, Except.pure, Except.ok.injEq]

theorem toNat_pc_skipIf (m : Machine) (condition : Bool) :
    ((m.skipIf condition).pc.toNat : Int) =
      (if condition then (m.pc.toNat : Int) + 2 else m.pc.toNat) % 0x10000 := by
  have hpc := m.pc.toNat_lt
  cases condition with
  | false => simp [skipIf]; omega
  | true => simp [skipIf, UInt16.toNat_add]

/-- What a successful instruction leaves in every field but the registers. -/
structure Leaves (m : Machine) (instr : Instr) (next : Machine) : Prop where
  pc : (next.pc.toNat : Int) = instr.nextPc m % 0x10000
  index : next.i.toNat = instr.nextIndex m % 0x10000
  stack : next.stack = instr.nextStack m
  memory : next.memory = instr.nextMemory m
  display : next.display = instr.nextDisplay m
  delay : next.delay = instr.nextDelay m
  sound : next.sound = instr.nextSound m
  soundChanged : next.soundChanged = (m.soundChanged || (m.buzzer != next.buzzer))
  keypad : next.keypad = m.keypad

/-- Moving the program counter at most leaves all other fields. -/
theorem leaves_skipIf {instr : Instr} {condition : Bool}
    (hpc : instr.nextPc m = if condition then (m.pc.toNat : Int) + 2 else m.pc.toNat)
    (hindex : instr.nextIndex m = m.i.toNat) (hstack : instr.nextStack m = m.stack)
    (hmemory : instr.nextMemory m = m.memory) (hdisplay : instr.nextDisplay m = m.display)
    (hdelay : instr.nextDelay m = m.delay) (hsound : instr.nextSound m = m.sound) :
    Leaves m instr (m.skipIf condition) := by
  have hi : m.i.toNat % 0x10000 = m.i.toNat := Nat.mod_eq_of_lt m.i.toNat_lt
  refine ⟨by rw [toNat_pc_skipIf, hpc], ?_, ?_, ?_, ?_, ?_, ?_, ?_, ?_⟩
  all_goals simp [skipIf_eq, buzzer, *]

theorem exec_leaves {instr : Instr} (h : m.exec roll instr = .ok next) : Leaves m instr next := by
  have hpc : (m.pc.toNat : Int) = m.pc.toNat % 0x10000 := by
    have := m.pc.toNat_lt
    omega
  have hi : m.i.toNat = m.i.toNat % 0x10000 := (Nat.mod_eq_of_lt m.i.toNat_lt).symm
  have hquiet : m.soundChanged = (m.soundChanged || (m.buzzer != m.buzzer)) := by simp
  cases instr with
  | ret =>
    simp only [exec] at h
    cases hpop : m.stack.pop? with
    | none => simp [hpop] at h
    | some top =>
      have haddr := top.1.toNat_lt
      simp only [hpop, Except.ok.injEq] at h
      subst h
      refine ⟨?_, hi, by simp [Instr.nextStack, hpop], rfl, rfl, rfl, rfl, hquiet, rfl⟩
      simp only [Instr.nextPc, hpop]
      omega
  | call addr =>
    simp only [exec] at h
    cases hpush : m.stack.push? m.pc with
    | none => simp [hpush] at h
    | some stack =>
      simp only [hpush, Except.ok.injEq] at h
      subst h
      exact ⟨by simp [Instr.nextPc, jumpTo], hi, by simp [Instr.nextStack, hpush, jumpTo], rfl, rfl,
        rfl, rfl, hquiet, rfl⟩
  | jump addr | jumpOffset addr =>
    cases h
    exact ⟨by simp [Instr.nextPc, jumpTo], hi, rfl, rfl, rfl, rfl, rfl, hquiet, rfl⟩
  | skipEqualByte x _ | skipUnequalByte x _ | skipEqual x _ | skipUnequal x _ =>
    cases h
    exact leaves_skipIf (by simp [Instr.nextPc, Instr.nextPc.past]) rfl rfl rfl rfl rfl rfl
  | skipKeyDown x =>
    obtain ⟨down, hdown, rfl⟩ := exec_skipKeyDown_eq_ok_iff.mp h
    have hline := Keypad.getElem?_lines_of_line hdown
    exact leaves_skipIf (by simp [Instr.nextPc, Instr.nextPc.past, hline]) rfl rfl rfl rfl rfl rfl
  | skipKeyUp x =>
    obtain ⟨down, hdown, rfl⟩ := exec_skipKeyUp_eq_ok_iff.mp h
    have hline := Keypad.getElem?_lines_of_line hdown
    exact leaves_skipIf (by simp [Instr.nextPc, Instr.nextPc.past, hline]) rfl rfl rfl rfl rfl rfl
  | waitKey x =>
    simp only [exec] at h
    cases hkey : m.keypad.lowest? with
    | none =>
      simp only [hkey, Except.ok.injEq] at h
      subst h
      refine ⟨?_, hi, rfl, rfl, rfl, rfl, rfl, hquiet, rfl⟩
      simp only [Instr.nextPc, hkey, if_true, UInt16.toNat_sub]
      simp [Layout.instructionSize]
      omega
    | some key =>
      simp only [hkey, Except.ok.injEq] at h
      subst h
      refine ⟨?_, hi, rfl, rfl, rfl, rfl, rfl, hquiet, rfl⟩
      simpa [Instr.nextPc, hkey, setV] using hpc
  | draw x y rows =>
    obtain ⟨sprite, hsprite, rfl⟩ := exec_draw_eq_ok_iff.mp h
    exact ⟨hpc, hi, rfl, rfl, by simp [Instr.nextDisplay, hsprite, setV], rfl, rfl, hquiet, rfl⟩
  | setSound x =>
    cases h
    exact ⟨hpc, hi, rfl, rfl, rfl, rfl, rfl, rfl, rfl⟩
  | storeDecimal x | storeRegisters x =>
    obtain ⟨-, rfl⟩ := write_eq_ok_iff.mp h
    exact ⟨hpc, hi, rfl, rfl, rfl, rfl, rfl, hquiet, rfl⟩
  | loadRegisters x =>
    obtain ⟨bytes, -, rfl⟩ := exec_loadRegisters_eq_ok_iff.mp h
    generalize m.v.load bytes = v
    exact ⟨hpc, hi, rfl, rfl, rfl, rfl, rfl, hquiet, rfl⟩
  | loadIndex addr | addIndex x | glyph x =>
    cases h
    exact ⟨hpc, by simp [Instr.nextIndex, setV], rfl, rfl, rfl, rfl, rfl, hquiet, rfl⟩
  | _ =>
    cases h
    exact ⟨hpc, hi, rfl, rfl, rfl, rfl, rfl, hquiet, rfl⟩

end Machine

end Chip8
