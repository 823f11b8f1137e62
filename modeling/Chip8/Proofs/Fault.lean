import Chip8.Proofs.Step

/-! # When a step fails

A step without hooks fails for one of seven reasons or because it has reached a breakpoint. A word
that cannot be fetched leaves all as it was. Any other fault leaves the program counter past the
instruction and nothing else changed.
-/

namespace Chip8

def Error.isBreak : Error → Bool
  | .breakpointHit .. => true
  | _ => false

namespace Opcode

theorem decode_eq_ok_iff {w : UInt16} {op : Opcode} : decode w = .ok op ↔ decode? w = some op := by
  unfold decode
  cases decode? w <;> simp

theorem decode_eq_error_iff {w : UInt16} :
    decode w = .error (.unknownOpcode w) ↔ decode? w = none := by
  unfold decode
  cases decode? w <;> simp

end Opcode

theorem Word.toNat_ofBytes (high low : UInt8) :
    (ofBytes high low).toNat = 256 * high.toNat + low.toNat := by
  have hhigh := high.toNat_lt
  have hlow := low.toNat_lt
  simp only [ofBytes, UInt16.toNat_ofNat']
  omega

namespace Memory

theorem readWord_eq_error_iff {m : Memory} {addr : Nat} {e : Error} :
    m.readWord addr = .error e ↔ 0xffe < addr ∧ Error.outOfBounds addr 2 = e := by
  unfold readWord Layout.memorySize Layout.instructionSize
  split
  case isTrue h =>
    have hle : ¬ 0xffe < addr := by omega
    simp [hle]
  case isFalse h =>
    have hlt : 0xffe < addr := by omega
    simp [hlt]

theorem le_of_readWord {m : Memory} {addr : Nat} {w : UInt16} (h : m.readWord addr = .ok w) :
    addr ≤ 0xffe := by
  apply Nat.le_of_not_lt
  intro hlt
  rw [readWord_eq_error_iff.mpr ⟨hlt, rfl⟩] at h
  cases h

/-- The word at a place that data was laid over is the word there in the data. -/
theorem readWord_overlay_add (m : Memory) (addr : Nat) {k : Nat} {data : List UInt8}
    {high low : UInt8} (hhigh : data[k]? = some high) (hlow : data[k + 1]? = some low)
    (hin : addr + k + 1 < Layout.memorySize) :
    (m.overlay addr data).readWord (addr + k) = .ok (Word.ofBytes high low) := by
  obtain ⟨hk, rfl⟩ := List.getElem?_eq_some_iff.mp hhigh
  obtain ⟨hk', rfl⟩ := List.getElem?_eq_some_iff.mp hlow
  rw [readWord, dif_pos hin, cells_overlay, cells_overlay, dif_pos ⟨by omega, by omega⟩,
    dif_pos ⟨by omega, by omega⟩]
  simp only [Nat.add_sub_cancel_left, Nat.add_assoc]

theorem readWord_overlay (m : Memory) (addr : Nat) (high low : UInt8) (rest : List UInt8)
    (haddr : addr + 1 < Layout.memorySize) :
    (m.overlay addr (high :: low :: rest)).readWord addr = .ok (Word.ofBytes high low) :=
  readWord_overlay_add (k := 0) m addr rfl rfl haddr

end Memory

namespace Machine

structure Upcoming (m : Machine) (w : UInt16) (op : Opcode) : Prop where
  word : m.memory.readWord m.pc.toNat = .ok w
  opcode : Opcode.decode w = .ok op

/-- The errors of a step, breakpoints apart, each with its cause. -/
inductive Fault (m : Machine) : Error → Prop
  | outside (hpc : 0xffe < m.pc.toNat) : Fault m (.outOfBounds m.pc.toNat 2)
  | overflow {w : UInt16} (hnext : m.Upcoming w .call) (hfull : m.stack.depth = 16) :
    Fault m (.stackOverflow (m.pc + 2))
  | underflow {w : UInt16} (hnext : m.Upcoming w .ret) (hempty : m.stack.depth = 0) :
    Fault m (.stackUnderflow (m.pc + 2))
  | noKey {w : UInt16} {op : Opcode} (hnext : m.Upcoming w op)
    (hop : op = .skipKeyDown ∨ op = .skipKeyUp) (hkey : 16 ≤ (m.v.get (Word.x w)).toNat) :
    Fault m (.invalidKey (m.v.get (Word.x w)).toNat)
  | sprite {w : UInt16} (hnext : m.Upcoming w .draw)
    (hend : 4096 < m.i.toNat + (Word.n w).val) : Fault m (.outOfBounds m.i.toNat (Word.n w).val)
  | digits {w : UInt16} (hnext : m.Upcoming w .storeDecimal) (hend : 4096 < m.i.toNat + 3) :
    Fault m (.outOfBounds m.i.toNat 3)
  | registers {w : UInt16} {op : Opcode} (hnext : m.Upcoming w op)
    (hop : op = .storeRegisters ∨ op = .loadRegisters)
    (hend : 4096 < m.i.toNat + ((Word.x w).val + 1)) :
    Fault m (.outOfBounds m.i.toNat ((Word.x w).val + 1))

namespace Upcoming

variable {m : Machine} {w w' : UInt16} {op op' : Opcode}

theorem pc_le (h : m.Upcoming w op) : m.pc.toNat ≤ 0xffe := Memory.le_of_readWord h.word

theorem eq_of_eq (h : m.Upcoming w op) (h' : m.Upcoming w' op') : w = w' ∧ op = op' := by
  obtain ⟨hword, hop⟩ := h
  obtain ⟨hword', hop'⟩ := h'
  rw [hword] at hword'
  cases hword'
  rw [hop] at hop'
  cases hop'
  exact ⟨rfl, rfl⟩

theorem fault_of_fault? {e : Error} (h : m.Upcoming w op)
    (hfault : (Instr.ofOpcode w op).fault? m.fetched = some e) : m.Fault e := by
  cases op with
  | call =>
    obtain ⟨hfull, ⟨⟩⟩ := Option.ite_none_right_eq_some.mp hfault
    exact .overflow h hfull
  | ret =>
    obtain ⟨hempty, ⟨⟩⟩ := Option.ite_none_right_eq_some.mp hfault
    exact .underflow h hempty
  | skipKeyDown | skipKeyUp =>
    obtain ⟨hkey, ⟨⟩⟩ := Option.ite_none_right_eq_some.mp hfault
    exact .noKey h (by simp) hkey
  | draw =>
    obtain ⟨hend, ⟨⟩⟩ := Option.ite_none_right_eq_some.mp hfault
    exact .sprite h hend
  | storeDecimal =>
    obtain ⟨hend, ⟨⟩⟩ := Option.ite_none_right_eq_some.mp hfault
    exact .digits h hend
  | storeRegisters | loadRegisters =>
    obtain ⟨hend, ⟨⟩⟩ := Option.ite_none_right_eq_some.mp hfault
    exact .registers h (by simp) hend
  | _ => cases hfault

theorem fault?_of_fault {e : Error} (h : m.Upcoming w op) (hfault : m.Fault e) :
    (Instr.ofOpcode w op).fault? m.fetched = some e := by
  cases hfault with
  | outside hpc => exact absurd h.pc_le (Nat.not_le.mpr hpc)
  | overflow hnext hfull | underflow hnext hfull =>
    obtain ⟨rfl, rfl⟩ := hnext.eq_of_eq h
    exact if_pos hfull
  | noKey hnext hop hkey =>
    obtain ⟨rfl, rfl⟩ := hnext.eq_of_eq h
    obtain rfl | rfl := hop <;> exact if_pos hkey
  | sprite hnext hend | digits hnext hend =>
    obtain ⟨rfl, rfl⟩ := hnext.eq_of_eq h
    exact if_pos hend
  | registers hnext hop hend =>
    obtain ⟨rfl, rfl⟩ := hnext.eq_of_eq h
    obtain rfl | rfl := hop <;> exact if_pos hend

end Upcoming

variable {m : Machine} {roll : UInt8}

theorem toNat_pc_fetched (hpc : m.pc.toNat ≤ 0xffe) : m.fetched.pc.toNat = m.pc.toNat + 2 := by
  simp [fetched, UInt16.toNat_add, Layout.instructionSize]
  omega

theorem fetch_eq_error_iff {e : Error} :
    m.fetch = .error e ↔ 0xffe < m.pc.toNat ∧ Error.outOfBounds m.pc.toNat 2 = e := by
  unfold fetch
  rw [bind_eq_error, Memory.readWord_eq_error_iff]
  simp [pure, Except.pure]

theorem Fault.outside_or_upcoming {e : Error} (h : m.Fault e) :
    (0xffe < m.pc.toNat ∧ e = .outOfBounds m.pc.toNat 2) ∨ ∃ w op, m.Upcoming w op := by
  cases h with
  | outside hpc => exact .inl ⟨hpc, rfl⟩
  | overflow hnext | underflow hnext | noKey hnext | sprite hnext | digits hnext
  | registers hnext => exact .inr ⟨_, _, hnext⟩

/-- The ends of a step, each with what it answers and what it leaves. -/
inductive StepEnd (m : Machine) (roll : UInt8) : Outcome Machine → Prop
  | outside (hpc : 0xffe < m.pc.toNat) : StepEnd m roll (.error (.outOfBounds m.pc.toNat 2), m)
  | unknown {w : UInt16} (hword : m.memory.readWord m.pc.toNat = .ok w)
    (hop : Opcode.decode? w = none) : StepEnd m roll (.ok (), m.fetched)
  | done {w : UInt16} {op : Opcode} {next : Machine} (hnext : m.Upcoming w op)
    (hexec : m.fetched.exec roll (.ofOpcode w op) = .ok next) : StepEnd m roll (.ok (), next)
  | failed {w : UInt16} {op : Opcode} {e : Error} (hnext : m.Upcoming w op)
    (hexec : m.fetched.exec roll (.ofOpcode w op) = .error e) :
    StepEnd m roll (.error e, m.fetched)

theorem step_end (m : Machine) (roll : UInt8) : StepEnd m roll (m.step roll) := by
  unfold step
  cases hfetch : m.fetch with
  | error e =>
    obtain ⟨hpc, rfl⟩ := fetch_eq_error_iff.mp hfetch
    exact .outside hpc
  | ok result =>
    obtain ⟨w, next⟩ := result
    obtain ⟨hword, rfl⟩ := fetch_eq_ok_iff.mp hfetch
    cases hop : Opcode.decode? w with
    | none => simpa [Instr.decode?, hop] using StepEnd.unknown hword hop
    | some op =>
      have hnext : m.Upcoming w op := ⟨hword, Opcode.decode_eq_ok_iff.mpr hop⟩
      cases hexec : m.fetched.exec roll (.ofOpcode w op) with
      | ok next => simpa [Instr.decode?, hop, hexec] using StepEnd.done hnext hexec
      | error e => simpa [Instr.decode?, hop, hexec] using StepEnd.failed hnext hexec

theorem step_eq_error_iff {e : Error} : (m.step roll).1 = .error e ↔ m.Fault e := by
  have hend := m.step_end roll
  generalize m.step roll = outcome at hend
  constructor
  · intro he
    cases hend with
    | outside hpc =>
      cases he
      exact .outside hpc
    | unknown | done => cases he
    | failed hnext hexec =>
      cases he
      exact hnext.fault_of_fault? (exec_eq_error_iff.mp hexec)
  · intro hfault
    cases hend with
    | outside hpc =>
      obtain ⟨-, rfl⟩ | ⟨w, op, hnext⟩ := hfault.outside_or_upcoming
      · rfl
      · exact absurd hnext.pc_le (Nat.not_le.mpr hpc)
    | unknown hword hop =>
      obtain ⟨hpc, -⟩ | ⟨w, op, hnext⟩ := hfault.outside_or_upcoming
      · exact absurd (Memory.le_of_readWord hword) (Nat.not_le.mpr hpc)
      · obtain ⟨hword', hop'⟩ := hnext
        cases hword.symm.trans hword'
        cases hop.symm.trans (Opcode.decode_eq_ok_iff.mp hop')
    | done hnext hexec =>
      rw [exec_eq_error_iff.mpr (hnext.fault?_of_fault hfault)] at hexec
      cases hexec
    | failed hnext hexec =>
      rw [exec_eq_error_iff.mpr (hnext.fault?_of_fault hfault)] at hexec
      cases hexec
      rfl

theorem step_of_fault {e : Error} (hfault : m.Fault e) (hpc : m.pc.toNat ≤ 0xffe) :
    (m.step roll).2 = m.fetched := by
  have herror : (m.step roll).1 = .error e := step_eq_error_iff.mpr hfault
  have hend := m.step_end roll
  generalize m.step roll = outcome at hend herror
  cases hend with
  | outside hpc' => exact absurd hpc (Nat.not_le.mpr hpc')
  | unknown | done => cases herror
  | failed => rfl

theorem step_of_unknown {w : UInt16} (hword : m.memory.readWord m.pc.toNat = .ok w)
    (hop : Opcode.decode? w = none) : m.step roll = (.ok (), m.fetched) := by
  simp [step, fetch_eq_ok_iff.mpr ⟨hword, rfl⟩, Instr.decode?, hop]

end Machine

namespace Rig

variable {σ : Type}

/-- How the next step of a rig can fail, and what it leaves if it does. -/
structure Failures (rig : Rig σ) : Prop where
  fails : ∀ e, e.isBreak = false → (rig.step.1 = .error e ↔ rig.machine.Fault e)
  others : ∀ e, rig.step.1 = .error e → rig.machine.Fault e ∨
    rig.step.2.machine.pc ∈ rig.breakpoints ∧
      e = .breakpointHit rig.step.2.machine.pc (rig.step.2.wordAt rig.step.2.machine.pc)
  /-- Where nothing can be fetched nothing changes, however often it is tried. -/
  stuck : 0xffe < rig.machine.pc.toNat → ∀ count, rig.walk count = rig ∧
    (rig.walk count).step = (.error (.outOfBounds rig.machine.pc.toNat 2), rig)
  kept : ∀ e, rig.machine.Fault e → rig.machine.pc.toNat ≤ 0xffe →
    rig.step.2.machine = { rig.machine with pc := rig.machine.pc + 2 }
  unknown : ∀ w, rig.machine.memory.readWord rig.machine.pc.toNat = .ok w →
    Opcode.decode w = .error (.unknownOpcode w) →
    rig.step.2.machine = { rig.machine with pc := rig.machine.pc + 2 } ∧
      ∀ e, rig.step.1 = .error e → e.isBreak = true
  advanced : rig.machine.pc.toNat ≤ 0xffe →
    (rig.machine.pc + 2).toNat = rig.machine.pc.toNat + 2

theorem machine_step {rig : Rig σ} (hhooks : rig.hooks = .empty) :
    rig.step.2.machine = (rig.machine.step rig.dice.top).2 := by
  obtain ⟨result, journal, hstep⟩ := step_eq_stepped hhooks
  rw [hstep]
  rfl

theorem checkBreak_eq_error_iff {rig : Rig σ} {e : Error} : rig.checkBreak.1 = .error e ↔
    rig.machine.pc ∈ rig.breakpoints ∧
      e = .breakpointHit rig.machine.pc (rig.wordAt rig.machine.pc) := by
  simp only [checkBreak]
  split
  case isTrue h => simp [h, eq_comm]
  case isFalse h => simp [h]

theorem step_of_error {rig : Rig σ} (hhooks : rig.hooks = .empty) {e : Error}
    (h : (rig.machine.step rig.dice.top).1 = .error e) : rig.step.1 = .error e := by
  obtain ⟨journal, hstep⟩ := step_eq hhooks
  rw [hstep, h]
  rfl

theorem step_of_ok {rig : Rig σ} (hhooks : rig.hooks = .empty) {e : Error}
    (h : (rig.machine.step rig.dice.top).1 = .ok ()) : rig.step.1 = .error e ↔
      rig.step.2.machine.pc ∈ rig.breakpoints ∧
        e = .breakpointHit rig.step.2.machine.pc (rig.step.2.wordAt rig.step.2.machine.pc) := by
  obtain ⟨journal, hstep⟩ := step_eq hhooks
  rw [hstep, h, Outcome.ok_andThen, checkBreak_snd]
  exact checkBreak_eq_error_iff

theorem step_eq_error_cases {rig : Rig σ} (hhooks : rig.hooks = .empty) {e : Error}
    (h : rig.step.1 = .error e) : rig.machine.Fault e ∨
      rig.step.2.machine.pc ∈ rig.breakpoints ∧
        e = .breakpointHit rig.step.2.machine.pc (rig.step.2.wordAt rig.step.2.machine.pc) := by
  cases hresult : (rig.machine.step rig.dice.top).1 with
  | ok _ => exact .inr ((step_of_ok hhooks hresult).mp h)
  | error other =>
    rw [step_of_error hhooks hresult] at h
    cases h
    exact .inl (Machine.step_eq_error_iff.mp hresult)

theorem step_of_outside {rig : Rig σ} (hpc : 0xffe < rig.machine.pc.toNat) :
    rig.step = (.error (.outOfBounds rig.machine.pc.toNat 2), rig) := by
  unfold step
  rw [Machine.fetch_eq_error_iff.mpr ⟨hpc, rfl⟩]

theorem walk_of_outside {rig : Rig σ} (hpc : 0xffe < rig.machine.pc.toNat) (count : Nat) :
    rig.walk count = rig := by
  induction count with
  | zero => rfl
  | succ count ih => rw [walk, ih, step_of_outside hpc]

/-- A step without hooks fails with the faults of its machine, and a failure undoes all but the
fetch. -/
theorem step_failures {rig : Rig σ} (hhooks : rig.hooks = .empty) : rig.Failures := by
  constructor
  · intro e hbreak
    constructor
    · intro he
      obtain hfault | ⟨-, rfl⟩ := step_eq_error_cases hhooks he
      · exact hfault
      · cases hbreak
    · intro hfault
      exact step_of_error hhooks (Machine.step_eq_error_iff.mpr hfault)
  · intro e he
    exact step_eq_error_cases hhooks he
  · intro hpc count
    rw [walk_of_outside hpc]
    exact ⟨rfl, step_of_outside hpc⟩
  · intro e hfault hpc
    rw [machine_step hhooks]
    exact Machine.step_of_fault hfault hpc
  · intro w hword hop
    have hstep : rig.machine.step rig.dice.top = (.ok (), rig.machine.fetched) :=
      Machine.step_of_unknown hword (Opcode.decode_eq_error_iff.mp hop)
    constructor
    · rw [machine_step hhooks, hstep]
      rfl
    · intro e he
      obtain ⟨-, rfl⟩ := (step_of_ok hhooks (by rw [hstep])).mp he
      rfl
  · exact Machine.toNat_pc_fetched

def atLastByte : Rig Unit :=
  { powerOn ⟨fun _ => 0, 0⟩ () (.empty .off) with
    machine := { Machine.powerOn with
      memory := Memory.powerOn.overlay Layout.programStart [0xf1, 0x65], i := 0xfff } }

theorem load_at_last_byte : atLastByte.hooks = .empty ∧
    atLastByte.step.1 = .error (.outOfBounds 0xfff 2) ∧
    atLastByte.step.2.machine = { atLastByte.machine with pc := 0x202 } := by
  have hword : atLastByte.machine.memory.readWord 0x200 = .ok 0xf165 :=
    Memory.readWord_overlay Memory.powerOn Layout.programStart 0xf1 0x65 [] (by decide)
  have hnext : atLastByte.machine.Upcoming 0xf165 .loadRegisters := ⟨hword, rfl⟩
  have hfault : atLastByte.machine.Fault (.outOfBounds 0xfff 2) :=
    .registers hnext (.inr rfl) (by decide)
  have hfailures : atLastByte.Failures := step_failures rfl
  exact ⟨rfl, (hfailures.fails _ rfl).mpr hfault, hfailures.kept _ hfault (by decide)⟩

end Rig

end Chip8
