import Chip8.Proofs.Table
import Chip8.Rig

/-! # Executing a word

Executing a word whose opcode is not hooked comes to exactly what the table of instructions says of
the opcode.
-/

namespace Chip8

namespace Machine

open Table

variable {m next : Machine} {roll : UInt8} {w : UInt16}

theorem view_key {key : Nat} {down : Bool} (h : m.keypad.line key = .ok down) :
    m.view.key key = down := by
  simp [view, Keypad.getElem?_lines_of_line h]

theorem find_view_key : (List.range 16).find? m.view.key = m.keypad.lowest?.map Fin.val := by
  have hrange : List.range 16 = (List.finRange 16).map Fin.val := by decide
  rw [hrange, List.find?_map, Keypad.lowest?]
  congr 2
  funext key
  simp [view]

theorem pixel_mem {d : Display} {px py : Nat} (hlit : d.pixel px py = true) :
    px < 64 ∧ py < 32 := by
  unfold Display.pixel at hlit
  split at hlit
  case isTrue hpy => exact ⟨Nat.lt_of_not_le fun hpx => by simp [hpx] at hlit, hpy⟩
  case isFalse => cases hlit

theorem covered_mem {c : Nat} {s : View} {px py : Nat} (hcover : covered c s px py = true) :
    px < 64 ∧ py < 32 := by
  simp only [covered, Display.covers, Bool.and_eq_true, decide_eq_true_eq] at hcover
  exact ⟨hcover.1.1.2, hcover.1.2.2⟩

theorem anywhere_lit (d : Display) : anywhere d.pixel = d.anyLit := by
  rw [Bool.eq_iff_iff, anywhere_iff fun px py => pixel_mem, Display.anyLit_iff]

theorem covered_eq {sprite : List UInt8}
    (h : m.memory.read m.i.toNat (Word.n w) = .ok sprite) : covered w.toNat m.view =
      Display.coversBytes (m.v.get (Word.x w)).toNat (m.v.get (Word.y w)).toNat sprite := by
  obtain ⟨hlength, hbytes⟩ := view_read h
  funext px py
  rw [covered, Display.coversBytes, x_eq, y_eq, n_eq, view_v, view_v, hlength]
  apply Display.covers_congr
  intro row hrow
  exact (hbytes row hrow).symm

theorem view_ret (w : UInt16) (h : m.exec roll .ret = .ok next) :
    next.view = body roll.toNat w.toNat m.view .ret := by
  obtain ⟨memory, ⟨slots, depth, hle⟩, v, i, pc, delay, sound, keypad, display, heard⟩ := m
  cases depth with
  | zero => cases h
  | succ depth =>
    cases h
    have hin : depth < Layout.stackDepth := hle
    simp [view, body, hin]

theorem view_push {stack : CallStack} (h : m.stack.push? m.pc = some stack) :
    { m with stack }.view =
      { m.view with stack := View.put m.view.stack m.view.sp m.view.pc, sp := m.view.sp + 1 } := by
  unfold CallStack.push? at h
  split at h
  case isTrue hroom =>
    cases h
    have hslots : ∀ k : Nat, ((m.stack.slots.set m.stack.depth m.pc)[k]?.getD 0).toNat =
        View.put m.view.stack m.stack.depth m.pc.toNat k := by
      intro k
      obtain rfl | hk := Decidable.em (k = m.stack.depth)
      · simp [View.put]
      · simp [View.put, view, hk, Ne.symm hk]
    simp only [view, hslots]
  case isFalse => cases h

theorem nnn_mod (w : UInt16) : (Word.nnn w).val % 65536 = nnn w.toNat := by
  have haddr : (Word.nnn w).val < 4096 := (Word.nnn w).isLt
  rw [nnn_eq]
  omega

theorem view_call (h : m.exec roll (.call (Word.nnn w)) = .ok next) :
    next.view = body roll.toNat w.toNat m.view .call := by
  simp only [exec] at h
  cases hpush : m.stack.push? m.pc with
  | none => simp [hpush] at h
  | some stack =>
    simp only [hpush, Except.ok.injEq] at h
    subst h
    rw [view_jumpTo, view_push hpush, nnn_mod]
    rfl

theorem view_waitKey (h : m.exec roll (.waitKey (Word.x w)) = .ok next) :
    next.view = body roll.toNat w.toNat m.view .waitKey := by
  simp only [exec] at h
  simp only [body, x_eq, find_view_key]
  cases hkey : m.keypad.lowest? with
  | none =>
    simp only [hkey, Except.ok.injEq] at h
    subst h
    have hpc : (m.pc - UInt16.ofNat Layout.instructionSize).toNat =
        (m.pc.toNat + 65536 - 2) % 65536 := by
      rw [UInt16.toNat_sub]
      simp [Layout.instructionSize]
      omega
    simp only [view, hpc, Option.map_none]
  | some key =>
    simp only [hkey, Except.ok.injEq] at h
    subst h
    have hdigit : (UInt8.ofNat key.val).toNat = key.val := by
      have hlt : key.val < 16 := key.isLt
      rw [UInt8.toNat_ofNat']
      omega
    simp only [view_setV, hdigit, Option.map_some]

theorem view_glyph (h : m.exec roll (.glyph (Word.x w)) = .ok next) :
    next.view = body roll.toNat w.toNat m.view .glyph := by
  cases h
  have hi :
      (UInt16.ofNat (Layout.fontStart + Layout.glyphSize * (m.v.get (Word.x w)).toNat)).toNat =
        0x50 + 5 * (m.v.get (Word.x w)).toNat := by
    have hlt := (m.v.get (Word.x w)).toNat_lt
    rw [UInt16.toNat_ofNat']
    simp only [Layout.fontStart, Layout.glyphSize]
    omega
  simp only [body, x_eq, view_v]
  simp only [view, hi]

theorem view_draw (h : m.exec roll (.draw (Word.x w) (Word.y w)
    (Word.n w)) = .ok next) : next.view = effect roll.toNat w.toNat m.view .draw := by
  obtain ⟨sprite, hsprite, rfl⟩ := exec_draw_eq_ok_iff.mp h
  have hrows := Memory.rows_of_read (m.v.get (Word.y w)) hsprite
  have hcovered : covered w.toNat m.view = Display.coversBytes
      (m.v.get (Word.x w)).toUInt64.toNat (m.v.get (Word.y w)).toUInt64.toNat sprite := by
    rw [UInt8.toNat_toUInt64, UInt8.toNat_toUInt64, covered_eq hsprite]
  have hlit : ∀ px py, (m.display.drawSprite (m.v.get (Word.x w)).toUInt64
      (m.v.get (Word.y w)).toUInt64 sprite).2.pixel px py =
        (m.view.lit px py ^^ covered w.toNat m.view px py) := by
    intro px py
    rw [hcovered]
    exact Display.pixel_drawSprite hrows px py
  have hshown : (m.display.drawSprite (m.v.get (Word.x w)).toUInt64
      (m.v.get (Word.y w)).toUInt64 sprite).2.changed =
        (m.view.shown || anywhere (covered w.toNat m.view)) := by
    rw [Bool.eq_iff_iff, Display.changed_drawSprite_iff hrows, ← hcovered, Bool.or_eq_true,
      anywhere_iff fun px py => covered_mem]
    rfl
  have hhit : (m.display.drawSprite (m.v.get (Word.x w)).toUInt64
      (m.v.get (Word.y w)).toUInt64 sprite).1 =
        anywhere fun px py => m.view.lit px py && covered w.toNat m.view px py := by
    rw [Bool.eq_iff_iff, Display.drawSprite_fst_iff hrows, ← hcovered, anywhere_iff]
    · simp only [Bool.and_eq_true]
      rfl
    · intro px py hplace
      rw [Bool.and_eq_true] at hplace
      exact covered_mem hplace.2
  rw [view_setFlag, hhit]
  simp only [effect, flag?, body, ← hshown, ← hlit]
  rfl

theorem view_storeDecimal (h : m.exec roll (.storeDecimal (Word.x w)) = .ok next) :
    next.view = body roll.toNat w.toNat m.view .storeDecimal := by
  obtain ⟨hrange, rfl⟩ := write_eq_ok_iff.mp h
  apply View.ext_memory
  · rfl
  intro k
  rw [view_overlay m hrange]
  simp only [body, x_eq, view_v, View.put, decimalDigits]
  by_cases hones : k = m.i.toNat + 2
  · subst hones
    simp [view, UInt8.toNat_mod]
  by_cases htens : k = m.i.toNat + 1
  · subst htens
    simp [view, UInt8.toNat_mod, UInt8.toNat_div]
  by_cases hhundreds : k = m.i.toNat
  · subst hhundreds
    simp [view, UInt8.toNat_div]
  · have hout : ¬ (m.i.toNat ≤ k ∧ k < m.i.toNat + 3) := by omega
    have hi : m.view.i = m.i.toNat := rfl
    simp [hout, hi, hones, htens, hhundreds]

theorem view_storeRegisters (h : m.exec roll (.storeRegisters (Word.x w)) = .ok next) :
    next.view = body roll.toNat w.toNat m.view .storeRegisters := by
  obtain ⟨hrange, rfl⟩ := write_eq_ok_iff.mp h
  have hlength := m.v.length_upTo (Word.x w)
  apply View.ext_memory
  · rfl
  intro k
  rw [view_overlay m hrange, hlength]
  simp only [body, x_eq]
  by_cases hin : m.i.toNat ≤ k ∧ k ≤ m.i.toNat + (Word.x w).val
  · have hlt : m.i.toNat ≤ k ∧ k < m.i.toNat + ((Word.x w).val + 1) := by omega
    have hreg : k - m.i.toNat ≤ (Word.x w).val := by omega
    rw [if_pos hlt, m.v.getD_upTo hreg]
    exact (if_pos hin).symm
  · have hout : ¬ (m.i.toNat ≤ k ∧ k < m.i.toNat + ((Word.x w).val + 1)) := by omega
    rw [if_neg hout]
    exact (if_neg hin).symm

theorem view_loadRegisters (h : m.exec roll (.loadRegisters (Word.x w)) = .ok next) :
    next.view = body roll.toNat w.toNat m.view .loadRegisters := by
  obtain ⟨bytes, hread, rfl⟩ := exec_loadRegisters_eq_ok_iff.mp h
  obtain ⟨hlength, hbytes⟩ := view_read hread
  have hlast : (Word.x w).val < 16 := (Word.x w).isLt
  apply View.ext_v
  · rfl
  intro k
  have hfit : bytes.length ≤ Layout.registerCount := by
    rw [hlength]
    exact hlast
  rw [view_load m hfit, hlength]
  simp only [body, x_eq]
  obtain hk | hk := Nat.lt_or_ge (Word.x w).val k
  · rw [if_neg (Nat.not_le.mpr hk), if_neg (Nat.not_lt.mpr hk)]
  · rw [if_pos hk, if_pos (Nat.lt_succ_of_le hk)]
    exact hbytes k (Nat.lt_succ_of_le hk)

theorem view_exec {op : Opcode} (h : m.exec roll (Instr.ofOpcode w op) = .ok next) :
    next.view = effect roll.toNat w.toNat m.view op := by
  cases op with
  | clearScreen =>
    cases h
    have hlit : m.display.clear.pixel = fun _ _ => false := by
      funext px py
      exact Display.pixel_clear px py
    simp only [effect, flag?, body, view, anywhere_lit, hlit]
    rfl
  | ret => exact view_ret w h
  | sys =>
    cases h
    rfl
  | jump =>
    cases h
    rw [view_jumpTo, nnn_mod]
    rfl
  | call => exact view_call h
  | skipEqualByte | skipUnequalByte =>
    cases h
    rw [view_skipIf]
    simp only [effect, flag?, body, x_eq, kk_eq, view_v, byte_beq, byte_bne]
  | skipEqual | skipUnequal =>
    cases h
    rw [view_skipIf]
    simp only [effect, flag?, body, x_eq, y_eq, view_v, byte_beq, byte_bne]
  | loadByte | copy =>
    cases h
    simp only [view_setV, effect, flag?, body, x_eq, y_eq, view_v, kk_eq]
  | readDelay =>
    cases h
    simp only [view_setV, effect, flag?, body, x_eq]
    rfl
  | or | and | xor | random =>
    cases h
    simp only [view_setV, effect, flag?, body, x_eq, y_eq, view_v, kk_eq, UInt8.toNat_or,
      UInt8.toNat_and, UInt8.toNat_xor]
  | addByte =>
    cases h
    simp only [view_setV, effect, flag?, body, x_eq, kk_eq, view_v, UInt8.toNat_add]
  | add =>
    cases h
    simp only [view_setResult, effect, flag?, body, x_eq, y_eq, view_v, UInt8.toNat_add,
      byte_carry]
  | sub =>
    cases h
    simp only [view_setResult, effect, flag?, body, x_eq, y_eq, view_v, byte_sub, byte_le]
  | subFrom =>
    cases h
    simp only [view_setResult, effect, flag?, body, x_eq, y_eq, view_v, byte_sub, byte_le]
  | shiftRight =>
    cases h
    simp only [view_setResult, effect, flag?, body, x_eq, view_v, UInt8.toNat_shiftRight, byte_bne,
      UInt8.toNat_and]
    rfl
  | shiftLeft =>
    cases h
    simp only [view_setResult, effect, flag?, body, x_eq, view_v, UInt8.toNat_shiftLeft, byte_bne,
      UInt8.toNat_and]
    rfl
  | loadIndex =>
    cases h
    have hi : (UInt16.ofNat (Word.nnn w).val).toNat = nnn w.toNat := by
      rw [UInt16.toNat_ofNat', nnn_mod]
    simp only [effect, flag?, body, view, hi]
  | jumpOffset =>
    cases h
    rw [view_jumpTo, Nat.add_comm]
    simp only [effect, flag?, body, nnn_eq]
    exact congrArg (fun offset => { m.view with pc := (offset + (Word.nnn w).val) % 65536 })
      (view_v m Reg.first).symm
  | draw => exact view_draw h
  | skipKeyDown =>
    obtain ⟨down, hdown, rfl⟩ := exec_skipKeyDown_eq_ok_iff.mp h
    rw [view_skipIf]
    simp only [effect, flag?, body, x_eq, view_v, view_key hdown]
  | skipKeyUp =>
    obtain ⟨down, hdown, rfl⟩ := exec_skipKeyUp_eq_ok_iff.mp h
    rw [view_skipIf]
    simp only [effect, flag?, body, x_eq, view_v, view_key hdown]
  | waitKey => exact view_waitKey h
  | setDelay =>
    cases h
    simp only [effect, flag?, body, x_eq, view_v]
    rfl
  | setSound =>
    cases h
    simp only [effect, flag?, body, x_eq, view_v]
    simp only [view, setSound, buzzer, byte_bne]
    rfl
  | addIndex =>
    cases h
    have hi : (UInt16.ofNat (m.i.toNat + (m.v.get (Word.x w)).toNat)).toNat =
        (m.i.toNat + (m.v.get (Word.x w)).toNat) % 65536 := UInt16.toNat_ofNat'
    rw [view_setFlag]
    simp only [effect, flag?, body, x_eq, view_v]
    simp only [view, hi]
    rfl
  | glyph => exact view_glyph h
  | storeDecimal => exact view_storeDecimal h
  | storeRegisters => exact view_storeRegisters h
  | loadRegisters => exact view_loadRegisters h

end Machine

/-- What executing an opcode that is not hooked does to a rig. -/
structure Table.Prescribes (w : UInt16) (op : Opcode) {σ : Type} (before after : Rig σ) : Prop where
  /-- Beside the machine only the dice can move. -/
  rest : after = { before with
    machine := after.machine
    dice := if op = .random then before.dice.next else before.dice }
  /-- The machine is the one that the table says and no other. -/
  machine : ∀ m : Machine, m.view =
    Table.effect before.dice.top.toNat w.toNat before.machine.view op ↔ m = after.machine
  /-- A flag goes by the registers as they were, and no result overwrites it. -/
  flag : ∀ flag, Table.flag? w.toNat before.machine.view op = some flag →
    after.machine.v.get Reg.flag = flag.toUInt8
  reverse : op = .subFrom → Word.y w ≠ Reg.flag → after.machine.v.get (Word.y w) =
    before.machine.v.get (Word.y w) - before.machine.v.get (Word.x w)
  index : op = .storeRegisters ∨ op = .loadRegisters → after.machine.i = before.machine.i
  memory : op ≠ .storeDecimal → op ≠ .storeRegisters →
    after.machine.memory = before.machine.memory

namespace Rig

open Table

variable {σ : Type}

theorem execute_ok {rig after : Rig σ} {w : UInt16} {op : Opcode} (hop : Opcode.decode w = .ok op)
    (hhook : rig.hooks.hook? op = none) (hrun : rig.execute w = (.ok (), after)) :
    ∃ next, rig.machine.exec rig.dice.top (Instr.ofOpcode w op) = .ok next ∧
      after = { rig with
        machine := next, dice := if op = .random then rig.dice.next else rig.dice } := by
  have hdecode : Instr.decode? w = some (Instr.ofOpcode w op) := by
    unfold Opcode.decode at hop
    cases hfound : Opcode.decode? w with
    | none => simp [hfound] at hop
    | some found =>
      simp only [hfound, Except.ok.injEq] at hop
      simp [Instr.decode?, hfound, hop]
  simp only [execute, hdecode, Instr.opcode_ofOpcode, hhook, runInstr] at hrun
  cases hnext : rig.machine.exec rig.dice.top (Instr.ofOpcode w op) with
  | error e => simp [hnext] at hrun
  | ok next =>
    rw [hnext] at hrun
    exact ⟨next, rfl, (Prod.mk.inj hrun).2.symm⟩

theorem execute_prescribed {rig after : Rig σ} {w : UInt16} {op : Opcode}
    (hop : Opcode.decode w = .ok op) (hhook : rig.hooks.hook? op = none)
    (hrun : rig.execute w = (.ok (), after)) : Prescribes w op rig after := by
  obtain ⟨next, hexec, rfl⟩ := execute_ok hop hhook hrun
  have hview := Machine.view_exec hexec
  constructor
  · rfl
  · intro m
    constructor
    · intro hm
      exact Machine.view_injective (hm.trans hview.symm)
    · rintro rfl
      exact hview
  · intro flag hflag
    have hv := Machine.view_v next Reg.flag
    rw [hview] at hv
    apply UInt8.toNat.inj
    rw [← hv, toNat_toUInt8]
    exact effect_flag hflag
  · rintro rfl hy
    have hplace : y w.toNat ≠ 15 := by
      rw [y_eq]
      exact fun heq => hy (Fin.ext heq)
    have hv := effect_reverse rig.dice.top.toNat rig.machine.view hplace
    rw [← hview, x_eq, y_eq, Machine.view_v, Machine.view_v, Machine.view_v, ← byte_sub] at hv
    exact UInt8.toNat.inj hv
  · intro hop
    have hi : next.view.i = rig.machine.view.i := by
      obtain rfl | rfl := hop <;> rw [hview] <;> rfl
    exact UInt16.toNat.inj hi
  · intro hdecimal hregisters
    apply Machine.memory_of_view
    rw [hview]
    exact effect_memory hdecimal hregisters

/-- A sum put into the register that holds the flag leaves the flag there. -/
theorem execute_add_flag : Prescribes 0x8f14 .add
    ({ powerOn ⟨fun _ => 0, 0⟩ () (.empty .off) with
      machine := (Machine.powerOn.setV 15 200).setV 1 100 })
    ({ powerOn ⟨fun _ => 0, 0⟩ () (.empty .off) with
      machine := ((Machine.powerOn.setV 15 200).setV 1 100).setV 15 1 }) :=
  execute_prescribed (by rfl) (by rfl) (by rfl)

end Rig

end Chip8
