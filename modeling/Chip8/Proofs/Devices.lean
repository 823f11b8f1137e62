import Chip8.Proofs.Calls
import Chip8.Proofs.Likeness

/-! # What timers and keys can change

Timers and keys are moved from outside. A machine without one of these devices does the same as the
machine with it, until an instruction reads the device. So runs from machines that differ in a
device alone stay side by side as long as none of its readers comes up. Nor does it matter then how
the instructions of a run are split into cycles, since all that a cycle adds to its instructions is
a tick of the timers.
-/

namespace Chip8

/-- A part of the machine that the clock or somebody at the keys moves. -/
inductive Device
  | timers
  | keypad
deriving DecidableEq

def Device.readers : Device → List Opcode
  | .timers => [.readDelay]
  | .keypad => [.skipKeyDown, .skipKeyUp, .waitKey]

namespace Machine

/-- The machine with a device as it is when switched on. -/
def without (m : Machine) : Device → Machine
  | .timers => { m with delay := 0, sound := 0, soundChanged := false }
  | .keypad => { m with keypad := .released }

def EqualBut (device : Device) (m n : Machine) : Prop := m.without device = n.without device

def Consults (m : Machine) (device : Device) : Prop :=
  ∃ op ∈ device.readers, m.opcode? = some op

instance (m : Machine) (device : Device) : Decidable (m.Consults device) :=
  inferInstanceAs (Decidable (∃ op ∈ device.readers, m.opcode? = some op))

variable {m n : Machine} {device : Device} {roll : UInt8}

@[simp]
theorem memory_without : (m.without device).memory = m.memory := by cases device <;> rfl

@[simp]
theorem stack_without : (m.without device).stack = m.stack := by cases device <;> rfl

@[simp]
theorem v_without : (m.without device).v = m.v := by cases device <;> rfl

@[simp]
theorem i_without : (m.without device).i = m.i := by cases device <;> rfl

@[simp]
theorem pc_without : (m.without device).pc = m.pc := by cases device <;> rfl

@[simp]
theorem display_without : (m.without device).display = m.display := by cases device <;> rfl

@[simp]
theorem keypad_without_timers : (m.without .timers).keypad = m.keypad := rfl

@[simp]
theorem without_without : (m.without device).without device = m.without device := by
  cases device <;> rfl

theorem skipIf_without (condition : Bool) :
    (m.without device).skipIf condition = (m.skipIf condition).without device := by
  rw [skipIf_eq, skipIf_eq, pc_without]
  cases device <;> rfl

theorem write_without (addr : Nat) (data : List UInt8) :
    (m.without device).write addr data = (m.write addr data).map (·.without device) := by
  unfold Machine.write
  rw [memory_without]
  cases m.memory.write addr data with
  | error e => rfl
  | ok memory => cases device <;> rfl

/-- What an instruction does beside a device does not depend on the device, unless it reads it. -/
theorem exec_without {instr : Instr} (hreads : instr.opcode ∉ device.readers) :
    ((m.without device).exec roll instr).map (·.without device) =
      (m.exec roll instr).map (·.without device) := by
  cases instr with
  | ret =>
    simp only [exec, stack_without, pc_without]
    cases m.stack.pop? with
    | none => rfl
    | some top => cases device <;> rfl
  | call addr =>
    simp only [exec, stack_without, pc_without]
    cases m.stack.push? m.pc with
    | none => rfl
    | some stack => cases device <;> rfl
  | skipEqualByte x byte | skipUnequalByte x byte | skipEqual x y | skipUnequal x y =>
    simp only [exec, v_without, skipIf_without, Except.map, without_without]
  | draw x y rows =>
    simp only [exec, memory_without, i_without, v_without, display_without]
    cases m.memory.read m.i.toNat rows with
    | error e => rfl
    | ok sprite => cases device <;> rfl
  | loadRegisters x =>
    simp only [exec, memory_without, i_without, v_without]
    cases m.memory.read m.i.toNat (x + 1) with
    | error e => rfl
    | ok bytes => cases device <;> rfl
  | storeDecimal x | storeRegisters x =>
    simp only [exec, v_without, i_without, write_without]
    cases m.write m.i.toNat _ with
    | error e => rfl
    | ok next => simp only [Except.map, without_without]
  | skipKeyDown x | skipKeyUp x =>
    cases device with
    | keypad => simp [Instr.opcode, Device.readers] at hreads
    | timers =>
      simp only [exec, v_without, keypad_without_timers, skipIf_without]
      cases m.keypad.line (m.v.get x).toNat with
      | error e => rfl
      | ok down => simp only [Except.map, bind, Except.bind, pure, Except.pure, without_without]
  | waitKey x =>
    cases device with
    | keypad => simp [Instr.opcode, Device.readers] at hreads
    | timers =>
      simp only [exec, keypad_without_timers]
      cases m.keypad.lowest? <;> rfl
  | readDelay x =>
    cases device with
    | timers => simp [Instr.opcode, Device.readers] at hreads
    | keypad => rfl
  | _ => cases device <;> rfl

theorem fetch_without : (m.without device).fetch =
    m.fetch.map fun (word, fetched) => (word, fetched.without device) := by
  unfold fetch
  rw [memory_without, pc_without]
  cases m.memory.readWord m.pc.toNat with
  | error e => rfl
  | ok word => cases device <;> rfl

theorem opcode?_without : (m.without device).opcode? = m.opcode? := by
  simp only [opcode?, memory_without, pc_without]

theorem not_mem_readers {word : UInt16} {instr : Instr} (hquiet : ¬ m.Consults device)
    (hword : m.memory.readWord m.pc.toNat = .ok word) (hinstr : Instr.decode? word = some instr) :
    instr.opcode ∉ device.readers := by
  have hdecode := Instr.map_opcode_decode? word
  rw [hinstr, Option.map_some] at hdecode
  have hnext : m.opcode? = some instr.opcode :=
    Upcoming.opcode?_eq ⟨hword, Opcode.decode_eq_ok_iff.mpr hdecode.symm⟩
  exact fun hmem => hquiet ⟨_, hmem, hnext⟩

theorem step_without (hquiet : ¬ m.Consults device) :
    ((m.without device).step roll).map id (·.without device) =
      (m.step roll).map id (·.without device) := by
  unfold step
  rw [fetch_without]
  cases hfetch : m.fetch with
  | error e => exact Prod.ext rfl without_without
  | ok result =>
    obtain ⟨word, fetched⟩ := result
    obtain ⟨hword, rfl⟩ := fetch_eq_ok_iff.mp hfetch
    cases hinstr : Instr.decode? word with
    | none =>
      simp only [Except.map, hinstr]
      exact Prod.ext rfl without_without
    | some instr =>
      have hexec : ((m.fetched.without device).exec roll instr).map (·.without device) =
          (m.fetched.exec roll instr).map (·.without device) :=
        exec_without (not_mem_readers hquiet hword hinstr)
      simp only [Except.map, hinstr]
      generalize (m.fetched.without device).exec roll instr = first at hexec
      generalize m.fetched.exec roll instr = second at hexec
      cases first with
      | ok next =>
        cases second with
        | ok other => exact Prod.ext rfl (Except.ok.inj hexec)
        | error e => cases hexec
      | error e =>
        cases second with
        | ok other => cases hexec
        | error e' =>
          cases hexec
          exact Prod.ext rfl without_without

namespace EqualBut

theorem reads (h : EqualBut device m n) : m.pc = n.pc ∧ m.memory = n.memory := by
  rw [← pc_without, h, pc_without, ← memory_without (m := m), h, memory_without]
  exact ⟨rfl, rfl⟩

theorem opcode? (h : EqualBut device m n) : m.opcode? = n.opcode? := by
  rw [← opcode?_without, h, opcode?_without]

theorem consults_iff (h : EqualBut device m n) (other : Device) :
    m.Consults other ↔ n.Consults other := by
  unfold Consults
  rw [h.opcode?]

theorem rolls (h : EqualBut device m n) : m.rolls = n.rolls := by
  have hrolls : ∀ m : Machine, (m.without device).rolls = m.rolls := by
    intro m
    unfold Machine.rolls
    rw [fetch_without]
    cases m.fetch <;> rfl
  rw [← hrolls m, h, hrolls n]

theorem step (h : EqualBut device m n) (hquiet : ¬ m.Consults device) :
    Outcome.Both (EqualBut device) (m.step roll) (n.step roll) := by
  have hother : ¬ n.Consults device := fun hn => hquiet ((h.consults_iff device).mpr hn)
  have heq : (m.step roll).map id (·.without device) = (n.step roll).map id (·.without device) := by
    rw [← step_without hquiet, h, step_without hother]
  have hresult := congrArg Prod.fst heq
  have hafter := congrArg Prod.snd heq
  exact ⟨hresult, hafter⟩

end EqualBut

/-- Where no machine of a list reads a device, none does in a list that differs in it alone. -/
theorem quiet_of_map_eq {visited others : List Machine}
    (h : visited.map (·.without device) = others.map (·.without device))
    (hquiet : ∀ m ∈ visited, ¬ m.Consults device) : ∀ m ∈ others, ¬ m.Consults device := by
  intro n hn hconsults
  have hmem : n.without device ∈ visited.map (·.without device) :=
    h ▸ List.mem_map_of_mem hn
  obtain ⟨m, hm, heq⟩ := List.mem_map.mp hmem
  exact hquiet m hm ((EqualBut.consults_iff heq device).mpr hconsults)

end Machine

namespace Rig

variable {σ τ : Type} {device : Device} {r : Rig σ} {s : Rig τ}

abbrev EqualBut (device : Device) : Rig σ → Rig τ → Prop := Tied (Machine.EqualBut device)

namespace EqualBut

theorem symm (h : EqualBut device r s) : EqualBut device s r :=
  ⟨Eq.symm h.machine, h.plain, h.bare, h.breakpoints.symm, h.dice.symm⟩

theorem step (h : EqualBut device r s) (hquiet : ¬ r.machine.Consults device) :
    Outcome.Both (EqualBut device) r.step s.step :=
  Tied.step h Machine.EqualBut.reads (Machine.EqualBut.rolls h.machine)
    (Machine.EqualBut.step h.machine hquiet)

theorem walk (h : EqualBut device r s) (count : Nat)
    (hquiet : ∀ k < count, ¬ (r.walk k).machine.Consults device) :
    EqualBut device (r.walk count) (s.walk count) := by
  induction count with
  | zero => exact h
  | succ count ih =>
    have hbefore := ih fun k hk => hquiet k (Nat.lt_succ_of_lt hk)
    exact (hbefore.step (hquiet count (Nat.lt_succ_self count))).2

theorem steps (h : EqualBut device r s) (count : Nat)
    (hquiet : ∀ m ∈ visited count r, ¬ m.Consults device) :
    Outcome.Both (EqualBut device) (Rig.steps count r) (Rig.steps count s) ∧
      (visited count r).map (·.without device) = (visited count s).map (·.without device) := by
  induction count generalizing r s with
  | zero => exact ⟨⟨rfl, h⟩, rfl⟩
  | succ count ih =>
    rw [visited_succ] at hquiet
    obtain ⟨hhere, hlater⟩ := List.forall_mem_cons.mp hquiet
    obtain ⟨result, left, right, hr, hs, hnext⟩ := (h.step hhere).exists_eq
    rw [hr] at hlater
    rw [Rig.steps, Rig.steps, visited_succ, visited_succ, hr, hs, List.map_cons, List.map_cons,
      h.machine]
    cases result with
    | ok _ =>
      obtain ⟨hsteps, hvisited⟩ := ih hnext hlater
      exact ⟨hsteps, congrArg _ hvisited⟩
    | error e => exact ⟨⟨rfl, hnext⟩, rfl⟩

/-- It does not matter of which of the two it is known that nothing reads the device. -/
theorem steps_of_either (h : EqualBut device r s) (count : Nat)
    (hquiet : (∀ m ∈ visited count r, ¬ m.Consults device) ∨
      ∀ m ∈ visited count s, ¬ m.Consults device) :
    Outcome.Both (EqualBut device) (Rig.steps count r) (Rig.steps count s) ∧
      (visited count r).map (·.without device) = (visited count s).map (·.without device) := by
  obtain hleft | hright := hquiet
  · exact h.steps count hleft
  · have hvisited := (h.symm.steps count hright).2
    exact h.steps count (Machine.quiet_of_map_eq hvisited hright)

end EqualBut

/-- What the steps of two runs answer and leave, beside a device. -/
structure Undisturbed (device : Device) (r : Rig σ) (s : Rig τ) (count : Nat) : Prop where
  answers : ∀ k < count, (r.walk k).step.1 = (s.walk k).step.1
  machines : ∀ k ≤ count, (r.walk k).machine.EqualBut device (s.walk k).machine

theorem EqualBut.undisturbed (h : EqualBut device r s) {count : Nat}
    (hquiet : ∀ k < count, ¬ (r.walk k).machine.Consults device) :
    Undisturbed device r s count := by
  have hwalk : ∀ k ≤ count, EqualBut device (r.walk k) (s.walk k) :=
    fun k hk => h.walk k fun j hj => hquiet j (Nat.lt_of_lt_of_le hj hk)
  constructor
  · intro k hk
    exact ((hwalk k (Nat.le_of_lt hk)).step (hquiet k hk)).1
  · intro k hk
    exact (hwalk k hk).machine

theorem steps_add (first later : Nat) (rig : Rig σ) :
    steps (first + later) rig = (steps first rig).andThen (steps later) := by
  induction first generalizing rig with
  | zero => rw [Nat.zero_add, steps, Outcome.ok_andThen]
  | succ first ih =>
    rw [Nat.succ_add, steps, steps]
    obtain ⟨e | ⟨⟩, next⟩ := rig.step
    · rfl
    · exact ih next

theorem visited_add (first later : Nat) (rig : Rig σ) : visited (first + later) rig =
    visited first rig ++
      match steps first rig with
      | (.ok (), next) => visited later next
      | (.error _, _) => [] := by
  induction first generalizing rig with
  | zero => rw [Nat.zero_add, visited_zero, steps, List.nil_append]
  | succ first ih =>
    rw [Nat.succ_add, visited_succ, visited_succ, steps]
    obtain ⟨e | ⟨⟩, next⟩ := rig.step
    · rfl
    · exact congrArg _ (ih next)

end Rig

/-! ## Splitting a run into cycles -/

def total (sizes : List Nat) : Nat := sizes.foldr (· + ·) 0

namespace Vm

variable {σ τ : Type}

/-- Cycles of the given numbers of instructions, up to the first that fails. -/
def batches : List Nat → Vm σ → Outcome (Vm σ)
  | [], vm => (.ok (), vm)
  | ipc :: sizes, vm => { vm with flags := { vm.flags with ipc } }.cycle.andThen (batches sizes)

/-- The machines at which the steps of these cycles begin. -/
def batchesVisited : List Nat → Vm σ → List Machine
  | [], _ => []
  | ipc :: sizes, vm =>
    Rig.visited ipc vm.rig ++
      match { vm with flags := { vm.flags with ipc } }.cycle with
      | (.ok (), next) => batchesVisited sizes next
      | (.error _, _) => []

/-- As long as nothing reads the timers, batches go through the machines of the run that does not
stop for them, but for the timers. -/
theorem batches_beside (sizes : List Nat) {vm : Vm σ} {s : Rig τ} (hqueue : vm.queue = [])
    (h : Rig.EqualBut .timers vm.rig s)
    (hquiet : (∀ m ∈ vm.batchesVisited sizes, ¬ m.Consults .timers) ∨
      ∀ m ∈ Rig.visited (total sizes) s, ¬ m.Consults .timers) :
    Outcome.Both (fun (v : Vm σ) r => Rig.EqualBut .timers v.rig r) (vm.batches sizes)
        (Rig.steps (total sizes) s) ∧
      (vm.batchesVisited sizes).map (·.without .timers) =
        (Rig.visited (total sizes) s).map (·.without .timers) := by
  induction sizes generalizing vm s with
  | nil => exact ⟨⟨rfl, h⟩, rfl⟩
  | cons ipc sizes ih =>
    have htotal : total (ipc :: sizes) = ipc + total sizes := rfl
    have hpop : Pops { vm with flags := { vm.flags with ipc } }.queue none [] := hqueue ▸ .idle
    rw [htotal, Rig.visited_add, batchesVisited, cycle_of_pops hpop] at hquiet
    rw [htotal, Rig.steps_add, Rig.visited_add, batches, batchesVisited, cycle_of_pops hpop,
      List.map_append, List.map_append]
    simp only [List.forall_mem_append] at hquiet
    obtain ⟨hsteps, hvisited⟩ :=
      h.steps_of_either ipc (hquiet.imp And.left And.left)
    obtain ⟨result, left, right, hr, hs, hnext⟩ := hsteps.exists_eq
    have hheld : Rig.steps ipc (vm.rig.hold none true) = (result, left) := hr
    rw [hheld, hs] at hquiet ⊢
    rw [hvisited]
    cases result with
    | ok _ =>
      have htick : Rig.EqualBut .timers (left.timed.hold none false) right := { hnext with }
      obtain ⟨hlast, hlater⟩ := ih rfl htick (hquiet.imp And.right And.right)
      exact ⟨hlast, congrArg _ hlater⟩
    | error e => exact ⟨⟨rfl, { hnext with }⟩, rfl⟩

/-- Beside a device two runs are the same as long as neither reads it. Beside the timers so are all
ways of splitting a run into cycles. -/
theorem devices_reach_readers_only :
    (∀ (device : Device) (r : Rig σ) (s : Rig τ), Rig.EqualBut device r s → ∀ count,
      (∀ k < count, ¬ (r.walk k).machine.Consults device) →
        Rig.Undisturbed device r s count) ∧
    ∀ vm : Vm σ, vm.rig.hooks = .empty → vm.queue = [] → ∀ sizes others : List Nat,
      total sizes = total others → (∀ m ∈ vm.batchesVisited sizes, ¬ m.Consults .timers) →
        (vm.batches sizes).1 = (vm.batches others).1 ∧
          (vm.batches sizes).2.machine.EqualBut .timers (vm.batches others).2.machine := by
  refine ⟨fun _ _ _ h _ hquiet => h.undisturbed hquiet, ?_⟩
  intro vm hhooks hqueue sizes others htotal hquiet
  have hself : Rig.EqualBut .timers vm.rig vm.rig := ⟨rfl, hhooks, hhooks, rfl, rfl⟩
  obtain ⟨⟨hresult, hmachine⟩, hvisited⟩ := batches_beside sizes hqueue hself (.inl hquiet)
  -- The run that does not stop for cycles lies between the two ways of splitting it.
  have hplain := Machine.quiet_of_map_eq hvisited hquiet
  rw [htotal] at hresult hmachine hplain
  obtain ⟨⟨hresult', hmachine'⟩, -⟩ := batches_beside others hqueue hself (.inr hplain)
  exact ⟨hresult.trans hresult'.symm, Eq.trans hmachine.machine (Eq.symm hmachine'.machine)⟩

/-- Sets the sound timer to five again and again. -/
def humming : Vm Unit :=
  ofRig .standard { Rig.powerOn ⟨fun _ => 0, 0⟩ () (.empty .off) with
    machine := { Machine.powerOn with
      memory := Memory.zero.overlay Layout.programStart [0x60, 0x05, 0xf0, 0x18, 0x12, 0x00] } }

/-- The same in the middle of a sound. -/
def buzzing : Rig Unit :=
  { humming.rig with machine := { humming.machine with delay := 9, sound := 7 } }

/-- The same while somebody holds key 3. -/
def fingered : Rig Unit := (humming.call (.setKey 3 true)).2.rig

theorem humming_undisturbed : Rig.Undisturbed .timers humming.rig buzzing 3 ∧
    Rig.Undisturbed .keypad humming.rig fingered 3 ∧
    (humming.batches [2, 0, 1]).1.isOk = true ∧
    (humming.batches [3]).2.machine.EqualBut .timers (humming.batches [2, 0, 1]).2.machine ∧
    (humming.batches [3]).2.machine.sound ≠ (humming.batches [2, 0, 1]).2.machine.sound := by
  obtain ⟨hbeside, hsplit⟩ := devices_reach_readers_only (σ := Unit) (τ := Unit)
  have htimers : Rig.EqualBut .timers humming.rig buzzing := ⟨rfl, rfl, rfl, rfl, rfl⟩
  have hkeypad : Rig.EqualBut .keypad humming.rig fingered := ⟨rfl, rfl, rfl, rfl, rfl⟩
  have hprogram : ∀ k < 3, (humming.rig.walk k).machine.opcode? =
      [Opcode.loadByte, Opcode.setSound, Opcode.jump][k]? := by decide +kernel
  have hunread : ∀ device : Device, ∀ op ∈ device.readers, ∀ k < 3,
      [Opcode.loadByte, Opcode.setSound, Opcode.jump][k]? ≠ some op := by
    intro device
    cases device <;> decide
  have hquiet : ∀ device, ∀ k < 3, ¬ (humming.rig.walk k).machine.Consults device := by
    rintro device k hk ⟨op, hop, hnext⟩
    exact hunread device op hop k hk ((hprogram k hk).symm.trans hnext)
  have hbatch : ∀ m ∈ humming.batchesVisited [3], ¬ m.Consults .timers := by decide +kernel
  obtain ⟨hresult, hmachine⟩ := hsplit humming rfl rfl [3] [2, 0, 1] rfl hbatch
  have hok : (humming.batches [3]).1.isOk = true := by decide +kernel
  exact ⟨hbeside _ _ _ htimers 3 (hquiet _), hbeside _ _ _ hkeypad 3 (hquiet _), hresult ▸ hok,
    hmachine, by decide +kernel⟩

end Vm

end Chip8
