import Chip8.Proofs.Fault
import Chip8.Proofs.Queue

/-! # Waiting for a key

An instruction that waits for a key steps back while no key is down, so cycles that run nothing else
only count the timers down. This goes on over any session in which no cycle that runs has a key
down. The first cycle that has one begins with a step that takes the lowest key.
-/

namespace Chip8

namespace Machine

theorem lowest?_eq_none_iff {m : Machine} :
    m.keypad.lowest? = none ↔ ∀ key, m.down key = false := by
  rw [Keypad.lowest?_eq_head?_down, List.head?_eq_none_iff, List.eq_nil_iff_forall_not_mem]
  simp only [Keypad.mem_down, Bool.not_eq_true]
  rfl

theorem least_of_lowest? {m : Machine} {key : Fin Layout.keyCount}
    (h : m.keypad.lowest? = some key) :
    m.down key = true ∧ ∀ other, m.down other = true → key ≤ other := by
  rw [Keypad.lowest?_eq_head?_down] at h
  obtain ⟨rest, hdown⟩ := List.head?_eq_some_iff.mp h
  have hsorted : m.keypad.down.Pairwise (· < ·) :=
    (List.pairwise_lt_finRange Layout.keyCount).filter _
  rw [hdown, List.pairwise_cons] at hsorted
  refine ⟨Keypad.mem_down.mp (hdown ▸ List.mem_cons_self), ?_⟩
  intro other hother
  have hmem : other ∈ key :: rest := hdown ▸ Keypad.mem_down.mpr hother
  obtain rfl | hrest := List.mem_cons.mp hmem
  · exact Fin.le_refl _
  · exact Fin.le_of_lt (hsorted.1 other hrest)

/-- The next instruction waits for a key that it puts into a register. -/
def AwaitsKey (m : Machine) (x : Reg) : Prop := ∃ w, m.Upcoming w .waitKey ∧ Word.x w = x

variable {m : Machine} {x : Reg}

theorem Upcoming.fetch_eq {w : UInt16} {op : Opcode} (hnext : m.Upcoming w op) :
    m.fetch = .ok (w, m.fetched) := fetch_eq_ok_iff.mpr ⟨hnext.word, rfl⟩

theorem step_of_upcoming {w : UInt16} {op : Opcode} {next : Machine} {roll : UInt8}
    (hnext : m.Upcoming w op) (hexec : m.fetched.exec roll (.ofOpcode w op) = .ok next) :
    m.step roll = (.ok (), next) := by
  have hdecode : Instr.decode? w = some (.ofOpcode w op) := by
    rw [Instr.decode?, Opcode.decode_eq_ok_iff.mp hnext.opcode, Option.map_some]
  simp only [step, hnext.fetch_eq, hdecode, hexec]

/-- Stepping back undoes the fetch. -/
theorem AwaitsKey.step_of_none (h : m.AwaitsKey x) (hup : m.keypad.lowest? = none)
    (roll : UInt8) : m.step roll = (.ok (), m) := by
  obtain ⟨w, hnext, rfl⟩ := h
  apply step_of_upcoming hnext
  have hlowest : m.fetched.keypad.lowest? = none := hup
  have hback : m.fetched.pc - UInt16.ofNat Layout.instructionSize = m.pc :=
    UInt16.add_sub_cancel ..
  simp only [Instr.ofOpcode, exec, hlowest, hback]
  rfl

/-- The machine when its instruction has put a key into a register. -/
def taking (m : Machine) (x : Reg) (key : Fin Layout.keyCount) : Machine :=
  { m with v := m.v.set x (UInt8.ofNat key), pc := m.pc + 2 }

theorem AwaitsKey.step_of_some (h : m.AwaitsKey x) {key : Fin Layout.keyCount}
    (hkey : m.keypad.lowest? = some key) (roll : UInt8) :
    m.step roll = (.ok (), m.taking x key) := by
  obtain ⟨w, hnext, rfl⟩ := h
  apply step_of_upcoming hnext
  have hlowest : m.fetched.keypad.lowest? = some key := hkey
  simp only [Instr.ofOpcode, exec, hlowest]
  rfl

theorem AwaitsKey.rolls_eq (h : m.AwaitsKey x) : m.rolls = false := by
  obtain ⟨w, hnext, -⟩ := h
  simp [rolls, hnext.fetch_eq, Opcode.decode_eq_ok_iff.mp hnext.opcode]

theorem AwaitsKey.pc_le (h : m.AwaitsKey x) : m.pc.toNat ≤ 0xffe := by
  obtain ⟨w, hnext, -⟩ := h
  exact hnext.pc_le

theorem AwaitsKey.of_memory {other : Machine} (h : m.AwaitsKey x)
    (hmemory : other.memory = m.memory) (hpc : other.pc = m.pc) : other.AwaitsKey x := by
  obtain ⟨w, hnext, hx⟩ := h
  refine ⟨w, ⟨?_, hnext.opcode⟩, hx⟩
  rw [hmemory, hpc]
  exact hnext.word

/-! ## Timers that count on -/

/-- The machine after its timers have counted down a number of times. The buzzer counts as changed
if it fell silent. -/
def aged (m : Machine) (count : Nat) : Machine :=
  { m with
    delay := UInt8.ofNat (m.delay.toNat - count)
    sound := UInt8.ofNat (m.sound.toNat - count)
    soundChanged := m.soundChanged || decide (0 < m.sound.toNat ∧ m.sound.toNat ≤ count) }

theorem toNat_ofNat_sub (timer : UInt8) (count : Nat) :
    (UInt8.ofNat (timer.toNat - count)).toNat = timer.toNat - count := by
  have htimer := timer.toNat_lt
  rw [UInt8.toNat_ofNat']
  omega

theorem aged_zero (m : Machine) : m.aged 0 = m := by
  have hsound : ¬ (0 < m.sound.toNat ∧ m.sound.toNat ≤ 0) := by omega
  simp only [aged, Nat.sub_zero, UInt8.ofNat_toNat, decide_eq_false hsound, Bool.or_false]

theorem timed_eq_aged (m : Machine) : m.timed = m.aged 1 := by
  have hsound : m.sound = 1 ↔ 0 < m.sound.toNat ∧ m.sound.toNat ≤ 1 := by
    rw [← UInt8.toNat_inj, UInt8.toNat_one]
    omega
  simp only [timed, aged, hsound]

theorem aged_aged (m : Machine) (first later : Nat) :
    (m.aged first).aged later = m.aged (first + later) := by
  have hsound : (decide (0 < m.sound.toNat ∧ m.sound.toNat ≤ first) ||
      decide (0 < m.sound.toNat - first ∧ m.sound.toNat - first ≤ later)) =
        decide (0 < m.sound.toNat ∧ m.sound.toNat ≤ first + later) := by
    rw [← Bool.decide_or]
    apply decide_eq_decide.mpr
    omega
  simp only [aged, toNat_ofNat_sub, Nat.sub_sub, Bool.or_assoc, hsound]

/-- What a program that waits leaves alone, and what is left of its timers. -/
structure Waited (m : Machine) (count : Nat) (after : Machine) : Prop where
  memory : after.memory = m.memory
  stack : after.stack = m.stack
  v : after.v = m.v
  i : after.i = m.i
  pc : after.pc = m.pc
  screen : after.display.screen = m.display.screen
  delay : after.delay.toNat = m.delay.toNat - count
  sound : after.sound.toNat = m.sound.toNat - count

theorem waited_refl (m : Machine) : m.Waited 0 m := ⟨rfl, rfl, rfl, rfl, rfl, rfl, rfl, rfl⟩

theorem Waited.trans {middle last : Machine} {first later : Nat} (h : m.Waited first middle)
    (hlater : middle.Waited later last) : m.Waited (first + later) last where
  memory := hlater.memory.trans h.memory
  stack := hlater.stack.trans h.stack
  v := hlater.v.trans h.v
  i := hlater.i.trans h.i
  pc := hlater.pc.trans h.pc
  screen := hlater.screen.trans h.screen
  delay := by rw [hlater.delay, h.delay, Nat.sub_sub]
  sound := by rw [hlater.sound, h.sound, Nat.sub_sub]

theorem waited_hold (m : Machine) (key? : Option (Fin Layout.keyCount)) (down : Bool) :
    m.Waited 0 (m.hold key? down) := by
  cases key? with
  | none => exact m.waited_refl
  | some key => exact ⟨rfl, rfl, rfl, rfl, rfl, rfl, rfl, rfl⟩

theorem waited_timed (m : Machine) : m.Waited 1 m.timed :=
  ⟨rfl, rfl, rfl, rfl, rfl, rfl, toNat_ofNat_sub _ _, toNat_ofNat_sub _ _⟩

theorem waited_takeOutputChanged (m : Machine) : m.Waited 0 m.takeOutputChanged.2 :=
  ⟨rfl, rfl, rfl, rfl, rfl, rfl, rfl, rfl⟩

end Machine

namespace Rig

variable {σ : Type} {rig : Rig σ} {x : Reg}

theorem down_hold (rig : Rig σ) (key? : Option (Fin Layout.keyCount)) (down : Bool)
    (key : Fin Layout.keyCount) : (rig.hold key? down).machine.down key =
      if key? = some key then down else rig.machine.down key :=
  rig.machine.down_hold key? down key

theorem step_awaits (hhooks : rig.hooks = .empty) (h : rig.machine.AwaitsKey x) {next : Machine}
    (hstep : ∀ roll, rig.machine.step roll = (.ok (), next)) :
    ∃ journal, rig.step = ({ rig with machine := next, journal } : Rig σ).checkBreak := by
  obtain ⟨journal, heq⟩ := step_eq hhooks
  refine ⟨journal, ?_⟩
  rw [heq, stepped, hstep, h.rolls_eq, Outcome.ok_andThen]
  rfl

theorem checkBreak_of_unmarked (hpc : rig.machine.pc ∉ rig.breakpoints) :
    rig.checkBreak = (.ok (), rig) := by
  simp only [checkBreak, hpc, if_false]

/-- As long as no key is down the steps of a run go nowhere. -/
theorem steps_awaits (count : Nat) (hhooks : rig.hooks = .empty) (h : rig.machine.AwaitsKey x)
    (hunmarked : rig.machine.pc ∉ rig.breakpoints) (hup : rig.machine.keypad.lowest? = none) :
    ∃ journal, steps count rig = (.ok (), { rig with journal }) := by
  induction count generalizing rig with
  | zero => exact ⟨rig.journal, rfl⟩
  | succ count ih =>
    obtain ⟨journal, hstep⟩ := step_awaits hhooks h (h.step_of_none hup)
    rw [checkBreak_of_unmarked (by exact hunmarked)] at hstep
    obtain ⟨last, hlast⟩ := @ih { rig with journal } hhooks h hunmarked hup
    refine ⟨last, ?_⟩
    rw [steps, hstep, Outcome.ok_andThen]
    exact hlast

end Rig

namespace Vm

variable {σ : Type} {vm : Vm σ} {x : Reg}

/-- Nothing is hooked, and the program stands at an instruction that waits for a key, where no
breakpoint is set. -/
structure Awaits (vm : Vm σ) (x : Reg) : Prop where
  hooks : vm.rig.hooks = .empty
  machine : vm.machine.AwaitsKey x
  unmarked : vm.machine.pc ∉ vm.rig.breakpoints

/-- The next cycle runs, and has a key down. -/
def Hears (vm : Vm σ) : Prop :=
  0 < vm.flags.ipc ∧ ∃ rig, vm.pressed? = some rig ∧ ∃ key, rig.machine.down key = true

theorem Awaits.rig_hold (h : vm.Awaits x) (key? : Option (Fin Layout.keyCount)) :
    (vm.rig.hold key? true).hooks = .empty ∧ (vm.rig.hold key? true).machine.AwaitsKey x ∧
      (vm.rig.hold key? true).machine.pc ∉ (vm.rig.hold key? true).breakpoints := by
  have hwaited := vm.machine.waited_hold key? true
  refine ⟨h.hooks, h.machine.of_memory hwaited.memory hwaited.pc, ?_⟩
  have hpc : (vm.rig.hold key? true).machine.pc = vm.machine.pc := hwaited.pc
  rw [hpc]
  exact h.unmarked

/-- A cycle that hears no key counts the timers down and is complete. -/
theorem cycle_of_unheard (h : vm.Awaits x) (hunheard : ¬ vm.Hears)
    {key? : Option (Fin Layout.keyCount)} {queue : List Nat} (hpop : Pops vm.queue key? queue) :
    ∃ journal, vm.cycle = (.ok (), { vm with
      rig := { (vm.rig.hold key? true).timed.hold key? false with journal }
      queue, cycles := vm.cycles + 1 }) := by
  obtain ⟨hhooks, hawaits, hunmarked⟩ := h.rig_hold key?
  have hsteps : ∃ journal, Rig.steps vm.flags.ipc (vm.rig.hold key? true) =
      (.ok (), { vm.rig.hold key? true with journal }) := by
    -- A cycle of no steps may press a key, but nobody looks at it.
    obtain hipc | hipc := Nat.eq_zero_or_pos vm.flags.ipc
    · rw [hipc]
      exact ⟨_, rfl⟩
    · apply Rig.steps_awaits _ hhooks hawaits hunmarked
      apply Machine.lowest?_eq_none_iff.mpr
      intro key
      apply Bool.eq_false_iff.mpr
      intro hdown
      exact hunheard ⟨hipc, _, pressed?_of_pops hpop, key, hdown⟩
  obtain ⟨journal, hsteps⟩ := hsteps
  refine ⟨journal, ?_⟩
  rw [cycle_of_pops hpop, hsteps]
  cases key? <;> rfl

/-! ## Nothing held and nothing queued -/

/-- A cycle under each of the flags, one after the other. -/
def cyclesUnder (settings : List Flags) : List Call :=
  settings.flatMap fun flags => [.setFlags flags, .cycle]

theorem cycle_of_idle (h : vm.Awaits x) (hqueue : vm.queue = [])
    (hup : ∀ key, vm.machine.down key = false) : ∃ journal, vm.cycle =
      (.ok (), { vm with
        rig := { vm.rig with machine := vm.machine.aged 1, journal }, cycles := vm.cycles + 1 }) := by
  have hpop : Pops vm.queue none vm.queue := by
    rw [hqueue]
    exact .idle
  have hunheard : ¬ vm.Hears := by
    rintro ⟨-, rig, hpressed, key, hdown⟩
    rw [pressed?_of_pops hpop] at hpressed
    cases hpressed
    exact absurd hdown (ne_true_of_eq_false (hup key))
  obtain ⟨journal, hcycle⟩ := cycle_of_unheard h hunheard hpop
  refine ⟨journal, ?_⟩
  rw [hcycle, ← Machine.timed_eq_aged]
  rfl

theorem session_cyclesUnder (h : vm.Awaits x) (hqueue : vm.queue = [])
    (hup : ∀ key, vm.machine.down key = false) (settings : List Flags) :
    (∀ reply ∈ (vm.session (cyclesUnder settings)).1, reply = .done) ∧
      ∃ journal, (vm.session (cyclesUnder settings)).2 = { vm with
        rig := { vm.rig with machine := vm.machine.aged settings.length, journal }
        flags := settings.getLastD vm.flags
        cycles := vm.cycles + settings.length } := by
  induction settings generalizing vm with
  | nil =>
    refine ⟨by simp [cyclesUnder, session], vm.rig.journal, ?_⟩
    rw [List.length_nil, Machine.aged_zero]
    rfl
  | cons flags settings ih =>
    have hset : ({ vm with flags } : Vm σ).Awaits x := ⟨h.hooks, h.machine, h.unmarked⟩
    obtain ⟨journal, hcycle⟩ := cycle_of_idle hset hqueue hup
    let after : Vm σ := { vm with
      rig := { vm.rig with machine := vm.machine.aged 1, journal }
      flags, cycles := vm.cycles + 1 }
    have hafter : after.Awaits x := ⟨h.hooks, h.machine.of_memory rfl rfl, h.unmarked⟩
    have hsession : vm.session (cyclesUnder (flags :: settings)) =
        (.done :: .done :: (after.session (cyclesUnder settings)).1,
          (after.session (cyclesUnder settings)).2) := by
      change vm.session (.setFlags flags :: .cycle :: cyclesUnder settings) = _
      simp only [session, call, hcycle]
      rfl
    obtain ⟨hreplies, last, hlast⟩ := ih hafter hqueue hup
    rw [hsession]
    constructor
    · intro reply hreply
      obtain rfl | hreply := by simpa using hreply
      · rfl
      · exact hreplies reply hreply
    · refine ⟨last, ?_⟩
      -- The later cycles age a machine that is one cycle older than the first.
      have hmachine : after.machine.aged settings.length =
          vm.machine.aged (flags :: settings).length := by
        rw [List.length_cons, Nat.add_comm]
        exact vm.machine.aged_aged 1 settings.length
      have hcycles : after.cycles + settings.length = vm.cycles + (flags :: settings).length := by
        rw [List.length_cons, Nat.add_assoc, Nat.add_comm 1]
      have hflags : settings.getLastD after.flags = (flags :: settings).getLastD vm.flags :=
        (List.getLastD_cons ..).symm
      rw [hlast, hmachine, hcycles, hflags]

/-! ## Whatever is done meanwhile -/

/-- The program of a virtual machine has gone on waiting, for a number of complete cycles. -/
structure Waits (vm : Vm σ) (count : Nat) (after : Vm σ) : Prop where
  hooks : after.rig.hooks = vm.rig.hooks
  machine : vm.machine.Waited count after.machine
  marked : vm.machine.pc ∈ after.rig.breakpoints → vm.machine.pc ∈ vm.rig.breakpoints
  cycles : after.cycles = vm.cycles + count

theorem Waits.trans {middle last : Vm σ} {first later : Nat} (h : vm.Waits first middle)
    (hlater : middle.Waits later last) : vm.Waits (first + later) last where
  hooks := hlater.hooks.trans h.hooks
  machine := h.machine.trans hlater.machine
  marked hmarked := by
    apply h.marked
    rw [← h.machine.pc] at hmarked ⊢
    exact hlater.marked hmarked
  cycles := by rw [hlater.cycles, h.cycles, Nat.add_assoc]

theorem Waits.awaits {after : Vm σ} {count : Nat} (hwaits : vm.Waits count after)
    (h : vm.Awaits x) : after.Awaits x where
  hooks := hwaits.hooks.trans h.hooks
  machine := h.machine.of_memory hwaits.machine.memory hwaits.machine.pc
  unmarked hmarked := by
    rw [hwaits.machine.pc] at hmarked
    exact h.unmarked (hwaits.marked hmarked)

/-- A call that lets the program wait: it loads nothing, does not switch the machine off, sets no
breakpoint where the program stands, and hears no key if it runs a cycle. -/
def LetsWait (vm : Vm σ) : Call → Prop
  | .loadRom _ | .loadRomFile .. | .loadProfile .. | .reset => False
  | .setBreak addr => addr ≠ vm.machine.pc
  | .cycle | .nextFrame => ¬ vm.Hears
  | _ => True

theorem waits_cycle (h : vm.Awaits x) (hunheard : ¬ vm.Hears) :
    ∃ count, vm.Waits count vm.cycle.2 := by
  obtain ⟨key?, queue, hpop⟩ | ⟨key, queue, hqueue, hkey⟩ := pops_or_refused vm.queue
  · obtain ⟨journal, hcycle⟩ := cycle_of_unheard h hunheard hpop
    rw [hcycle]
    have hpressed := vm.machine.waited_hold key? true
    have htimed := hpressed.trans (Machine.waited_timed _)
    have hreleased := htimed.trans (Machine.waited_hold _ key? false)
    exact ⟨1, rfl, hreleased, id, rfl⟩
  · rw [cycle_of_refused hqueue hkey]
    exact ⟨0, rfl, vm.machine.waited_refl, id, rfl⟩

theorem waits_frame (vm : Vm σ) : vm.Waits 0 vm.frame.2 := by
  unfold frame
  cases vm.readVariables with
  | error e => exact ⟨rfl, vm.machine.waited_refl, id, rfl⟩
  | ok values => exact ⟨rfl, vm.machine.waited_takeOutputChanged, id, rfl⟩

theorem waits_nextFrame (h : vm.Awaits x) (hunheard : ¬ vm.Hears) :
    ∃ count, vm.Waits count vm.nextFrame.2 := by
  obtain ⟨count, hcycle⟩ := waits_cycle h hunheard
  refine ⟨count, ?_⟩
  unfold nextFrame
  match hafter : vm.cycle with
  | (.ok (), after) =>
    rw [hafter] at hcycle
    exact hcycle.trans after.waits_frame
  | (.error e, after) =>
    rw [hafter] at hcycle
    exact hcycle

theorem waits_setKey (vm : Vm σ) (key : Nat) (down : Bool) :
    vm.Waits 0 (vm.setKey key down).2 := by
  unfold setKey
  obtain hkey | hkey := Nat.lt_or_ge key Layout.keyCount
  · have hset := Machine.setKey_fin vm.machine ⟨key, hkey⟩ down
    simp only [hset]
    exact ⟨rfl, vm.machine.waited_hold (some ⟨key, hkey⟩) down, id, rfl⟩
  · rw [Machine.setKey_eq_error hkey]
    exact ⟨rfl, vm.machine.waited_refl, id, rfl⟩

theorem waits_takeAction (vm : Vm σ) (action : Nat) :
    vm.Waits 0 (vm.takeAction action).2 := by
  match vm.takeAction action, vm.takeAction_end action with
  | (_, _), .idle | (_, _), .queued _ _ | (_, _), .refused _ _ =>
    exact ⟨rfl, vm.machine.waited_refl, id, rfl⟩

theorem waits_setBreak (vm : Vm σ) {addr : UInt16} (haddr : addr ≠ vm.machine.pc) :
    vm.Waits 0 { vm with rig := vm.rig.setBreak addr } := by
  unfold Rig.setBreak
  split
  · exact ⟨rfl, vm.machine.waited_refl, id, rfl⟩
  · refine ⟨rfl, vm.machine.waited_refl, ?_, rfl⟩
    intro hmarked
    obtain hold | hnew := List.mem_append.mp hmarked
    · exact hold
    · exact absurd (List.mem_singleton.mp hnew).symm haddr

theorem waits_call (h : vm.Awaits x) {call : Call} (hcall : vm.LetsWait call) :
    ∃ count, vm.Waits count (vm.call call).2 := by
  cases call with
  | loadRom | loadRomFile | loadProfile | reset => cases hcall
  | setProfile | setFlags | readVariable => exact ⟨0, rfl, vm.machine.waited_refl, id, rfl⟩
  | setBreak addr => exact ⟨0, vm.waits_setBreak hcall⟩
  | unsetBreak addr =>
    refine ⟨0, rfl, vm.machine.waited_refl, ?_, rfl⟩
    intro hmarked
    exact (List.mem_filter.mp hmarked).1
  | setKey key down => exact ⟨0, vm.waits_setKey key down⟩
  | takeAction action => exact ⟨0, vm.waits_takeAction action⟩
  | cycle => exact waits_cycle h hcall
  | frame => exact ⟨0, vm.waits_frame⟩
  | nextFrame => exact waits_nextFrame h hcall
  | takeOutputChanged => exact ⟨0, rfl, vm.machine.waited_takeOutputChanged, id, rfl⟩

/-- A session whose calls all let the program wait. -/
def Unheard : List Call → Vm σ → Prop
  | [], _ => True
  | call :: calls, vm => vm.LetsWait call ∧ Unheard calls (vm.call call).2

theorem waits_session (h : vm.Awaits x) {calls : List Call} (hcalls : vm.Unheard calls) :
    ∃ count, vm.Waits count (vm.session calls).2 := by
  induction calls generalizing vm with
  | nil => exact ⟨0, rfl, vm.machine.waited_refl, id, rfl⟩
  | cons call calls ih =>
    obtain ⟨hcall, hcalls⟩ := hcalls
    obtain ⟨first, hfirst⟩ := waits_call h hcall
    obtain ⟨later, hlater⟩ := ih (hfirst.awaits h) hcalls
    exact ⟨first + later, hfirst.trans hlater⟩

/-! ## The first key -/

/-- The next cycle begins with a step that takes a key into a register and goes on behind the
instruction. The key is the lowest of those that are held down by hand or pressed by the cycle. -/
structure Takes (vm : Vm σ) (x : Reg) (rig : Rig σ) (key : Fin Layout.keyCount) : Prop where
  pressed : vm.pressed? = some rig
  lines : ∀ other, rig.machine.down other = true ↔
    vm.machine.down other = true ∨ vm.queue.head? = some other.val
  down : rig.machine.down key = true
  least : ∀ other, rig.machine.down other = true → key ≤ other
  first : vm.cycleVisited.head? = some rig.machine
  behind : (rig.machine.pc + 2).toNat = rig.machine.pc.toNat + 2
  /-- This step is what the cycle does before the rest of its steps, and then it closes. -/
  ran : ∃ key? rest journal, Pops vm.queue key? rest ∧ rig = vm.rig.hold key? true ∧
    rig.step = ({ rig with machine := rig.machine.taking x key, journal } : Rig σ).checkBreak ∧
    vm.cycle = vm.close key? rest (rig.step.andThen (Rig.steps (vm.flags.ipc - 1)))
  /-- A cycle of this one step leaves the key in the register. -/
  alone : vm.flags.ipc = 1 → vm.cycle.2.machine.v = rig.machine.v.set x (UInt8.ofNat key) ∧
    vm.cycle.2.machine.pc = rig.machine.pc + 2

theorem waited_close (vm : Vm σ) (key? : Option (Fin Layout.keyCount)) (rest : List Nat)
    (outcome : Outcome (Rig σ)) :
    ∃ count, outcome.2.machine.Waited count (vm.close key? rest outcome).2.machine := by
  match outcome with
  | (.ok (), last) =>
    exact ⟨1, last.machine.waited_timed.trans (Machine.waited_hold _ key? false)⟩
  | (.error e, last) => exact ⟨0, last.machine.waited_hold key? false⟩

theorem cycle_of_first {key? : Option (Fin Layout.keyCount)} {rest : List Nat}
    (hpop : Pops vm.queue key? rest) (hipc : 0 < vm.flags.ipc) : vm.cycle = vm.close key? rest
      ((vm.rig.hold key? true).step.andThen (Rig.steps (vm.flags.ipc - 1))) := by
  obtain ⟨count, hcount⟩ := Nat.exists_eq_add_of_lt hipc
  rw [Nat.zero_add] at hcount
  rw [cycle_of_pops hpop, hcount]
  rfl

theorem head?_cycleVisited {key? : Option (Fin Layout.keyCount)} {rest : List Nat}
    (hpop : Pops vm.queue key? rest) (hipc : 0 < vm.flags.ipc) :
    vm.cycleVisited.head? = some (vm.rig.hold key? true).machine := by
  obtain ⟨count, hcount⟩ := Nat.exists_eq_add_of_lt hipc
  rw [Nat.zero_add] at hcount
  rw [cycleVisited_of_pops hpop, hcount]
  rfl

theorem down_of_pops {key? : Option (Fin Layout.keyCount)} {rest : List Nat}
    (hpop : Pops vm.queue key? rest) (other : Fin Layout.keyCount) :
    (vm.rig.hold key? true).machine.down other = true ↔
      vm.machine.down other = true ∨ vm.queue.head? = some other.val := by
  rw [Rig.down_hold, head?_of_pops hpop]
  cases key? with
  | none => simp [machine]
  | some key => simp [machine, Fin.ext_iff, or_comm]

/-- The end of a cycle touches no register and stays where the last step was. -/
theorem close_of_machine {key? : Option (Fin Layout.keyCount)} {rest : List Nat}
    {outcome : Outcome (Rig σ)} {last : Machine} (hlast : outcome.2.machine = last) :
    (vm.close key? rest outcome).2.machine.v = last.v ∧
      (vm.close key? rest outcome).2.machine.pc = last.pc := by
  obtain ⟨count, hwaited⟩ := vm.waited_close key? rest outcome
  rw [hlast] at hwaited
  exact ⟨hwaited.v, hwaited.pc⟩

theorem takes_of_hears (h : vm.Awaits x) (hhears : vm.Hears) :
    ∃ rig key, vm.Takes x rig key ∧ vm.machine.Waited 0 rig.machine := by
  obtain ⟨hipc, rig, hpressed, held, hheld⟩ := hhears
  obtain ⟨key?, queue, hpop⟩ | ⟨key, queue, hqueue, hkey⟩ := pops_or_refused vm.queue
  · obtain ⟨hhooks, hawaits, -⟩ := h.rig_hold key?
    rw [pressed?_of_pops hpop] at hpressed
    cases hpressed
    obtain ⟨key, hlowest⟩ : ∃ key, (vm.rig.hold key? true).machine.keypad.lowest? = some key := by
      apply Option.ne_none_iff_exists'.mp
      intro hnone
      exact absurd hheld (ne_true_of_eq_false (Machine.lowest?_eq_none_iff.mp hnone held))
    obtain ⟨hdown, hleast⟩ := Machine.least_of_lowest? hlowest
    obtain ⟨journal, hstep⟩ := Rig.step_awaits hhooks hawaits (hawaits.step_of_some hlowest)
    have hcycle := cycle_of_first hpop hipc
    refine ⟨vm.rig.hold key? true, key, ?_, vm.machine.waited_hold key? true⟩
    constructor
    case pressed => exact pressed?_of_pops hpop
    case lines => exact down_of_pops hpop
    case down => exact hdown
    case least => exact hleast
    case first => exact head?_cycleVisited hpop hipc
    case behind =>
      have hle := hawaits.pc_le
      rw [UInt16.toNat_add]
      simp
      omega
    case ran => exact ⟨key?, queue, journal, hpop, rfl, hstep, hcycle⟩
    case alone =>
      intro hone
      have hlast : ((vm.rig.hold key? true).step.andThen
          (Rig.steps (vm.flags.ipc - 1))).2.machine =
            (vm.rig.hold key? true).machine.taking x key := by
        rw [hone, hstep, Rig.checkBreak]
        split <;> rfl
      rw [hcycle]
      exact close_of_machine hlast
  · rw [pressed?_of_refused hqueue hkey] at hpressed
    cases hpressed

/-- How a program waits for a key, and what ends it. -/
structure WaitsForKey (vm : Vm σ) (x : Reg) : Prop where
  /-- Where no key is down and none is queued, cycles of all lengths are complete. They move nothing
  but the timers, the count of cycles and the journal. -/
  still : vm.queue = [] → (∀ key, vm.machine.down key = false) → ∀ settings : List Flags,
    (∀ reply ∈ (vm.session (cyclesUnder settings)).1, reply = .done) ∧
      ∃ journal, (vm.session (cyclesUnder settings)).2 = { vm with
        rig := { vm.rig with machine := vm.machine.aged settings.length, journal }
        flags := settings.getLastD vm.flags
        cycles := vm.cycles + settings.length }
  /-- After any session that lets the program wait, the first cycle that hears a key takes the
  lowest. -/
  ended : ∀ calls, vm.Unheard calls → (vm.session calls).2.Hears →
    ∃ rig key count, (vm.session calls).2.Takes x rig key ∧
      (vm.session calls).2.cycles = vm.cycles + count ∧ vm.machine.Waited count rig.machine

theorem awaits_key (h : vm.Awaits x) : vm.WaitsForKey x where
  still hqueue hup settings := session_cyclesUnder h hqueue hup settings
  ended calls hcalls hhears := by
    obtain ⟨count, hwaits⟩ := waits_session h hcalls
    obtain ⟨rig, key, htakes, hwaited⟩ := takes_of_hears (hwaits.awaits h) hhears
    exact ⟨rig, key, count, htakes, hwaits.cycles, hwaits.machine.trans hwaited⟩

/-- Waits for a key in register 1. -/
def listening : Vm Unit :=
  ofRig ⟨false, 1, 60⟩ { Rig.powerOn ⟨fun _ => 0, 0⟩ () (.empty .off) with
    machine := { Machine.powerOn with
      memory := Memory.powerOn.overlay Layout.programStart [0xf1, 0x0a] } }

/-- One cycle too early, and then one key by hand and a lower one by an action. -/
def twoKeys : List Call :=
  [.cycle, .setKey 9 true, .setProfile ⟨"", .empty, some [4]⟩, .takeAction 1]

theorem lower_key_taken : listening.Awaits 1 ∧ listening.Unheard twoKeys ∧
    (listening.session twoKeys).2.Hears ∧
    (∃ rig, (listening.session twoKeys).2.Takes 1 rig 4 ∧ rig.machine.pc = 0x200) ∧
    (listening.session twoKeys).2.cycle.2.machine.v.get 1 = 4 ∧
    (listening.session twoKeys).2.cycle.2.machine.pc = 0x202 := by
  have hword : listening.machine.memory.readWord 0x200 = .ok 0xf10a :=
    Memory.readWord_overlay Memory.powerOn Layout.programStart 0xf1 0x0a [] (by decide)
  have hawaits : listening.Awaits 1 := ⟨rfl, ⟨0xf10a, ⟨hword, rfl⟩, rfl⟩, List.not_mem_nil⟩
  have hunheard : listening.Unheard twoKeys := by
    refine ⟨?_, trivial, trivial, trivial, trivial⟩
    rintro ⟨-, rig, hpressed, key, hdown⟩
    have hup : ∀ key, listening.rig.machine.down key = false := by decide +kernel
    obtain rfl := Option.some.inj hpressed
    exact absurd hdown (ne_true_of_eq_false (hup key))
  obtain ⟨hipc, hqueue, hheld⟩ : (listening.session twoKeys).2.flags.ipc = 1 ∧
      (listening.session twoKeys).2.queue = [4] ∧
      ∀ key, (listening.session twoKeys).2.machine.down key = true ↔ key = 9 := by
    decide +kernel
  have hhears : (listening.session twoKeys).2.Hears := by
    have hpop : Pops (listening.session twoKeys).2.queue (some 4) [] := by
      rw [hqueue]
      exact .front 4 []
    refine ⟨hipc ▸ Nat.one_pos, _, pressed?_of_pops hpop, 4, ?_⟩
    rw [Rig.down_hold, if_pos rfl]
  obtain ⟨-, hended⟩ := awaits_key hawaits
  obtain ⟨rig, key, count, htakes, -, hwaited⟩ := hended twoKeys hunheard hhears
  have hdown : ∀ other, rig.machine.down other = true ↔ other = 9 ∨ other = 4 := by
    intro other
    rw [htakes.lines, hheld, hqueue]
    revert other
    decide
  have hle : key ≤ 4 := htakes.least 4 ((hdown 4).mpr (.inr rfl))
  obtain rfl | rfl := (hdown key).mp htakes.down
  · exact absurd hle (by decide)
  · have hpc : rig.machine.pc = 0x200 := hwaited.pc
    obtain ⟨hv, hafter⟩ := htakes.alone hipc
    refine ⟨hawaits, hunheard, hhears, ⟨rig, htakes, hpc⟩, ?_, ?_⟩
    · rw [hv, Registers.get_set, if_pos rfl]
      rfl
    · rw [hafter, hpc]
      rfl

end Vm

end Chip8
