import Chip8.Vm

/-! # What a cycle comes to

A cycle refuses a key that does not exist, or it runs all of its steps, or it stops at the first
step that fails. `Vm.CycleEnd` says of each of these three ends what is answered and what is left
behind, whatever is hooked and wherever breakpoints are set.
-/

namespace Chip8

namespace Machine

def hold (m : Machine) (key? : Option (Fin Layout.keyCount)) (down : Bool) : Machine :=
  match key? with
  | some key => { m with keypad := ⟨m.keypad.lines.set key.val down key.isLt⟩ }
  | none => m

def down (m : Machine) (key : Fin Layout.keyCount) : Bool := m.keypad.lines.get key

theorem ext_down {m next : Machine} :
    next.keypad = m.keypad ↔ ∀ key, next.down key = m.down key := by
  constructor
  · intro h key
    rw [down, down, h]
  · intro h
    have hlines : next.keypad.lines = m.keypad.lines := Vector.ext fun i hi => h ⟨i, hi⟩
    exact congrArg Keypad.mk hlines

theorem line_fin (m : Machine) (key : Fin Layout.keyCount) :
    m.keypad.line key = .ok (m.down key) :=
  dif_pos key.isLt

theorem keypad_set_fin (m : Machine) (key : Fin Layout.keyCount) (down : Bool) :
    m.keypad.set key down = .ok (m.hold (some key) down).keypad :=
  dif_pos key.isLt

theorem down_hold (m : Machine) (key? : Option (Fin Layout.keyCount)) (down : Bool)
    (key : Fin Layout.keyCount) :
    (m.hold key? down).down key = if key? = some key then down else m.down key := by
  cases key? with
  | none => rfl
  | some other =>
    have hline := Keypad.line_set (m.keypad_set_fin other down) key
    rw [line_fin, line_fin, ← apply_ite Except.ok, Except.ok.injEq] at hline
    rw [hline]
    simp [Fin.ext_iff, eq_comm]

/-- Both timers one less, but never below zero. The output changes if the buzzer falls silent. -/
def timed (m : Machine) : Machine :=
  { m with
    delay := UInt8.ofNat (m.delay.toNat - 1)
    sound := UInt8.ofNat (m.sound.toNat - 1)
    soundChanged := m.soundChanged || m.sound = 1 }

theorem countDown_eq (timer : UInt8) : countDown timer = UInt8.ofNat (timer.toNat - 1) := by
  unfold countDown
  split
  case isTrue h => subst h; rfl
  case isFalse h =>
    have hpos : timer.toNat ≠ 0 := fun h0 => h (UInt8.toNat.inj h0)
    have hlt := timer.toNat_lt
    apply UInt8.toNat.inj
    rw [UInt8.toNat_sub, UInt8.toNat_ofNat']
    simp
    omega

theorem tickTimers_eq (m : Machine) : m.tickTimers = m.timed := by
  have hquiet : (m.buzzer != (countDown m.sound != 0)) = decide (m.sound = 1) := by
    unfold buzzer countDown
    by_cases hzero : m.sound = 0
    · simp [hzero]
    by_cases hone : m.sound = 1
    · simp [hone]
    · have hmore : m.sound - 1 ≠ 0 := fun h => hone (by grind)
      rw [if_neg hzero, decide_eq_false hone, bne_iff_ne.mpr hzero, bne_iff_ne.mpr hmore]
      rfl
  unfold tickTimers setSound timed
  rw [countDown_eq m.delay, ← countDown_eq m.sound]
  exact congrArg (fun flag => { m with
    delay := UInt8.ofNat (m.delay.toNat - 1)
    sound := countDown m.sound
    soundChanged := m.soundChanged || flag }) hquiet

theorem setKey_fin (m : Machine) (key : Fin Layout.keyCount) (down : Bool) :
    m.setKey key down = .ok (m.hold (some key) down) := by
  simp only [setKey, keypad_set_fin, bind, Except.bind, pure, Except.pure]
  rfl

theorem setKey_eq_error {m : Machine} {key : Nat} (hkey : Layout.keyCount ≤ key) (down : Bool) :
    m.setKey key down = .error (.invalidKey key) := by
  simp [setKey, Keypad.set, Nat.not_lt.mpr hkey, bind, Except.bind]

end Machine

namespace Rig

variable {σ : Type}

def hold (rig : Rig σ) (key? : Option (Fin Layout.keyCount)) (down : Bool) : Rig σ :=
  { rig with machine := rig.machine.hold key? down }

def timed (rig : Rig σ) : Rig σ := { rig with machine := rig.machine.timed }

/-- A number of steps that succeed one after the other. -/
inductive Run : Nat → Rig σ → Rig σ → Prop
  | nil (rig : Rig σ) : Run 0 rig rig
  | cons {rig next last : Rig σ} {count : Nat} (hstep : rig.step = (.ok (), next))
      (hrun : Run count next last) : Run (count + 1) rig last

theorem steps_eq_ok_iff {count : Nat} {rig last : Rig σ} :
    steps count rig = (.ok (), last) ↔ Run count rig last := by
  induction count generalizing rig with
  | zero =>
    constructor
    · intro h
      cases h
      exact .nil _
    · intro h
      cases h
      rfl
  | succ count ih =>
    constructor
    · intro h
      rw [steps] at h
      match hstep : rig.step with
      | (.ok (), next) =>
        rw [hstep, Outcome.ok_andThen] at h
        exact .cons hstep (ih.mp h)
      | (.error e, next) => rw [hstep] at h; cases h
    · intro h
      cases h with
      | cons hstep hrun => rw [steps, hstep, Outcome.ok_andThen, ih.mpr hrun]

theorem steps_eq_error_iff {count : Nat} {rig last : Rig σ} {e : Error} :
    steps count rig = (.error e, last) ↔
      ∃ done before, done < count ∧ Run done rig before ∧ before.step = (.error e, last) := by
  induction count generalizing rig with
  | zero => simp [steps]
  | succ count ih =>
    constructor
    · intro h
      rw [steps] at h
      match hstep : rig.step with
      | (.ok (), next) =>
        rw [hstep, Outcome.ok_andThen] at h
        obtain ⟨done, before, hdone, hrun, hfail⟩ := ih.mp h
        exact ⟨done + 1, before, Nat.succ_lt_succ hdone, .cons hstep hrun, hfail⟩
      | (.error other, next) =>
        rw [hstep, Outcome.error_andThen] at h
        exact ⟨0, rig, Nat.succ_pos count, .nil _, hstep.trans h⟩
    · rintro ⟨done, before, hdone, hrun, hfail⟩
      cases hrun with
      | nil => rw [steps, hfail, Outcome.error_andThen]
      | cons hstep hrun =>
        rw [steps, hstep, Outcome.ok_andThen]
        exact ih.mpr ⟨_, before, Nat.lt_of_succ_lt_succ hdone, hrun, hfail⟩

end Rig

namespace Vm

variable {σ : Type}

/-- What a cycle takes from the queue: the key at its front, if there is one. -/
inductive Pops : List Nat → Option (Fin Layout.keyCount) → List Nat → Prop
  | idle : Pops [] none []
  | front (key : Fin Layout.keyCount) (queue : List Nat) : Pops (key.val :: queue) (some key) queue

/-- How a cycle goes on when its steps have come to an end: the timers count down if none of them
failed, and the key is let go in any case. -/
def close (vm : Vm σ) (key? : Option (Fin Layout.keyCount)) (queue : List Nat) :
    Outcome (Rig σ) → Outcome (Vm σ)
  | (.ok (), last) =>
    (.ok (), { vm with rig := last.timed.hold key? false, queue, cycles := vm.cycles + 1 })
  | (.error e, last) => (.error e, { vm with rig := last.hold key? false, queue })

/-- The three ends of a cycle, each with what it answers and what it leaves. -/
inductive CycleEnd (vm : Vm σ) : Except Error Unit → Vm σ → Prop
  /-- The key at the front does not exist. It is gone, and nothing else has happened. -/
  | refused {key : Nat} {queue : List Nat} (hqueue : vm.queue = key :: queue)
      (hkey : Layout.keyCount ≤ key) : CycleEnd vm (.error (.invalidKey key)) { vm with queue }
  /-- Every step succeeds with the key held down. The timers count down once, the key is let go,
  and the cycle counts. -/
  | complete {key? : Option (Fin Layout.keyCount)} {queue : List Nat} {last : Rig σ}
      (hpop : Pops vm.queue key? queue) (hrun : Rig.Run vm.flags.ipc (vm.rig.hold key? true) last) :
      CycleEnd vm (.ok ())
        { vm with rig := last.timed.hold key? false, queue, cycles := vm.cycles + 1 }
  /-- After some steps with the key held down one fails. Only the key is let go. -/
  | stopped {key? : Option (Fin Layout.keyCount)} {queue : List Nat} {done : Nat}
      {before last : Rig σ} {e : Error} (hpop : Pops vm.queue key? queue)
      (hdone : done < vm.flags.ipc) (hrun : Rig.Run done (vm.rig.hold key? true) before)
      (hstep : before.step = (.error e, last)) :
      CycleEnd vm (.error e) { vm with rig := last.hold key? false, queue }

theorem pops_or_refused (queue : List Nat) : (∃ key? rest, Pops queue key? rest) ∨
    ∃ key rest, queue = key :: rest ∧ Layout.keyCount ≤ key := by
  cases queue with
  | nil => exact .inl ⟨none, [], .idle⟩
  | cons key rest =>
    obtain hkey | hkey := Nat.lt_or_ge key Layout.keyCount
    · exact .inl ⟨some ⟨key, hkey⟩, rest, .front ⟨key, hkey⟩ rest⟩
    · exact .inr ⟨key, rest, rfl, hkey⟩

theorem cycle_of_refused {vm : Vm σ} {key : Nat} {queue : List Nat}
    (hqueue : vm.queue = key :: queue) (hkey : Layout.keyCount ≤ key) :
    vm.cycle = (.error (.invalidKey key), { vm with queue }) := by
  simp [cycle, hqueue, setKey, Machine.setKey_eq_error hkey]

theorem cycle_of_pops {vm : Vm σ} {key? : Option (Fin Layout.keyCount)} {queue : List Nat}
    (hpop : Pops vm.queue key? queue) :
    vm.cycle = vm.close key? queue (Rig.steps vm.flags.ipc (vm.rig.hold key? true)) := by
  obtain ⟨rig, flags, profile, before, cycles⟩ := vm
  cases hpop with
  | idle =>
    simp only [cycle, burst, Rig.hold, Machine.hold]
    cases Rig.steps flags.ipc rig with
    | mk result last =>
      cases result with
      | error e => rfl
      | ok _ => simp [close, countCycle, Rig.timed, Rig.hold, Machine.hold, Machine.tickTimers_eq]
  | front key queue =>
    simp only [cycle, setKey, machine, setMachine, Machine.setKey_fin, Outcome.ok_andThen, burst,
      Rig.hold]
    cases Rig.steps flags.ipc { rig with machine := rig.machine.hold (some key) true } with
    | mk result last =>
      cases result with
      | error e => rfl
      | ok _ => simp [close, countCycle, Rig.timed, Rig.hold, Machine.tickTimers_eq]

theorem cycle_of_run {vm : Vm σ} {key? : Option (Fin Layout.keyCount)} {queue : List Nat}
    {last : Rig σ} (hpop : Pops vm.queue key? queue)
    (hrun : Rig.Run vm.flags.ipc (vm.rig.hold key? true) last) : vm.cycle =
      (.ok (), { vm with rig := last.timed.hold key? false, queue, cycles := vm.cycles + 1 }) := by
  rw [cycle_of_pops hpop, Rig.steps_eq_ok_iff.mpr hrun, close]

theorem cycle_of_fail {vm : Vm σ} {key? : Option (Fin Layout.keyCount)} {queue : List Nat}
    {done : Nat} {before last : Rig σ} {e : Error} (hpop : Pops vm.queue key? queue)
    (hdone : done < vm.flags.ipc) (hrun : Rig.Run done (vm.rig.hold key? true) before)
    (hstep : before.step = (.error e, last)) :
    vm.cycle = (.error e, { vm with rig := last.hold key? false, queue }) := by
  have hsteps : Rig.steps vm.flags.ipc (vm.rig.hold key? true) = (.error e, last) :=
    Rig.steps_eq_error_iff.mpr ⟨done, before, hdone, hrun, hstep⟩
  rw [cycle_of_pops hpop, hsteps, close]

/-- A cycle has exactly one of the three ends, whatever is hooked. -/
theorem cycle_eq_iff {vm after : Vm σ} {result : Except Error Unit} :
    vm.cycle = (result, after) ↔ CycleEnd vm result after := by
  constructor
  · intro hcycle
    obtain ⟨key?, queue, hpop⟩ | ⟨key, queue, hqueue, hkey⟩ := pops_or_refused vm.queue
    · match hsteps : Rig.steps vm.flags.ipc (vm.rig.hold key? true) with
      | (.ok (), last) =>
        have hrun := Rig.steps_eq_ok_iff.mp hsteps
        rw [cycle_of_run hpop hrun] at hcycle
        cases hcycle
        exact .complete hpop hrun
      | (.error e, last) =>
        obtain ⟨done, before, hdone, hrun, hstep⟩ := Rig.steps_eq_error_iff.mp hsteps
        rw [cycle_of_fail hpop hdone hrun hstep] at hcycle
        cases hcycle
        exact .stopped hpop hdone hrun hstep
    · rw [cycle_of_refused hqueue hkey] at hcycle
      cases hcycle
      exact .refused hqueue hkey
  · intro hend
    cases hend with
    | refused hqueue hkey => exact cycle_of_refused hqueue hkey
    | complete hpop hrun => exact cycle_of_run hpop hrun
    | stopped hpop hdone hrun hstep => exact cycle_of_fail hpop hdone hrun hstep

end Vm

end Chip8
