import Chip8.Proofs.Exec
import Chip8.Rig

/-! # Steps without hooks

Where nothing is hooked, a step of a rig is a step of its machine and then a look at the
breakpoints. `Machine.step` is the step of the machine alone, and `Rig.visited` gives the machines
at which the steps of a run begin. What every step keeps, every run keeps.
-/

namespace Chip8

namespace Machine

/-- Runs the instruction at the program counter where nothing is hooked and no breakpoint is set.
A word that is no instruction is skipped. -/
def step (m : Machine) (roll : UInt8) : Outcome Machine :=
  match m.fetch with
  | .error e => (.error e, m)
  | .ok (word, fetched) =>
    match Instr.decode? word with
    | none => (.ok (), fetched)
    | some instr =>
      match fetched.exec roll instr with
      | .ok next => (.ok (), next)
      | .error e => (.error e, fetched)

def rolls (m : Machine) : Bool :=
  match m.fetch with
  | .error _ => false
  | .ok (word, _) => Opcode.decode? word = some .random

def fetched (m : Machine) : Machine :=
  { m with pc := m.pc + UInt16.ofNat Layout.instructionSize }

theorem fetch_eq_ok_iff {m next : Machine} {word : UInt16} :
    m.fetch = .ok (word, next) ↔ m.memory.readWord m.pc.toNat = .ok word ∧ m.fetched = next := by
  unfold fetch fetched
  rw [bind_eq_ok]
  constructor
  · rintro ⟨value, hvalue, hnext⟩
    cases hnext
    exact ⟨hvalue, rfl⟩
  · rintro ⟨hword, rfl⟩
    exact ⟨word, hword, rfl⟩

/-- A step that fetches an instruction keeps what fetching keeps and what the instruction keeps. -/
theorem step_induction {P : Machine → Prop} {m : Machine} {roll : UInt8}
    (hfetch : ∀ word, m.fetch = .ok (word, m.fetched) → P m.fetched)
    (hexec : ∀ word instr next, m.fetch = .ok (word, m.fetched) → Instr.decode? word = some instr →
      m.fetched.exec roll instr = .ok next → P next) (hm : P m) : P (m.step roll).2 := by
  unfold step
  cases hword : m.fetch with
  | error e => exact hm
  | ok result =>
    obtain ⟨word, next⟩ := result
    obtain ⟨-, rfl⟩ := fetch_eq_ok_iff.mp hword
    have hfetched := hfetch word hword
    cases hinstr : Instr.decode? word with
    | none => simpa [hinstr] using hfetched
    | some instr =>
      cases hnext : m.fetched.exec roll instr with
      | error e => simpa [hinstr, hnext] using hfetched
      | ok next => simpa [hinstr, hnext] using hexec word instr next hword hinstr hnext

end Machine

namespace Rig

variable {σ : Type}

@[simp]
theorem checkBreak_snd (rig : Rig σ) : rig.checkBreak.2 = rig := by
  simp only [checkBreak]
  split <;> rfl

def stepped (rig : Rig σ) (journal : Journal) : Rig σ :=
  { rig with
    machine := (rig.machine.step rig.dice.top).2
    dice := if rig.machine.rolls then rig.dice.next else rig.dice
    journal }

/-- Without hooks a step of a rig is the step of its machine and then a look at the breakpoints. -/
theorem step_eq {rig : Rig σ} (hhooks : rig.hooks = .empty) : ∃ journal, rig.step =
    Outcome.andThen ((rig.machine.step rig.dice.top).1, rig.stepped journal) checkBreak := by
  unfold step stepped Machine.step Machine.rolls
  cases hword : rig.machine.fetch with
  | error e => exact ⟨rig.journal, rfl⟩
  | ok result =>
    obtain ⟨word, fetched⟩ := result
    have hdecode := Instr.map_opcode_decode? word
    simp only [execute, record, hhooks, HookTable.hook?_empty]
    cases hinstr : Instr.decode? word with
    | none =>
      rw [hinstr, Option.map_none] at hdecode
      exact ⟨_, by simp [← hdecode]; rfl⟩
    | some instr =>
      rw [hinstr, Option.map_some] at hdecode
      simp only [runInstr]
      cases hnext : fetched.exec rig.dice.top instr with
      | ok next =>
        refine ⟨rig.journal.record (.executing rig.machine.pc word), ?_⟩
        simp [← hdecode]
      | error e =>
        refine ⟨rig.journal.record (.executing rig.machine.pc word), ?_⟩
        have hrandom : instr.opcode ≠ .random := by
          intro hop
          cases instr <;> simp [Instr.opcode, Machine.exec] at hop hnext
        cases e with
        | unknownOpcode other => exact absurd hnext (Machine.exec_ne_unknownOpcode _ _ _ _)
        | _ => simp [← hdecode, hrandom]

theorem step_eq_stepped {rig : Rig σ} (hhooks : rig.hooks = .empty) :
    ∃ result journal, rig.step = (result, rig.stepped journal) := by
  obtain ⟨journal, hstep⟩ := step_eq hhooks
  refine ⟨rig.step.1, journal, Prod.ext rfl ?_⟩
  rw [hstep]
  cases hresult : (rig.machine.step rig.dice.top).1 with
  | error e => rfl
  | ok _ => exact checkBreak_snd _

/-! ## Runs -/

/-- The rigs at which the steps of a run begin, one for each step, the one that fails included. -/
def starts : Nat → Rig σ → List (Rig σ)
  | 0, _ => []
  | count + 1, rig =>
    rig ::
      match rig.step with
      | (.ok (), next) => starts count next
      | (.error _, _) => []

/-- The machines at which the steps of a run begin. -/
def visited (count : Nat) (rig : Rig σ) : List Machine := (starts count rig).map machine

theorem visited_zero (rig : Rig σ) : visited 0 rig = [] := rfl

theorem visited_succ (count : Nat) (rig : Rig σ) : visited (count + 1) rig =
    rig.machine ::
      match rig.step with
      | (.ok (), next) => visited count next
      | (.error _, _) => [] := by
  rw [visited, starts, List.map_cons]
  obtain ⟨e | ⟨⟩, next⟩ := rig.step <;> rfl

/-- Where a rig stands after a number of steps that go on whether or not they fail. -/
def walk (rig : Rig σ) : Nat → Rig σ
  | 0 => rig
  | count + 1 => (walk rig count).step.2

theorem hooks_walk {rig : Rig σ} (hhooks : rig.hooks = .empty) (count : Nat) :
    (rig.walk count).hooks = .empty := by
  induction count with
  | zero => exact hhooks
  | succ count ih =>
    obtain ⟨result, journal, hstep⟩ := step_eq_stepped ih
    rw [walk, hstep]
    exact ih

/-- A run without hooks moves nothing but the machine, the dice and the journal. -/
theorem steps_frame (count : Nat) {rig : Rig σ} (hhooks : rig.hooks = .empty) :
    ∃ machine dice journal, (steps count rig).2 = { rig with machine, dice, journal } := by
  induction count generalizing rig with
  | zero => exact ⟨rig.machine, rig.dice, rig.journal, rfl⟩
  | succ count ih =>
    obtain ⟨result, journal, hstep⟩ := step_eq_stepped hhooks
    rw [steps, hstep]
    cases result with
    | error e => exact ⟨_, _, journal, rfl⟩
    | ok _ => exact ih hhooks

theorem hooks_steps (count : Nat) {rig : Rig σ} (hhooks : rig.hooks = .empty) :
    (steps count rig).2.hooks = .empty := by
  obtain ⟨machine, dice, journal, hlast⟩ := steps_frame count hhooks
  rw [hlast]
  exact hhooks

/-- What every step of the machine keeps holds where a run ends and wherever one of its steps
began. -/
theorem steps_keep {P : Machine → Prop} (hkeep : ∀ m roll, P m → P (m.step roll).2) (count : Nat)
    {rig : Rig σ} (hhooks : rig.hooks = .empty) (hrig : P rig.machine) :
    P (steps count rig).2.machine ∧ ∀ m ∈ visited count rig, P m := by
  induction count generalizing rig with
  | zero => exact ⟨hrig, by simp [visited_zero]⟩
  | succ count ih =>
    obtain ⟨result, journal, hstep⟩ := step_eq_stepped hhooks
    have hstepped : P (rig.stepped journal).machine := hkeep _ _ hrig
    rw [steps, visited_succ, hstep]
    cases result with
    | error e => exact ⟨hstepped, by simpa using hrig⟩
    | ok _ =>
      obtain ⟨hlast, hvisited⟩ := @ih (rig.stepped journal) hhooks hstepped
      exact ⟨hlast, by simpa using ⟨hrig, hvisited⟩⟩

end Rig

end Chip8
