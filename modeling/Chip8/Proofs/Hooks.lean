import Chip8.Proofs.Acts
import Chip8.Proofs.Fault
import Chip8.Proofs.Likeness

/-! # What hooks do

Executing a word depends on the hook of its opcode, and that is the one that the last operation on
this opcode has left, whatever was done to other opcodes and whatever has run in between. A step
answers what executing its word answers, but for an unknown opcode: that goes to the journal, and
the step goes on to look at the breakpoints.
-/

namespace Chip8

namespace Rig

variable {σ : Type}

/-- What becomes of a word that is executed, by the hook that is set on its opcode. -/
inductive Executes (word : UInt16) (op : Opcode) :
    Option (Hook σ) → Rig σ → Outcome (Rig σ) → Prop
  | own (rig : Rig σ) : Executes word op none rig (runInstr (.ofOpcode word op) rig)
  | replaced (handler : Handler σ) (rig : Rig σ) :
    Executes word op (some ⟨.replace, handler⟩) rig (runHandler handler word rig)
  | before {handler : Handler σ} {rig left : Rig σ}
    (hhandler : runHandler handler word rig = (.ok (), left)) :
    Executes word op (some ⟨.before, handler⟩) rig (runInstr (.ofOpcode word op) left)
  /-- A hook that fails keeps the instruction from running. -/
  | refused {handler : Handler σ} {rig left : Rig σ} {e : Error}
    (hhandler : runHandler handler word rig = (.error e, left)) :
    Executes word op (some ⟨.before, handler⟩) rig (.error e, left)
  | after {handler : Handler σ} {rig left : Rig σ}
    (hown : runInstr (.ofOpcode word op) rig = (.ok (), left)) :
    Executes word op (some ⟨.after, handler⟩) rig (runHandler handler word left)
  /-- An instruction that fails keeps the hook from running. -/
  | failed {handler : Handler σ} {rig left : Rig σ} {e : Error}
    (hown : runInstr (.ofOpcode word op) rig = (.error e, left)) :
    Executes word op (some ⟨.after, handler⟩) rig (.error e, left)

theorem execute_of_unknown {word : UInt16} (hop : Opcode.decode? word = none) (rig : Rig σ) :
    rig.execute word = (.error (.unknownOpcode word), rig) := by
  simp [execute, Instr.decode?, hop]

/-- The hook of an opcode settles what executing one of its words comes to. -/
theorem execute_eq_iff {word : UInt16} {op : Opcode} (hop : Opcode.decode? word = some op)
    {rig : Rig σ} {outcome : Outcome (Rig σ)} :
    rig.execute word = outcome ↔ Executes word op (rig.hooks.hook? op) rig outcome := by
  simp only [execute, Instr.decode?, hop, Option.map_some, Instr.opcode_ofOpcode]
  generalize rig.hooks.hook? op = hook?
  constructor
  · rintro rfl
    obtain _ | ⟨kind, handler⟩ := hook?
    · exact .own rig
    cases kind with
    | replace => exact .replaced handler rig
    | before =>
      rcases hhandler : runHandler handler word rig with ⟨e | ⟨⟩, left⟩
      · simp only [hhandler]
        exact .refused hhandler
      · simp only [hhandler]
        exact .before hhandler
    | after =>
      rcases hown : runInstr (.ofOpcode word op) rig with ⟨e | ⟨⟩, left⟩
      · exact .failed hown
      · exact .after hown
  · intro h
    cases h with
    | own | replaced => rfl
    | before hhandler => simp only [hhandler, Outcome.ok_andThen]
    | refused hhandler => simp only [hhandler, Outcome.error_andThen]
    | after hown => simp only [hown, Outcome.ok_andThen]
    | failed hown => simp only [hown, Outcome.error_andThen]

/-- The ends of a step, whatever is hooked. -/
inductive StepEnd (rig : Rig σ) : Outcome (Rig σ) → Prop
  | unfetched {e : Error} (hfetch : rig.machine.fetch = .error e) : StepEnd rig (.error e, rig)
  | failed {word : UInt16} {left : Rig σ} {e : Error}
    (hfetch : rig.machine.fetch = .ok (word, rig.machine.fetched))
    (hexec : (rig.begun word).execute word = (.error e, left))
    (hknown : ∀ other, e ≠ .unknownOpcode other) : StepEnd rig (.error e, left)
  /-- Either the word is no instruction, or a handler has called a word unknown. -/
  | skipped {word other : UInt16} {left : Rig σ}
    (hfetch : rig.machine.fetch = .ok (word, rig.machine.fetched))
    (hexec : (rig.begun word).execute word = (.error (.unknownOpcode other), left)) :
    StepEnd rig (left.record (.skipped rig.machine.pc other)).checkBreak
  | done {word : UInt16} {left : Rig σ}
    (hfetch : rig.machine.fetch = .ok (word, rig.machine.fetched))
    (hexec : (rig.begun word).execute word = (.ok (), left)) : StepEnd rig left.checkBreak

theorem step_of_fetch {rig : Rig σ} {word : UInt16}
    (hfetch : rig.machine.fetch = .ok (word, rig.machine.fetched)) : rig.step =
      match (rig.begun word).execute word with
      | (.ok (), left) => left.checkBreak
      | (.error (.unknownOpcode other), left) =>
        (left.record (.skipped rig.machine.pc other)).checkBreak
      | (.error e, left) => (.error e, left) := by
  simp only [step, hfetch]
  rfl

theorem hooks_setHook (rig : Rig σ) (op : Opcode) (hook : Hook σ) :
    (rig.setHook op hook).hooks = rig.hooks.set op hook := by
  unfold setHook
  cases rig.hooks.hook? op <;> rfl

theorem hook?_setHook (rig : Rig σ) (op : Opcode) (hook : Hook σ) :
    (rig.setHook op hook).hooks.hook? op = some hook := by
  rw [hooks_setHook, HookTable.hook?_set, if_pos rfl]

section SetHook

variable {word : UInt16} {op : Opcode} (hop : Opcode.decode? word = some op) (rig : Rig σ)
  (handler : Handler σ)

include hop

theorem execute_hook : (rig.hook op handler).execute word =
    runHandler handler word (rig.hook op handler) := by
  have hset := rig.hook?_setHook op ⟨.replace, handler⟩
  simp only [execute, Instr.decode?, hop, Option.map_some, Instr.opcode_ofOpcode, hook, hset]

theorem execute_preHook : (rig.preHook op handler).execute word =
    (runHandler handler word (rig.preHook op handler)).andThen (runInstr (.ofOpcode word op)) := by
  have hset := rig.hook?_setHook op ⟨.before, handler⟩
  simp only [execute, Instr.decode?, hop, Option.map_some, Instr.opcode_ofOpcode, preHook, hset]

theorem execute_postHook : (rig.postHook op handler).execute word =
    (runInstr (.ofOpcode word op) (rig.postHook op handler)).andThen (runHandler handler word) := by
  have hset := rig.hook?_setHook op ⟨.after, handler⟩
  simp only [execute, Instr.decode?, hop, Option.map_some, Instr.opcode_ofOpcode, postHook, hset]

end SetHook

theorem hooks_change (rig : Rig σ) (c : Change) : (rig.change c).hooks = rig.hooks := by
  cases c with
  | powerOn => simp only [change]
  | setBreak addr =>
    simp only [change, setBreak]
    split <;> rfl
  | _ => rfl

end Rig

/-- An operation in whose course hooks may be set, removed and run. -/
inductive HookOp (σ : Type)
  | set (op : Opcode) (hook : Hook σ)
  | unset (op : Opcode)
  | unsetAll
  | call (call : Call)

namespace HookOp

variable {σ : Type}

def hook (op : Opcode) (handler : Handler σ) : HookOp σ := .set op ⟨.replace, handler⟩

def preHook (op : Opcode) (handler : Handler σ) : HookOp σ := .set op ⟨.before, handler⟩

def postHook (op : Opcode) (handler : Handler σ) : HookOp σ := .set op ⟨.after, handler⟩

/-- What an operation makes of the hook of an opcode, if it touches it at all. -/
def effect? (op : Opcode) : HookOp σ → Option (Option (Hook σ))
  | .set other hook => if other = op then some (some hook) else none
  | .unset other => if other = op then some none else none
  | .unsetAll => some none
  | .call _ => none

end HookOp

/-- Where every operation sets what is looked at or leaves it, the last that sets it settles it. -/
theorem view_foldl {α β γ : Type} {act : β → α → β} {effect? : α → Option γ} (view : β → γ)
    (hact : ∀ b a, view (act b a) = (effect? a).getD (view b)) (ops : List α) (b : β) :
    view (ops.foldl act b) = (ops.reverse.findSome? effect?).getD (view b) := by
  induction ops generalizing b with
  | nil => rfl
  | cons a ops ih =>
    rw [List.foldl_cons, ih, hact, List.reverse_cons, List.findSome?_append,
      List.findSome?_singleton]
    cases ops.reverse.findSome? effect? <;> rfl

namespace Vm

variable {σ : Type}

def hookOp (vm : Vm σ) : HookOp σ → Vm σ
  | .set op hook => { vm with rig := vm.rig.setHook op hook }
  | .unset op => { vm with rig := (vm.rig.unhook op).2 }
  | .unsetAll => { vm with rig := vm.rig.unhookAll }
  | .call call => (vm.call call).2

def hookOps (vm : Vm σ) (ops : List (HookOp σ)) : Vm σ := ops.foldl hookOp vm

/-- Counts how often it is called. -/
def tally : Handler Nat := fun _ (m, count) => (.ok (), m, count + 1)

def bench : Vm Nat := ofRig .standard (.powerOn ⟨fun _ => 0, 0⟩ 0 (.empty .off))

end Vm

end Chip8
