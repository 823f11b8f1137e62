import Chip8.Dice
import Chip8.Hook
import Chip8.Instr.Exec

/-! # A machine on its rig

A rig is a machine together with what drives it and what it is watched by: hooks, breakpoints, dice,
the memory of the handlers and a journal. `step` runs one instruction.
-/

namespace Chip8

structure Rig (σ : Type) where
  machine : Machine
  hooks : HookTable σ
  /-- Addresses at which a run stops, oldest first. -/
  breakpoints : List UInt16
  dice : Dice
  /-- The memory that the handlers share. -/
  memo : σ
  journal : Journal

namespace Rig

variable {σ : Type}

def powerOn (dice : Dice) (memo : σ) (journal : Journal) : Rig σ :=
  ⟨.powerOn, .empty, [], dice, memo, journal⟩

def record (rig : Rig σ) (event : Event) : Rig σ :=
  { rig with journal := rig.journal.record event }

def setBreak (rig : Rig σ) (addr : UInt16) : Rig σ :=
  if addr ∈ rig.breakpoints then rig
  else { rig with breakpoints := rig.breakpoints ++ [addr] }

def unsetBreak (rig : Rig σ) (addr : UInt16) : Rig σ :=
  { rig with breakpoints := rig.breakpoints.filter (· ≠ addr) }

/-- Sets a hook, and reports the one that it displaces. -/
def setHook (rig : Rig σ) (op : Opcode) (hook : Hook σ) : Rig σ :=
  let set := { rig with hooks := rig.hooks.set op hook }
  match rig.hooks.hook? op with
  | some old => set.record (.hookDropped op old.kind)
  | none => set

/-- Has a handler run instead of an instruction. -/
def hook (rig : Rig σ) (op : Opcode) (handler : Handler σ) : Rig σ :=
  rig.setHook op ⟨.replace, handler⟩

def preHook (rig : Rig σ) (op : Opcode) (handler : Handler σ) : Rig σ :=
  rig.setHook op ⟨.before, handler⟩

def postHook (rig : Rig σ) (op : Opcode) (handler : Handler σ) : Rig σ :=
  rig.setHook op ⟨.after, handler⟩

def unhook (rig : Rig σ) (op : Opcode) : Option (Hook σ) × Rig σ :=
  (rig.hooks.hook? op, { rig with hooks := rig.hooks.unset op })

def unhookAll (rig : Rig σ) : Rig σ := { rig with hooks := .empty }

/-- Runs an instruction as it is meant. Only a random one rolls the dice. -/
def runInstr (instr : Instr) (rig : Rig σ) : Outcome (Rig σ) :=
  match rig.machine.exec rig.dice.top instr with
  | .ok machine =>
    (.ok (), { rig with
      machine, dice := if instr.opcode = .random then rig.dice.next else rig.dice })
  | .error e => (.error e, rig)

def runHandler (handler : Handler σ) (word : UInt16) (rig : Rig σ) : Outcome (Rig σ) :=
  let (result, machine, memo) := handler word (rig.machine, rig.memo)
  (result, { rig with machine, memo })

/-- Runs the instruction of a word with the hook that is set on it. -/
def execute (word : UInt16) (rig : Rig σ) : Outcome (Rig σ) :=
  match Instr.decode? word with
  | none => (.error (.unknownOpcode word), rig)
  | some instr =>
    match rig.hooks.hook? instr.opcode with
    | none => runInstr instr rig
    | some ⟨.replace, handler⟩ => runHandler handler word rig
    | some ⟨.before, handler⟩ => (runHandler handler word rig).andThen (runInstr instr)
    | some ⟨.after, handler⟩ => (runInstr instr rig).andThen (runHandler handler word)

/-- The word at an address, or zero where memory ends. -/
def wordAt (rig : Rig σ) (addr : UInt16) : UInt16 :=
  match rig.machine.memory.readWord addr.toNat with
  | .ok word => word
  | .error _ => 0

/-- Fails if the program counter stands on a breakpoint. -/
def checkBreak (rig : Rig σ) : Outcome (Rig σ) :=
  let addr := rig.machine.pc
  if addr ∈ rig.breakpoints then (.error (.breakpointHit addr (rig.wordAt addr)), rig)
  else (.ok (), rig)

/-- Runs the instruction at the program counter. An opcode that is unknown, or that a handler calls
unknown, is reported and skipped. Last, a breakpoint is checked for. -/
def step (rig : Rig σ) : Outcome (Rig σ) :=
  match rig.machine.fetch with
  | .error e => (.error e, rig)
  | .ok (word, machine) =>
    let pc := rig.machine.pc
    match execute word ({ rig with machine }.record (.executing pc word)) with
    | (.ok (), rig) => rig.checkBreak
    | (.error (.unknownOpcode w), rig) => (rig.record (.skipped pc w)).checkBreak
    | (.error e, rig) => (.error e, rig)

/-- Runs a number of instructions, up to the first that fails. -/
def steps : Nat → Rig σ → Outcome (Rig σ)
  | 0, rig => (.ok (), rig)
  | count + 1, rig => rig.step.andThen (steps count)

end Rig

end Chip8
