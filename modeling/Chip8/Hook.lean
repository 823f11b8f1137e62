import Chip8.Instr
import Chip8.Journal
import Chip8.Machine

/-! # Hooks

A hook is a handler that a client sets on an opcode, to run instead of the instruction, before it or
after it. An opcode has one hook at most. Handlers see the machine and the word, may fail, and share
a memory of their own.
-/

namespace Chip8

/-- What comes of an operation that can fail, with the state that it leaves either way. -/
abbrev Outcome (σ : Type) := Except Error Unit × σ

/-- Goes on from what an operation left, unless it failed. -/
@[inline]
def Outcome.andThen {σ : Type} (first : Outcome σ) (next : σ → Outcome σ) : Outcome σ :=
  match first with
  | (.ok (), s) => next s
  | (.error e, s) => (.error e, s)

@[simp]
theorem Outcome.ok_andThen {σ : Type} (s : σ) (next : σ → Outcome σ) :
    Outcome.andThen (.ok (), s) next = next s := rfl

@[simp]
theorem Outcome.error_andThen {σ : Type} (e : Error) (s : σ) (next : σ → Outcome σ) :
    Outcome.andThen (.error e, s) next = (.error e, s) := rfl

/-- A handler is given the word, the machine and the handlers' memory. -/
abbrev Handler (σ : Type) := UInt16 → Machine × σ → Outcome (Machine × σ)

structure Hook (σ : Type) where
  kind : HookKind
  handler : Handler σ

structure HookTable (σ : Type) where
  hook? : Opcode → Option (Hook σ)

namespace HookTable

variable {σ : Type}

def empty : HookTable σ := ⟨fun _ => none⟩

/-- Sets a hook in the place of any earlier one. -/
def set (table : HookTable σ) (op : Opcode) (hook : Hook σ) : HookTable σ :=
  ⟨fun other => if other = op then some hook else table.hook? other⟩

def unset (table : HookTable σ) (op : Opcode) : HookTable σ :=
  ⟨fun other => if other = op then none else table.hook? other⟩

@[simp]
theorem hook?_empty (op : Opcode) : (empty : HookTable σ).hook? op = none := rfl

@[simp]
theorem hook?_set (table : HookTable σ) (op other : Opcode) (hook : Hook σ) :
    (table.set op hook).hook? other = if other = op then some hook else table.hook? other := rfl

def isHooked (table : HookTable σ) (op : Opcode) : Bool := (table.hook? op).isSome

/-- The opcodes that are hooked and how, in the order of the opcodes. -/
def describe (table : HookTable σ) : String :=
  "\x7b" ++ String.intercalate ", " (Opcode.all.filterMap fun op =>
    (table.hook? op).map fun hook => "K" ++ op.name ++ ": " ++ hook.kind.name) ++ "\x7d"

end HookTable

end Chip8
