import Chip8.Instr.Assembly

/-! # The journal

What a run has to report beside its result. A journal keeps the events up to its level and drops
the others.
-/

namespace Chip8

open Text

/-- How a hook stands to the instruction that it is set on. -/
inductive HookKind
  | replace
  | before
  | after
deriving DecidableEq

def HookKind.name : HookKind → String
  | replace => "Replace"
  | before => "Before"
  | after => "After"

/-- How much is reported, from nothing to everything. -/
inductive Level
  | off
  | error
  | warn
  | info
  | debug
  | trace
deriving DecidableEq

def Level.rank : Level → Nat
  | off => 0
  | error => 1
  | warn => 2
  | info => 3
  | debug => 4
  | trace => 5

def Level.name : Level → String
  | off => "OFF"
  | error => "ERROR"
  | warn => "WARN"
  | info => "INFO"
  | debug => "DEBUG"
  | trace => "TRACE"

inductive Event
  /-- The word at `pc` is about to be executed. -/
  | executing (pc word : UInt16)
  /-- The instruction at `pc` was given up for want of a meaning of `word`. -/
  | skipped (pc word : UInt16)
  | hookDropped (op : Opcode) (kind : HookKind)
  | reset
  | readingFile (path : String)
  | romLoaded (size : Nat)
  | profileLoaded (path : String)
deriving DecidableEq

namespace Event

def level : Event → Level
  | executing .. => .trace
  | skipped .. => .warn
  | _ => .debug

def message : Event → String
  | executing pc word => Hex.lower 3 pc.toNat ++ ": " ++ Word.styled word
  | skipped pc word =>
    Hex.lower 3 pc.toNat ++ ": skipped unknown opcode " ++ Hex.lower 4 word.toNat
  | hookDropped op kind => op.name ++ ": dropped " ++ kind.name ++ " hook"
  | reset => "reset"
  | readingFile path => "reading " ++ path
  | romLoaded size => "loaded " ++ toString size ++ " byte rom"
  | profileLoaded path => "loaded profile " ++ path

/-- The level and the message of an event as one line. -/
def line (event : Event) : String := event.level.name ++ " " ++ event.message

end Event

structure Journal where
  level : Level
  /-- Newest first. -/
  entries : List Event

namespace Journal

def empty (level : Level) : Journal := ⟨level, []⟩

def record (journal : Journal) (event : Event) : Journal :=
  if event.level.rank ≤ journal.level.rank then
    { journal with entries := event :: journal.entries }
  else journal

/-- The lines of the journal, oldest first. -/
def lines (journal : Journal) : List String := (journal.entries.map Event.line).reverse

end Journal

end Chip8
