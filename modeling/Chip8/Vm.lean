import Chip8.Profile.Reader
import Chip8.Rig
import Chip8.Vm.Flags

/-! # The virtual machine

A rig whose instructions are scheduled into cycles. A cycle presses at most one queued key, runs its
instructions, counts the timers down and releases the key. After a cycle the outputs can be taken
as a frame.
-/

namespace Chip8

/-- The outputs at one moment. -/
structure Frame where
  /-- How many cycles were complete. -/
  cycle : Nat
  screen : Screen
  buzzer : Bool
  /-- Whether screen or buzzer changed since the frame before. -/
  changed : Bool
  /-- The variables of the profile, in the order of their names. -/
  values : List (String × UInt32)
deriving DecidableEq

structure Vm (σ : Type) where
  rig : Rig σ
  flags : Flags
  profile : Option Profile
  /-- Keys that wait to be pressed, the next one first. -/
  queue : List Nat
  /-- Cycles that are complete. -/
  cycles : Nat

namespace Vm

variable {σ : Type}

def ofRig (flags : Flags) (rig : Rig σ) : Vm σ := ⟨rig, flags, none, [], 0⟩

def machine (vm : Vm σ) : Machine := vm.rig.machine

def setMachine (vm : Vm σ) (machine : Machine) : Vm σ :=
  { vm with rig := { vm.rig with machine } }

def record (vm : Vm σ) (event : Event) : Vm σ := { vm with rig := vm.rig.record event }

/-- Switches the machine off and on, and forgets queued keys and cycles. Flags, hooks, breakpoints
and profile stay. -/
def reset (vm : Vm σ) : Vm σ :=
  { vm.setMachine .powerOn with queue := [], cycles := 0 }.record .reset

/-! ## Loading -/

def loadRom (vm : Vm σ) (rom : Bytes) : Outcome (Vm σ) :=
  match vm.machine.loadRom rom with
  | .ok machine => (.ok (), (vm.setMachine machine).record (.romLoaded rom.length))
  | .error e => (.error e, vm)

def loadRomFile (files : Files) (path : String) (vm : Vm σ) : Outcome (Vm σ) :=
  let vm := vm.record (.readingFile path)
  match files.read path with
  | .ok rom => vm.loadRom rom
  | .error e => (.error e, vm)

def setProfile (profile : Profile) (vm : Vm σ) : Vm σ := { vm with profile := some profile }

/-- Loads the program that a profile names, and then takes the profile for its own. -/
def loadProfile (files : Files) (path : String) (vm : Vm σ) : Outcome (Vm σ) :=
  match Profile.load files path with
  | .ok profile =>
    (loadRomFile files profile.rom (vm.record (.profileLoaded path))).andThen fun vm =>
      (.ok (), vm.setProfile profile)
  | .error e => (.error e, vm)

/-! ## Keys and actions -/

def setKey (key : Nat) (down : Bool) (vm : Vm σ) : Outcome (Vm σ) :=
  match vm.machine.setKey key down with
  | .ok machine => (.ok (), vm.setMachine machine)
  | .error e => (.error e, vm)

def currentProfile (vm : Vm σ) : Except Error Profile :=
  match vm.profile with
  | some profile => .ok profile
  | none => .error .noProfile

/-- The keys that a controller may press. -/
def actions (vm : Vm σ) : Except Error (List UInt64) := do
  match (← vm.currentProfile).actions with
  | some keys => return keys
  | none => throw .noActions

/-- How many actions there are, with the one that presses nothing. -/
def actionCount (vm : Vm σ) : Except Error Nat := do
  return (← vm.actions).length + 1

/-- The key that an action presses, or none for action zero. -/
def actionKey (vm : Vm σ) (action : Nat) : Except Error (Option Nat) := do
  let keys ← vm.actions
  match action with
  | 0 => return none
  | index + 1 =>
    match keys[index]? with
    | some key => return some key.toNat
    | none => throw (.invalidAction action (keys.length + 1))

def takeAction (action : Nat) (vm : Vm σ) : Outcome (Vm σ) :=
  match vm.actionKey action with
  | .ok (some key) => (.ok (), { vm with queue := vm.queue ++ [key] })
  | .ok none => (.ok (), vm)
  | .error e => (.error e, vm)

/-! ## Cycles -/

/-- Runs the instructions of a cycle. If none fails, the timers count down. -/
def burst (vm : Vm σ) : Outcome (Vm σ) :=
  match Rig.steps vm.flags.ipc vm.rig with
  | (.ok (), rig) => (.ok (), { vm with rig := { rig with machine := rig.machine.tickTimers } })
  | (.error e, rig) => (.error e, { vm with rig })

def countCycle (vm : Vm σ) : Outcome (Vm σ) := (.ok (), { vm with cycles := vm.cycles + 1 })

/-- Runs a cycle. The key that it presses is released whether or not an instruction fails, and only
a cycle in which none fails is counted. -/
def cycle (vm : Vm σ) : Outcome (Vm σ) :=
  match vm.queue with
  | [] => vm.burst.andThen countCycle
  | key :: queue =>
    (setKey key true { vm with queue }).andThen fun vm =>
      let (result, vm) := vm.burst
      (setKey key false vm).andThen fun vm =>
        Outcome.andThen (result, vm) countCycle

def readVariable (vm : Vm σ) (name : String) : Except Error UInt32 := do
  let var ← (← vm.currentProfile).lookup name
  var.read vm.machine

/-- The present values of all variables of the profile, if there is one. -/
def readVariables (vm : Vm σ) : Except Error (List (String × UInt32)) :=
  match vm.profile with
  | some profile => profile.readAll vm.machine
  | none => .ok []

/-- Takes the outputs as a frame, and forgets that they changed. -/
def frame (vm : Vm σ) : Except Error Frame × Vm σ :=
  match vm.readVariables with
  | .error e => (.error e, vm)
  | .ok values =>
    let (changed, machine) := vm.machine.takeOutputChanged
    (.ok ⟨vm.cycles, machine.display.screen, machine.buzzer, changed, values⟩,
      vm.setMachine machine)

def nextFrame (vm : Vm σ) : Except Error Frame × Vm σ :=
  match vm.cycle with
  | (.ok (), vm) => vm.frame
  | (.error e, vm) => (.error e, vm)

end Vm

end Chip8
