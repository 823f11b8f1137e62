import Chip8.Cli.Options
import Chip8.Display.Render
import Chip8.Machine.Dump
import Chip8.Vm

/-! # Running a program without a screen

The runner plays a program, or a profile and its program, for a number of frames. A breakpoint is
reported and the run goes on; any other error ends it. What there is to tell is gathered as reports,
which are written to the output or to the error output.
-/

namespace Chip8.Cli

open Text

namespace Runner

structure Settings where
  frames : Nat
  flags : Flags
  random : Bool
  screen : Bool
  dump : Bool
  breakpoints : List UInt16

namespace Settings

def standard : Settings := ⟨600, .standard, false, false, false, []⟩

def takeSwitch (name : String) (settings : Settings) : Settings :=
  match name with
  | "realtime" => { settings with flags := { settings.flags with pacing := true } }
  | "random" => { settings with random := true }
  | "screen" => { settings with screen := true }
  | "dump" => { settings with dump := true }
  | _ => settings

def takeValue (name shown text : String) (settings : Settings) : Except UsageError Settings := do
  match name with
  | "frames" => return { settings with frames := ← argumentNumber 10 sizeMax shown text }
  | "speed" =>
    let ipc ← argumentNumber 10 sizeMax shown text
    return { settings with flags := { settings.flags with ipc } }
  | "frame-rate" =>
    let frequency ← argumentNumber 10 sizeMax shown text
    return { settings with flags := { settings.flags with frequency } }
  | "break" =>
    let addr ← argumentNumber 16 0xffff shown text
    return { settings with breakpoints := settings.breakpoints ++ [UInt16.ofNat addr] }
  | _ => return settings

end Settings

def command : Command Settings where
  fileHelp := "Load a ROM, or a ROM profile (.json), to run."
  options :=
    [⟨'h', "help", none, "Print this help message."⟩,
     ⟨'n', "frames", some "N", "Number of frames to run. (default: 600)"⟩,
     ⟨'r', "realtime", none, "Pace frames to wall-clock time."⟩,
     ⟨'s', "speed", some "IPC", "Set the instructions-per-frame rate."⟩,
     ⟨'f', "frame-rate", some "FR", "Set the target framerate. (default: 60)"⟩,
     ⟨'a', "random", none, "Take a random legal action every frame (requires a profile)."⟩,
     ⟨'p', "screen", none, "Print the screen whenever it changes."⟩,
     ⟨'d', "dump", none, "Dump the registers on exit."⟩,
     ⟨'b', "break", some "BP", "Set breakpoints for the emulator to stop at."⟩]
  defaults := .standard
  takeSwitch := Settings.takeSwitch
  takeValue := Settings.takeValue

inductive Report
  | screen (display : Display)
  | breakpoint (addr word : UInt16)
  | failure (error : Error)
  | registers (machine : Machine)
  | summary (frame : Frame)

namespace Report

def summaryText (frame : Frame) : String :=
  toString frame.cycle ++ " frames\n"
    ++ String.join (frame.values.map fun (name, value) => name ++ ": " ++ toString value ++ "\n")

def out : Report → String
  | screen display => display.braille
  | registers machine => machine.dump
  | summary frame => summaryText frame
  | breakpoint .. | failure _ => ""

def err : Report → String
  | breakpoint addr word =>
    "Breakpoint hit: " ++ Hex.lowerBlank 3 addr.toNat ++ " (" ++ Hex.lowerBlank 4 word.toNat
      ++ ")\n"
  | failure error => Style.alarm.paint error.message ++ "\n"
  | screen _ | registers _ | summary _ => ""

end Report

end Runner

structure Runner where
  vm : Vm Unit
  /-- The numbers that choose among the actions, if a random one is taken before each frame. -/
  chance : Option (Nat → Nat)
  screen : Bool
  dump : Bool
  /-- Frames that were asked for. -/
  turns : Nat
  /-- The frame that was taken last. -/
  last : Option Frame
  /-- Newest first. -/
  reports : List Runner.Report

namespace Runner

def tell (runner : Runner) (report : Report) : Runner :=
  { runner with reports := report :: runner.reports }

/-- Loads a profile or a program, by the extension of the file. -/
def load (files : Files) (file : String) (vm : Vm Unit) : Outcome (Vm Unit) :=
  if Path.extension? file = some "json" then vm.loadProfile files file
  else vm.loadRomFile files file

/-- A run that is ready to begin. A random agent needs a profile with actions. -/
def ofSettings (settings : Settings) (file : String) (files : Files) (dice : Dice)
    (chance : Nat → Nat) : Except Error Runner :=
  let vm := Vm.ofRig settings.flags (Rig.powerOn dice () (.empty .off))
  match load files file vm with
  | (.error e, _) => .error e
  | (.ok (), vm) => do
    let vm := { vm with rig := settings.breakpoints.foldl Rig.setBreak vm.rig }
    if settings.random then discard vm.actionCount
    return {
      vm
      chance := if settings.random then some chance else none
      screen := settings.screen
      dump := settings.dump
      turns := 0
      last := none
      reports := [] }

/-- The random action in front of a frame. -/
def act (runner : Runner) : Outcome (Vm Unit) :=
  match runner.chance with
  | none => (.ok (), runner.vm)
  | some choose =>
    match runner.vm.actionCount with
    | .ok count => runner.vm.takeAction (choose runner.turns % count)
    | .error e => (.error e, runner.vm)

/-- Asks for one frame, and tells whether the run may go on. -/
def turn (runner : Runner) : Bool × Runner :=
  match runner.act with
  | (.error e, vm) => (false, { runner with vm, turns := runner.turns + 1 }.tell (.failure e))
  | (.ok (), vm) =>
    match vm.nextFrame with
    | (.ok frame, vm) =>
      let runner := { runner with vm, turns := runner.turns + 1, last := some frame }
      if runner.screen && frame.changed then (true, runner.tell (.screen vm.machine.display))
      else (true, runner)
    | (.error (.breakpointHit addr word), vm) =>
      (true, { runner with vm, turns := runner.turns + 1 }.tell (.breakpoint addr word))
    | (.error e, vm) => (false, { runner with vm, turns := runner.turns + 1 }.tell (.failure e))

/-- Asks for so many frames, or until the run may not go on. -/
def turnsUpTo : Nat → Runner → Runner
  | 0, runner => runner
  | count + 1, runner =>
    match runner.turn with
    | (true, runner) => turnsUpTo count runner
    | (false, runner) => runner

/-- What is told at the end: the registers, if they are wanted, and the last frame. -/
def finish (runner : Runner) : Runner :=
  let runner := if runner.dump then runner.tell (.registers runner.vm.machine) else runner
  match runner.last with
  | some frame => runner.tell (.summary frame)
  | none => runner

def result (runner : Runner) : CommandResult :=
  let reports := runner.reports.reverse
  ⟨0, String.join (reports.map Report.out), String.join (reports.map Report.err)⟩

def run (self : String) (args : List String) (files : Files) (dice : Dice) (chance : Nat → Nat) :
    CommandResult :=
  match command.read self args with
  | .error result => result
  | .ok (file, settings) =>
    match ofSettings settings file files dice chance with
    | .error e => .ofError e
    | .ok runner => (turnsUpTo settings.frames runner).finish.result

end Runner

end Chip8.Cli
