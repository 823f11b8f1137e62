import Chip8.Cli.Listing
import Chip8.Cli.Runner

/-! # The program

The commands `run` and `list` on real files, with dice that the system seeds and, for a paced run,
a clock.
-/

namespace Chip8.Program

open Cli

def readFile (path : String) : IO (Except FileError Bytes) := do
  if '\x00' ∈ path.toList then return .error .zeroInPath
  try
    return .ok (← IO.FS.readBinFile path).toList
  catch e =>
    match e with
    | .inappropriateType _ 20 _ => return .error .notADirectory
    | .inappropriateType .. => return .error .isADirectory
    | .invalidArgument _ 36 _ => return .error .nameTooLong
    | _ => return .error .notFound

/-- A file, and if it is a profile the program that it names. -/
def filesFrom (file : String) : IO Files := do
  let content ← readFile file
  let files : Files := fun path => if path = file then content else .error .notFound
  match Profile.load files file with
  | .error _ => return files
  | .ok profile =>
    let rom ← readFile profile.rom
    return fun path => if path = profile.rom then rom else files path

def diceFromSystem : IO Dice := do
  let seed ← IO.getRandomBytes 8
  return .ofSeed (seed.toList.foldl (fun n b => n * 0x100 + b.toUInt64) 0)

def put (out err : String) : IO Unit := do
  let stdout ← IO.getStdout
  stdout.putStr out
  stdout.flush
  (← IO.getStderr).putStr err

def putResult (result : CommandResult) : IO UInt32 := do
  put result.out result.err
  return UInt32.ofNat result.code

/-- Writes what a run has to tell, and goes on with a clean slate. -/
def flush (runner : Runner) : IO Runner := do
  for report in runner.reports.reverse do
    put report.out report.err
  return { runner with reports := [] }

/-- Waits until a cycle that began at `start` has taken its time. -/
def pace (flags : Flags) (start : Nat) : IO Unit := do
  if flags.pacing then
    if let some period := flags.period? then
      let elapsed := (← IO.monoNanosNow) - start
      IO.sleep (UInt32.ofNat ((period - elapsed) / 1000000))

/-- The frames of a run, each told as soon as it is there. -/
def play (frames : Nat) (runner : Runner) : IO Runner := do
  let mut runner := runner
  let mut start ← IO.monoNanosNow
  for _ in [0:frames] do
    let (more, next) := runner.turn
    if runner.vm.cycles < next.vm.cycles then
      pace next.vm.flags start
      start ← IO.monoNanosNow
    runner ← flush next
    if !more then break
  return runner

def run (self : String) (args : List String) : IO UInt32 := do
  match Runner.command.read self args with
  | .error result => putResult result
  | .ok (file, settings) =>
    let chance := (← diceFromSystem).number
    match Runner.ofSettings settings file (← filesFrom file) (← diceFromSystem) chance with
    | .error e => putResult (.ofError e)
    | .ok runner =>
      discard (flush (← play settings.frames runner).finish)
      return 0

def list (self : String) (args : List String) : IO UInt32 := do
  match Listing.command.read self args with
  | .error result => putResult result
  | .ok (file, _) =>
    let content ← readFile file
    putResult (Listing.run self args fun path => if path = file then content else .error .notFound)

end Chip8.Program

def main (args : List String) : IO UInt32 :=
  match args with
  | "run" :: rest => Chip8.Program.run "chip8 run" rest
  | "list" :: rest => Chip8.Program.list "chip8 list" rest
  | _ => do
    Chip8.Program.put "" "usage: chip8 (run | list) FILE [OPTIONS]\n"
    return 2
