import Chip8.Cli.Runner
import Chip8.Proofs.Numerals

/-! # What a command line chooses

A command line of the runner names its file once and has options before and behind it. Each option
is a choice, and the settings that are read are what all the choices make of the standard ones, in
their order.
-/

namespace Chip8.Cli.Runner

open Text

/-- What an option of the runner chooses. -/
inductive Choice
  | frames (count : Nat)
  | speed (ipc : Nat)
  | frameRate (frequency : Nat)
  | stopAt (addr : UInt16)
  | realtime
  | random
  | screen
  | dump

namespace Choice

def words : Choice → List String
  | frames count => ["--frames", toString count]
  | speed ipc => ["--speed", toString ipc]
  | frameRate frequency => ["--frame-rate", toString frequency]
  | stopAt addr => ["--break", Hex.lower 1 addr.toNat]
  | realtime => ["--realtime"]
  | random => ["--random"]
  | screen => ["--screen"]
  | dump => ["--dump"]

def Fits : Choice → Prop
  | frames n | speed n | frameRate n => n ≤ sizeMax
  | _ => True

def apply (settings : Settings) : Choice → Settings
  | frames count => { settings with frames := count }
  | speed ipc => { settings with flags := { settings.flags with ipc } }
  | frameRate frequency => { settings with flags := { settings.flags with frequency } }
  | stopAt addr => { settings with breakpoints := settings.breakpoints ++ [addr] }
  | realtime => { settings with flags := { settings.flags with pacing := true } }
  | random => { settings with random := true }
  | screen => { settings with screen := true }
  | dump => { settings with dump := true }

def given : Choice → Given
  | frames count => .value "frames" "--frames" (toString count)
  | speed ipc => .value "speed" "--speed" (toString ipc)
  | frameRate frequency => .value "frame-rate" "--frame-rate" (toString frequency)
  | stopAt addr => .value "break" "--break" (Hex.lower 1 addr.toNat)
  | realtime => .switch "realtime"
  | random => .switch "random"
  | screen => .switch "screen"
  | dump => .switch "dump"

theorem scan_words (choice : Choice) (rest : List String) :
    scan command.options (choice.words ++ rest) =
      (choice.given :: (scan command.options rest).1, (scan command.options rest).2) := by
  cases choice with
  | frames count => exact scan_long "frames" rfl rfl rfl rfl (toString count) rest
  | speed ipc => exact scan_long "speed" rfl rfl rfl rfl (toString ipc) rest
  | frameRate frequency => exact scan_long "frame-rate" rfl rfl rfl rfl (toString frequency) rest
  | stopAt addr => exact scan_long "break" rfl rfl rfl rfl (Hex.lower 1 addr.toNat) rest
  | realtime => exact scan_switch rfl rfl rfl rest
  | random => exact scan_switch rfl rfl rfl rest
  | screen => exact scan_switch rfl rfl rfl rest
  | dump => exact scan_switch rfl rfl rfl rest

theorem take_given {choice : Choice} (hfits : choice.Fits) (file : Option String)
    (settings : Settings) : command.take ⟨file, false, settings⟩ choice.given =
      .ok ⟨file, false, choice.apply settings⟩ := by
  cases choice with
  | frames n | speed n | frameRate n =>
    simp only [given, Command.take, command, Settings.takeValue, argumentNumber,
      readNumeral_toString hfits]
    rfl
  | stopAt addr =>
    have haddr := Hex.readNumeral_lower 1 (Nat.le_of_lt_succ addr.toNat_lt)
    have happly : (stopAt addr).apply settings =
        { settings with breakpoints := settings.breakpoints ++ [UInt16.ofNat addr.toNat] } := by
      rw [UInt16.ofNat_toNat]
      rfl
    simp only [given, Command.take, command, Settings.takeValue, argumentNumber, haddr, happly]
    rfl
  | realtime | random | screen | dump => rfl

end Choice

/-- The settings that are left when all choices are made, each over those before it. -/
def chosen (choices : List Choice) : Settings := choices.foldl Choice.apply .standard

/-- The words of a command line name a file, with options before and behind it. -/
structure Spells (args : List String) (before : List Choice) (file : String)
    (behind : List Choice) : Prop where
  words : args = before.flatMap Choice.words ++ file :: behind.flatMap Choice.words
  file : file.toList.head? ≠ some '-'
  fits : ∀ choice ∈ before ++ behind, choice.Fits

theorem scan_choices (choices : List Choice) (rest : List String) :
    scan command.options (choices.flatMap Choice.words ++ rest) =
      (choices.map Choice.given ++ (scan command.options rest).1,
        (scan command.options rest).2) := by
  induction choices with
  | nil => rfl
  | cons choice choices ih =>
    rw [List.flatMap_cons, List.append_assoc, Choice.scan_words, ih]
    rfl

theorem foldlM_given {choices : List Choice} (hfits : ∀ choice ∈ choices, choice.Fits)
    (file : Option String) (settings : Settings) :
    (choices.map Choice.given).foldlM command.take ⟨file, false, settings⟩ =
      .ok ⟨file, false, choices.foldl Choice.apply settings⟩ := by
  induction choices generalizing settings with
  | nil => rfl
  | cons choice choices ih =>
    obtain ⟨hchoice, hchoices⟩ := List.forall_mem_cons.mp hfits
    rw [List.map_cons, List.foldlM_cons, Choice.take_given hchoice]
    exact ih hchoices _

theorem Spells.gather {args : List String} {before behind : List Choice} {file : String}
    (h : Spells args before file behind) :
    command.gather args = .ok ⟨some file, false, chosen (before ++ behind)⟩ := by
  obtain ⟨hbefore, hbehind⟩ := List.forall_mem_append.mp h.fits
  have hscan : scan command.options args =
      (before.map Choice.given ++ .free file :: behind.map Choice.given, none) := by
    have hend := scan_choices behind []
    rw [List.append_nil] at hend
    rw [h.words, scan_choices, scan_free _ (Argument.ofString_of_head? h.file), hend, scan,
      List.append_nil]
  have hfirst := foldlM_given hbefore none .standard
  have hlast := foldlM_given hbehind (some file) (chosen before)
  have htake : (before.map Choice.given ++ .free file :: behind.map Choice.given).foldlM
      command.take ⟨none, false, .standard⟩ =
        .ok ⟨some file, false, chosen (before ++ behind)⟩ := by
    rw [List.foldlM_append, hfirst, chosen, List.foldl_append]
    exact hlast
  rw [Command.gather, hscan]
  exact congrArg (· >>= pure) htake

/-- Every line that spells choices is read as they are meant. -/
theorem Spells.read {args : List String} {before behind : List Choice} {file : String}
    (h : Spells args before file behind) (self : String) :
    command.read self args = .ok (file, chosen (before ++ behind)) := by
  rw [Command.read, h.gather]
  rfl

end Chip8.Cli.Runner
