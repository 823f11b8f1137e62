import Chip8.Cli.Options
import Chip8.Files
import Chip8.Instr.Assembly

/-! # Listing a program

The lister prints the words of a program file as assembly text, a line for each, with the address at
which the machine would fetch it.
-/

namespace Chip8.Cli.Listing

open Text

/-- The settings are the offset at which the listing begins. -/
def command : Command Nat where
  fileHelp := "Load a ROM to disassemble"
  options :=
    [⟨'h', "help", none, "Show help text"⟩,
     ⟨'o', "offset", some "OFFSET", "Start disassembling at offset..."⟩]
  defaults := 0
  takeSwitch _ offset := offset
  takeValue _ shown text _ := argumentNumber 10 sizeMax shown text

/-- The words that bytes make two by two. An odd byte at the end makes none. -/
def words : Bytes → List UInt16
  | high :: low :: rest => Word.ofBytes high low :: words rest
  | _ => []

def row (addr : Nat) (word : UInt16) : String :=
  Hex.lower 3 addr ++ ": " ++ Word.styled word ++ " " ++ Style.faint.paint (Hex.lower 4 word.toNat)

def line (addr : Nat) (word : UInt16) : String := row addr word ++ "\n"

/-- The lines of words that lie one after the other from an address on. -/
def lines (addr : Nat) : List UInt16 → List String
  | [] => []
  | word :: rest => line addr word :: lines (addr + Layout.instructionSize) rest

/-- Lists the content of a file from an offset on, which may not be past its end. -/
def list (file : String) (content : Bytes) (offset : Nat) : CommandResult :=
  if offset ≤ content.length then
    ⟨0, String.join (lines (Layout.programStart + offset) (words (content.drop offset))), ""⟩
  else
    ⟨1, "", Style.alarm.paint ("offset " ++ Hex.lower 1 offset ++ " is past the end of " ++ file
      ++ " (" ++ toString content.length ++ " bytes)") ++ "\n"⟩

def run (self : String) (args : List String) (files : Files) : CommandResult :=
  match command.read self args with
  | .error result => result
  | .ok (file, offset) =>
    match files.read file with
    | .error e => .ofError e
    | .ok content => list file content offset

end Chip8.Cli.Listing
