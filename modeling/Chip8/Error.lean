import Chip8.Json.Fault
import Chip8.Text.Hex

/-! # Errors

Every way in which an operation of the machine, of its scheduler or of a loader can fail, and the
words for it. `message` is the sentence shown to people, `describe` the form with field names that
ends a program.
-/

namespace Chip8

open Text

inductive FileError
  | notFound
  | notADirectory
  | isADirectory
  | nameTooLong
  /-- A path cannot hold the character zero. -/
  | zeroInPath
  /-- The file should be text and is not encoded as text. -/
  | notText
deriving DecidableEq

inductive Error
  | unknownOpcode (word : UInt16)
  | stackOverflow (pc : UInt16)
  | stackUnderflow (pc : UInt16)
  | outOfBounds (addr len : Nat)
  | romTooLarge (len max : Nat)
  | invalidKey (key : Nat)
  | invalidRegister (reg : Nat)
  | invalidOpcodeName (name : String)
  | unknownVariable (name : String)
  | invalidAction (action count : Nat)
  | noProfile
  | noActions
  | breakpointHit (addr word : UInt16)
  | file (cause : FileError)
  | json (failure : Json.Failure)
deriving DecidableEq

namespace FileError

def message : FileError → String
  | notFound => "No such file or directory (os error 2)"
  | notADirectory => "Not a directory (os error 20)"
  | isADirectory => "Is a directory (os error 21)"
  | nameTooLong => "File name too long (os error 36)"
  | zeroInPath => "file name contained an unexpected NUL byte"
  | notText => "stream did not contain valid UTF-8"

def describe : FileError → String
  | notFound => "Os \x7b code: 2, kind: NotFound, message: \"No such file or directory\" \x7d"
  | notADirectory => "Os \x7b code: 20, kind: NotADirectory, message: \"Not a directory\" \x7d"
  | isADirectory => "Os \x7b code: 21, kind: IsADirectory, message: \"Is a directory\" \x7d"
  | nameTooLong =>
    "Os \x7b code: 36, kind: InvalidFilename, message: \"File name too long\" \x7d"
  | zeroInPath =>
    "Error \x7b kind: InvalidInput, message: \"file name contained an unexpected NUL byte\" \x7d"
  | notText =>
    "Error \x7b kind: InvalidData, message: \"stream did not contain valid UTF-8\" \x7d"

end FileError

namespace Error

def message : Error → String
  | unknownOpcode word => "opcode " ++ Hex.lower 4 word.toNat ++ " not recognized"
  | stackOverflow pc => "stack overflow calling from " ++ Hex.lower 3 pc.toNat
  | stackUnderflow pc => "stack underflow returning from " ++ Hex.lower 3 pc.toNat
  | outOfBounds addr len =>
    "access of " ++ toString len ++ " byte(s) at " ++ Hex.lower 4 addr ++ " is out of bounds"
  | romTooLarge len max =>
    "rom is " ++ toString len ++ " bytes, but only " ++ toString max
      ++ " bytes fit in program memory"
  | invalidKey key => "tried to press key " ++ Hex.upper key ++ " which does not exist"
  | invalidRegister reg => "tried to access register v" ++ Hex.upper reg ++ " which does not exist"
  | invalidOpcodeName name => "no instruction key named \"" ++ name ++ "\""
  | unknownVariable name => "profile has no variable named \"" ++ name ++ "\""
  | invalidAction action count =>
    "action " ++ toString action ++ " is out of range (the profile defines " ++ toString count
      ++ " actions)"
  | noProfile => "no rom profile has been loaded"
  | noActions => "rom profile declares no actions"
  | breakpointHit addr word =>
    "breakpoint hit: " ++ Hex.lower 3 addr.toNat ++ " (" ++ Hex.lower 4 word.toNat ++ ")"
  | file cause => cause.message
  | json failure => failure.message

def withFields (name : String) (fields : List (String × String)) : String :=
  let entries := fields.map fun (field, value) => field ++ ": " ++ value
  name ++ " \x7b " ++ String.intercalate ", " entries ++ " \x7d"

def describe : Error → String
  | unknownOpcode word => withFields "UnknownOpcode" [("word", toString word)]
  | stackOverflow pc => withFields "StackOverflow" [("pc", toString pc)]
  | stackUnderflow pc => withFields "StackUnderflow" [("pc", toString pc)]
  | outOfBounds addr len =>
    withFields "OutOfBounds" [("addr", toString addr), ("len", toString len)]
  | romTooLarge len max => withFields "RomTooLarge" [("len", toString len), ("max", toString max)]
  | invalidKey key => withFields "InvalidKey" [("key", toString key)]
  | invalidRegister reg => withFields "InvalidRegister" [("reg", toString reg)]
  | invalidOpcodeName name => withFields "InvalidKeyName" [("key", Quoted.quote name)]
  | unknownVariable name => withFields "UnknownVariable" [("name", Quoted.quote name)]
  | invalidAction action count =>
    withFields "InvalidAction" [("action", toString action), ("count", toString count)]
  | noProfile => "NoProfile"
  | noActions => "NoActions"
  | breakpointHit addr word =>
    withFields "BreakpointHit" [("addr", toString addr), ("word", toString word)]
  | file cause => "IoError(" ++ cause.describe ++ ")"
  | json failure => "JsonError(" ++ failure.describe ++ ")"

end Error

end Chip8
