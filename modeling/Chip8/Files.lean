import Chip8.Error

/-! # Files

What reading a file gives, as a function of its path.
-/

namespace Chip8

abbrev Bytes := List UInt8

abbrev Files := String → Except FileError Bytes

namespace Files

def read (files : Files) (path : String) : Except Error Bytes :=
  match files path with
  | .ok bytes => .ok bytes
  | .error cause => .error (.file cause)

def readText (files : Files) (path : String) : Except Error String := do
  match String.fromUTF8? ⟨(← files.read path).toArray⟩ with
  | some text => return text
  | none => throw (.file .notText)

end Files

end Chip8
