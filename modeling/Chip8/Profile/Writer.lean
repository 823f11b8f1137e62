import Chip8.Json.Number
import Chip8.Json.Text
import Chip8.Profile

/-! # Writing profiles

A profile is written as a JSON object without blanks. Its actions are left out if it has none.
-/

namespace Chip8

namespace Json

def commaSeparated : List (List Char) → List Char
  | [] => []
  | [item] => item
  | item :: rest => item ++ ',' :: commaSeparated rest

def writeArray (items : List (List Char)) : List Char := '[' :: commaSeparated items ++ [']']

/-- An object of members that are given by key and written value. -/
def writeObject (members : List (String × List Char)) : List Char :=
  '\x7b' :: commaSeparated (members.map fun (key, value) => quote key ++ ':' :: value) ++ ['\x7d']

end Json

open Json

def VariableKind.name : VariableKind → String
  | decimal => "mem_bcd"
  | register => "register"

def Variable.write (var : Variable) : List Char :=
  writeObject [("type", quote var.kind.name), ("index", numeral var.index)]

namespace Profile

def writeVariables (profile : Profile) : List Char :=
  writeObject (profile.vars.entries.map fun (name, var) => (name, var.write))

def writeActions (profile : Profile) : List (String × List Char) :=
  match profile.actions with
  | some keys => [("actions", writeArray (keys.map numeral))]
  | none => []

def toJson (profile : Profile) : String :=
  String.ofList (writeObject
    ([("rom", quote profile.rom), ("variables", profile.writeVariables)] ++ profile.writeActions))

end Profile

end Chip8
