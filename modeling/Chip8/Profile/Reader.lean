import Chip8.Files
import Chip8.Json.Shape
import Chip8.Json.Skip
import Chip8.Path
import Chip8.Profile.Writer

/-! # Reading profiles

A profile and each of its variables may be given as an object, whose unknown members are passed
over, or as an array of their fields in order. A field may not be given twice.
-/

namespace Chip8

open Json

/-- The input after the brace that closes an object, if it is what comes next. -/
def afterObject (s : List Char) : List Char :=
  match skipBlanks s with
  | '\x7d' :: rest => rest
  | rest => rest

/-- The value of a field whose key was read, unless the field has one already. -/
def readField {α : Type} (name : String) (known : Option α) (value : Reader α) : Reader α :=
  fun s => do
    if known.isSome then throw (.here (.repeatedField name) (afterObject s))
    let ((), rest) ← colon s
    value rest

/-- The value of a member that is not known. -/
def skipMember : Reader Unit := fun s => do
  let ((), rest) ← colon s
  skipValue rest

/-- A field that an object has to have. -/
def required {α : Type} (name : String) (field : Option α) (rest : List Char) : Except Fault α :=
  match field with
  | some value => .ok value
  | none => .error (.here (.missingField name) rest)

/-- The next item of an array that has to have it. -/
def requiredItem {α : Type} (place : Nat) (expected : String) (value : Reader α) : Reader α :=
  fun s => do
    match ← hasItem (place == 0) s with
    | (true, rest) => value rest
    | (false, rest) => throw (.here (.wrongLength place expected) (rest.drop 1))

/-- The next item of an array that need not have it. -/
def optionalItem {α : Type} (absent : α) (value : Reader α) : Reader α := fun s => do
  match ← hasItem false s with
  | (true, rest) => value rest
  | (false, rest) => return (absent, rest)

namespace VariableKind

def all : List VariableKind := [decimal, register]

/-- The kind that a string names whose opening quote was read. -/
def readName : Reader VariableKind := fun s => do
  let (name, rest) ← Json.text s
  match all.find? fun kind => kind.name = name with
  | some kind => return (kind, rest)
  | none => throw (.here (.unknownVariant name (all.map VariableKind.name)) rest)

/-- A kind is written as its name, or as an object whose only key is its name and whose value is
null. -/
def read : Reader VariableKind := fun s => do
  match skipBlanks s with
  | [] => throw (.next .endInValue [])
  | '\x22' :: rest => readName rest
  | '\x7b' :: rest =>
    match skipBlanks rest with
    | '\x22' :: rest =>
      let (kind, rest) ← readName rest
      let ((), rest) ← colon rest
      let ((), rest) ← readNull rest
      match skipBlanks rest with
      | '\x7d' :: rest => return (kind, rest)
      | [] => throw (.here .endInObject [])
      | rest => throw (.here .expectedValue rest)
    | [] => throw (.next .endInObject [])
    | '\x7d' :: rest => throw (.next .expectedValue ('\x7d' :: rest))
    | rest => throw (.next .keyNotString rest)
  | rest => throw (.next .expectedValue rest)

end VariableKind

namespace Variable

structure Fields where
  kind : Option VariableKind
  index : Option UInt64

def Fields.read (name : String) (fields : Fields) : Reader Fields := fun s => do
  if name = "type" then
    let (kind, rest) ← readField "type" fields.kind VariableKind.read s
    return ({ fields with kind := some kind }, rest)
  else if name = "index" then
    let (index, rest) ← readField "index" fields.index readSize s
    return ({ fields with index := some index }, rest)
  else
    let ((), rest) ← skipMember s
    return (fields, rest)

def readJson : Reader Variable := fun s => do
  match skipBlanks s with
  | '\x7b' :: rest =>
    let (fields, rest) ← membersUpTo Json.text Fields.read (rest.length + 1) true ⟨none, none⟩ rest
    let kind ← required "type" fields.kind rest
    let index ← required "index" fields.index rest
    return (⟨kind, index⟩, rest)
  | '[' :: rest =>
    let expected := "struct Variable with 2 elements"
    let (kind, rest) ← requiredItem 0 expected VariableKind.read rest
    let (index, rest) ← requiredItem 1 expected readSize rest
    let ((), rest) ← arrayEnd rest
    return (⟨kind, index⟩, rest)
  | s => throw (mismatch "struct Variable" s)

end Variable

namespace Profile

/-- Variables by name. A name that is given twice has its last value. -/
def readVariables : Reader (Named Variable) := fun s => do
  match skipBlanks s with
  | '\x7b' :: rest =>
    let member (name : String) (vars : Named Variable) : Reader (Named Variable) := fun s => do
      let ((), rest) ← colon s
      let (var, rest) ← Variable.readJson rest
      return (vars.insert name var, rest)
    membersUpTo Json.text member (rest.length + 1) true .empty rest
  | s => throw (mismatch "a map" s)

/-- Null stands for no actions. -/
def readActions : Reader (Option (List UInt64)) := fun s => do
  match skipBlanks s with
  | 'n' :: rest =>
    let ((), rest) ← word ['u', 'l', 'l'] rest
    return (none, rest)
  | '[' :: rest =>
    let (keys, rest) ← items readSize rest
    return (some keys, rest)
  | s => throw (mismatch "a sequence" s)

structure Fields where
  rom : Option String
  vars : Option (Named Variable)
  actions : Option (Option (List UInt64))

def Fields.read (name : String) (fields : Fields) : Reader Fields := fun s => do
  if name = "rom" then
    let (rom, rest) ← readField "rom" fields.rom (readText "path string") s
    return ({ fields with rom := some rom }, rest)
  else if name = "variables" then
    let (vars, rest) ← readField "variables" fields.vars readVariables s
    return ({ fields with vars := some vars }, rest)
  else if name = "actions" then
    let (actions, rest) ← readField "actions" fields.actions readActions s
    return ({ fields with actions := some actions }, rest)
  else
    let ((), rest) ← skipMember s
    return (fields, rest)

def readJson : Reader Profile := fun s => do
  match skipBlanks s with
  | '\x7b' :: rest =>
    let (fields, rest) ←
      membersUpTo Json.text Fields.read (rest.length + 1) true ⟨none, none, none⟩ rest
    let rom ← required "rom" fields.rom rest
    return (⟨rom, fields.vars.getD .empty, fields.actions.getD none⟩, rest)
  | '[' :: rest =>
    let (rom, rest) ← requiredItem 0 "struct Profile with 3 elements" (readText "path string") rest
    let (vars, rest) ← optionalItem .empty readVariables rest
    let (actions, rest) ← optionalItem none readActions rest
    let ((), rest) ← arrayEnd rest
    return (⟨rom, vars, actions⟩, rest)
  | s => throw (mismatch "struct Profile" s)

/-- Reads a profile from its text. All keys that it lets a controller press have to exist. -/
def ofJson (text : String) : Except Error Profile :=
  match Json.readAll readJson text with
  | .ok profile => profile.validate
  | .error failure => .error (.json failure)

/-- The profile with the path of its program continued from the directory that another path lies
in, if it lies in one. -/
def relocate (profile : Profile) (path : String) : Profile :=
  match Path.parent? path with
  | some dir => { profile with rom := Path.join dir profile.rom }
  | none => profile

/-- Reads a profile from its file. The path of its program continues from where the file is. -/
def load (files : Files) (path : String) : Except Error Profile := do
  let profile ← ofJson (← files.readText path)
  return profile.relocate path

end Profile

end Chip8
