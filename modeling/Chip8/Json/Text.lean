import Chip8.Json.Reader

/-! # Strings in JSON

`quote` writes a string, `text` reads one whose opening quote was read. A string that nobody wants
is read by `skipText`, which does not ask whether its escapes name characters.
-/

namespace Chip8.Json

open Text (Hex.lower)

/-- The escapes of one letter, with the characters that they name. -/
def letterEscapes : List (Char × Char) :=
  [('\x22', '\x22'), ('\\', '\\'), ('/', '/'), ('b', '\x08'), ('f', '\x0c'), ('n', '\n'),
   ('r', '\r'), ('t', '\t')]

def hexValue? (c : Char) : Option Nat :=
  if '0' ≤ c ∧ c ≤ '9' then some (c.toNat - '0'.toNat)
  else if 'a' ≤ c ∧ c ≤ 'f' then some (c.toNat - 'a'.toNat + 10)
  else if 'A' ≤ c ∧ c ≤ 'F' then some (c.toNat - 'A'.toNat + 10)
  else none

def hexUnit (s : List Char) : Except Fault Nat :=
  if byteLength (s.take 4) < 4 then .error (.here .endInString [])
  else
    match (s.take 4).mapM hexValue? with
    | some [a, b, c, d] => .ok (((a * 16 + b) * 16 + c) * 16 + d)
    | _ => .error ⟨.badEscape, s, 4⟩

def isHighSurrogate (unit : Nat) : Bool := 0xd800 ≤ unit && unit ≤ 0xdbff

def isLowSurrogate (unit : Nat) : Bool := 0xdc00 ≤ unit && unit ≤ 0xdfff

def ofSurrogates (high low : Nat) : Char :=
  Char.ofNat (0x10000 + (high - 0xd800) * 0x400 + (low - 0xdc00))

/-- The character that the four digits after `\u` name, and how many characters it takes to name it.
One half of a pair asks for the other. -/
def unicodeEscape (s : List Char) : Except Fault (Char × Nat) := do
  let high ← hexUnit s
  if isLowSurrogate high then throw (.here .loneSurrogate (s.drop 4))
  if !isHighSurrogate high then return (Char.ofNat high, 4)
  match s.drop 4 with
  | [] => throw (.here .endInString [])
  | '\\' :: [] => throw (.here .endInString [])
  | '\\' :: 'u' :: rest =>
    let low ← hexUnit rest
    if !isLowSurrogate low then throw (.here .loneSurrogate (rest.drop 4))
    return (ofSurrogates high low, 10)
  | '\\' :: rest => throw (.next .unfinishedSurrogate rest)
  | rest => throw (.next .unfinishedSurrogate rest)

/-- The character that an escape names, and how many characters follow its backslash. -/
def escape (s : List Char) : Except Fault (Char × Nat) :=
  match s with
  | [] => .error (.here .endInString [])
  | 'u' :: rest => (unicodeEscape rest).map fun (c, size) => (c, size + 1)
  | c :: _ =>
    match letterEscapes.lookup c with
    | some named => .ok (named, 1)
    | none => .error (.next .badEscape s)

/-- The rest of a string after as many characters as belong to an escape. -/
def textAfter : Nat → Reader (List Char)
  | _, [] => .error (.here .endInString [])
  | skip + 1, _ :: rest => textAfter skip rest
  | 0, c :: rest =>
    if c = '\x22' then .ok ([], rest)
    else if c = '\\' then do
      let (named, size) ← escape rest
      let (cs, rest) ← textAfter size rest
      return (named :: cs, rest)
    else if c < ' ' then .error (.next .controlCharacter (c :: rest))
    else do
      let (cs, rest) ← textAfter 0 rest
      return (c :: cs, rest)

/-- A string whose opening quote was read. -/
def text : Reader String := fun s => do
  let (cs, rest) ← textAfter 0 s
  return (String.ofList cs, rest)

/-- How many characters follow the backslash of an escape that may name nothing. -/
def escapeSize (s : List Char) : Except Fault Nat :=
  match s with
  | [] => .error (.here .endInString [])
  | 'u' :: rest => (hexUnit rest).map fun _ => 5
  | c :: _ => if (letterEscapes.lookup c).isSome then .ok 1 else .error (.next .badEscape s)

def skipTextAfter : Nat → Reader Unit
  | _, [] => .error (.here .endInString [])
  | skip + 1, _ :: rest => skipTextAfter skip rest
  | 0, c :: rest =>
    if c = '\x22' then .ok ((), rest)
    else if c = '\\' then do skipTextAfter (← escapeSize rest) rest
    else if c < ' ' then .error (.here .controlCharacter (c :: rest))
    else skipTextAfter 0 rest

/-- A string whose opening quote was read and which nobody wants. -/
def skipText : Reader Unit := skipTextAfter 0

/-- One character as it is written in a string. -/
def quoteChar (c : Char) : List Char :=
  if c = '\x22' then ['\\', '\x22']
  else if c = '\\' then ['\\', '\\']
  else if c = '\x08' then ['\\', 'b']
  else if c = '\x0c' then ['\\', 'f']
  else if c = '\n' then ['\\', 'n']
  else if c = '\r' then ['\\', 'r']
  else if c = '\t' then ['\\', 't']
  else if c < ' ' then ['\\', 'u', '0', '0'] ++ (Hex.lower 2 c.toNat).toList
  else [c]

def quote (s : String) : List Char := '\x22' :: s.toList.flatMap quoteChar ++ ['\x22']

end Chip8.Json
