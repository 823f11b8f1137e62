import Chip8.Json.Text

/-! # Values that nobody wants

A member that is not known may hold any value. It is passed over without a limit on how deep arrays
and objects lie in each other, and without asking how large its numbers are.
-/

namespace Chip8.Json

/-- Arrays and objects that were opened and not yet closed. -/
inductive Bracket
  | array
  | object
deriving DecidableEq

def Bracket.closing : Bracket → Char
  | array => ']'
  | object => '\x7d'

def skipDigits (s : List Char) : List Char := s.dropWhile Char.isDigit

/-- The exponent whose letter was read. -/
def skipExponent : Reader Unit := fun s =>
  let s := match s with
    | '+' :: rest => rest
    | '-' :: rest => rest
    | rest => rest
  match s with
  | [] => .error (.here .badNumber [])
  | c :: rest =>
    if c.isDigit then .ok ((), skipDigits rest) else .error (.next .badNumber (c :: rest))

/-- The fraction whose point was read. -/
def skipFraction : Reader Unit := fun s =>
  match s with
  | [] => .error (.next .badNumber [])
  | c :: _ =>
    if c.isDigit then
      match skipDigits s with
      | 'e' :: rest => skipExponent rest
      | 'E' :: rest => skipExponent rest
      | rest => .ok ((), rest)
    else .error (.next .badNumber s)

def skipNumberEnd : Reader Unit := fun s =>
  match s with
  | '.' :: rest => skipFraction rest
  | 'e' :: rest => skipExponent rest
  | 'E' :: rest => skipExponent rest
  | rest => .ok ((), rest)

/-- A number whose sign was read. -/
def skipNumber : Reader Unit := fun s =>
  match s with
  | [] => .error (.here .badNumber [])
  | '0' :: rest =>
    match rest with
    | c :: _ => if c.isDigit then .error (.next .badNumber rest) else skipNumberEnd rest
    | [] => .ok ((), [])
  | c :: rest =>
    if c.isDigit then skipNumberEnd (skipDigits rest) else .error (.next .badNumber (c :: rest))

/-- What begins at a value: a bracket that opens, or a value that is complete. -/
def skipStart : Reader (Option Bracket) := fun s =>
  match skipBlanks s with
  | [] => .error (.next .endInValue [])
  | c :: rest =>
    let complete (read : Except Fault (Unit × List Char)) :=
      read.map fun (_, rest) => ((none : Option Bracket), rest)
    if c = 'n' then complete (word ['u', 'l', 'l'] rest)
    else if c = 't' then complete (word ['r', 'u', 'e'] rest)
    else if c = 'f' then complete (word ['a', 'l', 's', 'e'] rest)
    else if c = '-' then complete (skipNumber rest)
    else if c.isDigit then complete (skipNumber (c :: rest))
    else if c = '\x22' then complete (skipText rest)
    else if c = '[' then .ok (some .array, rest)
    else if c = '\x7b' then .ok (some .object, rest)
    else .error (.next .expectedValue (c :: rest))

/-- Closes what ends here. What stays open is the list of brackets, the innermost first; an array
or object that has just begun takes no comma. -/
def skipClosing : Bool → List Bracket → Reader (List Bracket)
  | _, [], s => .ok ([], s)
  | fresh, bracket :: outer, s =>
    match skipBlanks s with
    | [] => .error (.next (if bracket = .array then .endInArray else .endInObject) [])
    | c :: rest =>
      if c = ',' ∧ !fresh then .ok (bracket :: outer, rest)
      else if c = bracket.closing then skipClosing false outer rest
      else if fresh then .ok (bracket :: outer, c :: rest)
      else
        .error (.next (if bracket = .array then .expectedArrayEnd else .expectedObjectEnd)
          (c :: rest))

/-- The key in front of a member's value. -/
def skipKey : Reader Unit := fun s => do
  match skipBlanks s with
  | [] => throw (.next .endInObject [])
  | '\x22' :: rest =>
    let ((), rest) ← skipText rest
    colon rest
  | rest => throw (.next .keyNotString rest)

/-- What follows a value or a bracket that opens, until nothing is open any more. -/
def skipOpen : Nat → Bool → List Bracket → Reader Unit
  | 0, _, _, s => .error (.next .endInValue s)
  | fuel + 1, fresh, brackets, s => do
    match ← skipClosing fresh brackets s with
    | ([], rest) => return ((), rest)
    | (bracket :: outer, rest) =>
      let ((), rest) ← if bracket = .object then skipKey rest else .ok ((), rest)
      match ← skipStart rest with
      | (some inner, rest) => skipOpen fuel true (inner :: bracket :: outer) rest
      | (none, rest) => skipOpen fuel false (bracket :: outer) rest

/-- Passes over one value. -/
def skipValue : Reader Unit := fun s => do
  match ← skipStart s with
  | (some bracket, rest) => skipOpen (rest.length + 1) true [bracket] rest
  | (none, rest) => return ((), rest)

end Chip8.Json
