import Chip8.Json.Reader
import Chip8.Text.Shortest

/-! # Numbers in JSON

A numeral without fraction and exponent is an integer if it fits 64 bits. Every other numeral is a
floating point number, and must not be too large for one.
-/

namespace Chip8.Json

inductive Number
  | natural (n : UInt64)
  /-- Minus `n`, which is at least one. -/
  | negative (n : Nat)
  | real (x : Float)

namespace Number

def found : Number → Found
  | natural n => .integer n.toNat
  | negative n => .integer (-n)
  | real x => .float (Text.Shortest.numeral x)

end Number

def digitValue (c : Char) : Nat := c.toNat - '0'.toNat

/-- The digits in front and what follows them. -/
def digitRun (s : List Char) : List Char × List Char :=
  (s.takeWhile Char.isDigit, s.dropWhile Char.isDigit)

/-- Appends digits to a number as long as it does not pass a bound, and counts those that were left
out. -/
def appendDigits (max n : Nat) : List Char → Nat × Nat
  | [] => (n, 0)
  | c :: cs =>
    let m := n * 10 + digitValue c
    if m ≤ max then appendDigits max m cs else (n, cs.length + 1)

/-- The greatest significand that is kept. -/
def significandMax : Nat := UInt64.size - 1

/-- A floating point number times a power of ten. None if it is too large. -/
def scale? (x : Float) (exponent : Int) : Nat → Option Float
  | 0 => some 0
  | fuel + 1 =>
    if exponent.natAbs ≤ 308 then
      let power := Float.ofScientific 1 false exponent.natAbs
      let y := if 0 ≤ exponent then x * power else x / power
      if y.isInf then none else some y
    else if x == 0 then some x
    else if 0 ≤ exponent then none
    else scale? (x / Float.ofScientific 1 false 308) (exponent + 308) fuel

/-- The number `± significand * 10^exponent`. -/
def real (positive : Bool) (significand : Nat) (exponent : Int) : Reader Number := fun rest =>
  match scale? (UInt64.ofNat significand).toFloat exponent 4 with
  | some x => .ok (.real (if positive then x else -x), rest)
  | none => .error (.here .numberOutOfRange rest)

/-- The greatest exponent that is taken as it is written. -/
def exponentMax : Nat := 0x7fffffff

/-- The exponent whose letter was read. -/
def exponentPart (positive : Bool) (significand : Nat) (exponent : Int) : Reader Number := fun s =>
  let (up, s) : Bool × List Char := match s with
    | '+' :: rest => (true, rest)
    | '-' :: rest => (false, rest)
    | rest => (true, rest)
  match digitRun s with
  | ([], []) => .error (.here .endInValue [])
  | ([], rest) => .error (.next .badNumber rest)
  | (digits, rest) =>
    let (value, dropped) := appendDigits exponentMax 0 digits
    if dropped = 0 then
      real positive significand (if up then exponent + value else exponent - value) rest
    else if significand ≠ 0 ∧ up then
      .error (.next .numberOutOfRange (s.drop (digits.length - dropped)))
    else .ok (.real (if positive then 0 else -0), rest)

/-- The fraction whose point was read. -/
def fractionPart (positive : Bool) (significand : Nat) (exponent : Int) : Reader Number := fun s =>
  match digitRun s with
  | ([], []) => .error (.next .endInValue [])
  | ([], rest) => .error (.next .badNumber rest)
  | (digits, rest) =>
    let (significand, dropped) := appendDigits significandMax significand digits
    let exponent := exponent - (digits.length - dropped : Nat)
    match rest with
    | 'e' :: rest => exponentPart positive significand exponent rest
    | 'E' :: rest => exponentPart positive significand exponent rest
    | rest => real positive significand exponent rest

/-- The greatest number that has a negative integer of 64 bits for its opposite. -/
def negativeMax : Nat := 0x8000000000000000

/-- An integer if it is one: minus zero is none. -/
def integer (positive : Bool) (significand : Nat) : Number :=
  if positive then .natural (UInt64.ofNat significand)
  else if significand = 0 ∨ negativeMax < significand then
    .real (-(UInt64.ofNat significand).toFloat)
  else .negative significand

/-- What follows the first digits of a number. -/
def numberAfter (positive : Bool) (digits : List Char) : Reader Number := fun s =>
  let (significand, dropped) := appendDigits significandMax 0 digits
  match s with
  | '.' :: rest => fractionPart positive significand dropped rest
  | 'e' :: rest => exponentPart positive significand dropped rest
  | 'E' :: rest => exponentPart positive significand dropped rest
  | rest =>
    if dropped = 0 then .ok (integer positive significand, rest)
    else real positive significand dropped rest

/-- A number whose sign was read. A zero in front stands alone. -/
def number (positive : Bool) : Reader Number := fun s =>
  match s with
  | [] => .error (.here .endInValue [])
  | '0' :: rest =>
    match rest with
    | c :: _ =>
      if c.isDigit then .error (.next .badNumber rest) else numberAfter positive ['0'] rest
    | [] => numberAfter positive ['0'] rest
  | c :: rest =>
    if c.isDigit then numberAfter positive (digitRun (c :: rest)).1 (digitRun (c :: rest)).2
    else .error (.next .badNumber (c :: rest))

def numeral (n : UInt64) : List Char := Nat.toDigits 10 n.toNat

end Chip8.Json
