/-! # Numbers on the command line

A number is written with digits alone, but for a plus that may stand in front. It has to fit a
bound.
-/

namespace Chip8.Cli

inductive NumeralError
  | empty
  | badDigit
  | tooLarge
deriving DecidableEq

def NumeralError.message : NumeralError → String
  | empty => "cannot parse integer from empty string"
  | badDigit => "invalid digit found in string"
  | tooLarge => "number too large to fit in target type"

def digitBelow? (radix : Nat) (c : Char) : Option Nat :=
  let value :=
    if '0' ≤ c ∧ c ≤ '9' then c.toNat - '0'.toNat
    else if 'a' ≤ c ∧ c ≤ 'z' then c.toNat - 'a'.toNat + 10
    else if 'A' ≤ c ∧ c ≤ 'Z' then c.toNat - 'A'.toNat + 10
    else 36
  if value < radix then some value else none

/-- Goes on with the digits of a number that began with `value`. -/
def digitsFrom (radix max value : Nat) : List Char → Except NumeralError Nat
  | [] => .ok value
  | c :: rest =>
    match digitBelow? radix c with
    | none => .error .badDigit
    | some digit =>
      if value * radix + digit ≤ max then digitsFrom radix max (value * radix + digit) rest
      else .error .tooLarge

def readNumeral (radix max : Nat) (text : String) : Except NumeralError Nat :=
  match text.toList with
  | [] => .error .empty
  | ['+'] => .error .badDigit
  | '+' :: digits => digitsFrom radix max 0 digits
  | digits => digitsFrom radix max 0 digits

end Chip8.Cli
