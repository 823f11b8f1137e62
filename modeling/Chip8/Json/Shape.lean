import Chip8.Json.Number
import Chip8.Json.Text

/-! # Values of a wanted shape

Readers of null, of strings and of natural numbers, and the fault that names a value of another
shape. To name such a value it has to be read, and what is wrong inside it comes first.
-/

namespace Chip8.Json

/-- The fault of a value that begins here and is not what was expected. -/
def mismatch (expected : String) (s : List Char) : Fault :=
  let named (found : Found) (rest : List Char) : Fault := .here (.wrongType found expected) rest
  let after {α : Type} (read : Except Fault (α × List Char)) (found : α → Found) : Fault :=
    match read with
    | .ok (value, rest) => named (found value) rest
    | .error fault => fault
  match s with
  | [] => .next .endInValue []
  | 'n' :: rest => after (word ['u', 'l', 'l'] rest) fun _ => .null
  | 't' :: rest => after (word ['r', 'u', 'e'] rest) fun _ => .boolean true
  | 'f' :: rest => after (word ['a', 'l', 's', 'e'] rest) fun _ => .boolean false
  | '-' :: rest => after (number false rest) Number.found
  | '\x22' :: rest => after (text rest) Found.text
  | '[' :: _ => named .array s
  | '\x7b' :: _ => named .object s
  | c :: _ =>
    if c.isDigit then after (number true s) Number.found else .next .expectedValue s

def readNull : Reader Unit := fun s =>
  match skipBlanks s with
  | 'n' :: rest => word ['u', 'l', 'l'] rest
  | s => .error (mismatch "unit" s)

/-- A string, which the fault calls what was expected. -/
def readText (expected : String) : Reader String := fun s =>
  match skipBlanks s with
  | '\x22' :: rest => text rest
  | s => .error (mismatch expected s)

def readSize : Reader UInt64 := fun s =>
  let s := skipBlanks s
  let read : Except Fault (Number × List Char) := match s with
    | '-' :: rest => number false rest
    | c :: rest => if c.isDigit then number true (c :: rest) else .error (mismatch "usize" s)
    | [] => .error (mismatch "usize" s)
  match read with
  | .error fault => .error fault
  | .ok (.natural n, rest) => .ok (n, rest)
  | .ok (.negative n, rest) => .error (.here (.wrongValue (.integer (-n)) "usize") rest)
  | .ok (.real x, rest) => .error (.here (.wrongType (Number.real x).found "usize") rest)

end Chip8.Json
