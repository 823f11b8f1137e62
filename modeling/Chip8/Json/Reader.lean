import Chip8.Json.Fault

/-! # Reading JSON

A reader takes what it needs from the front of the input, and stops at the first fault. The readers
here are those that all others share: blanks, fixed words, and what stands between the items of
arrays and objects.
-/

namespace Chip8.Json

/-- Gives what was read and the input that is left, or a fault. -/
abbrev Reader (α : Type) := List Char → Except Fault (α × List Char)

/-- A fault in front of the next byte. -/
def Fault.here (cause : Cause) (rest : List Char) : Fault := ⟨cause, rest, 0⟩

/-- A fault in the next byte, which counts as read. -/
def Fault.next (cause : Cause) (rest : List Char) : Fault := ⟨cause, rest, 1⟩

def isBlank (c : Char) : Bool := c = ' ' || c = '\n' || c = '\t' || c = '\r'

def skipBlanks (s : List Char) : List Char := s.dropWhile isBlank

def word : List Char → Reader Unit
  | [], s => .ok ((), s)
  | _ :: _, [] => .error (.next .endInValue [])
  | c :: cs, d :: ds => if d = c then word cs ds else .error (.next .expectedWord (d :: ds))

/-- The colon between a key and its value. -/
def colon : Reader Unit := fun s =>
  match skipBlanks s with
  | ':' :: rest => .ok ((), rest)
  | [] => .error (.next .endInObject [])
  | rest => .error (.next .expectedColon rest)

/-- Whether an array goes on. If it does, the next item is what comes next, and otherwise the
bracket that closes the array. -/
def hasItem (first : Bool) : Reader Bool := fun s =>
  match skipBlanks s with
  | [] => .error (.next .endInArray [])
  | c :: rest =>
    if c = ']' then .ok (false, c :: rest)
    else if first then .ok (true, c :: rest)
    else if c = ',' then
      match skipBlanks rest with
      | [] => .error (.next .endInValue [])
      | ']' :: rest => .error (.next .trailingComma (']' :: rest))
      | rest => .ok (true, rest)
    else .error (.next .expectedArrayEnd (c :: rest))

/-- Whether an object goes on. If it does, the quote that opens a key is what comes next, and
otherwise the brace that closes the object. -/
def hasMember (first : Bool) : Reader Bool := fun s =>
  match skipBlanks s with
  | [] => .error (.next .endInObject [])
  | c :: rest =>
    if c = '\x7d' then .ok (false, c :: rest)
    else if first then
      if c = '\x22' then .ok (true, c :: rest) else .error (.next .keyNotString (c :: rest))
    else if c = ',' then
      match skipBlanks rest with
      | [] => .error (.next .endInValue [])
      | '\x22' :: rest => .ok (true, '\x22' :: rest)
      | '\x7d' :: rest => .error (.next .trailingComma ('\x7d' :: rest))
      | rest => .error (.next .keyNotString rest)
    else .error (.next .expectedObjectEnd (c :: rest))

/-- The bracket that closes an array of which nothing more is wanted. -/
def arrayEnd : Reader Unit := fun s =>
  match skipBlanks s with
  | ']' :: rest => .ok ((), rest)
  | ',' :: rest =>
    match skipBlanks rest with
    | ']' :: rest => .error (.next .trailingComma (']' :: rest))
    | rest => .error (.next .trailingText rest)
  | [] => .error (.next .endInArray [])
  | rest => .error (.next .trailingText rest)

/-- The items of an array up to its end. -/
def itemsUpTo {α : Type} (item : Reader α) : Nat → Bool → Reader (List α)
  | 0, _, s => .error (.next .endInArray s)
  | fuel + 1, first, s => do
    match ← hasItem first s with
    | (false, rest) => return ([], rest.drop 1)
    | (true, rest) =>
      let (a, rest) ← item rest
      let (as, rest) ← itemsUpTo item fuel false rest
      return (a :: as, rest)

/-- The items of an array whose opening bracket was read. -/
def items {α : Type} (item : Reader α) : Reader (List α) := fun s =>
  itemsUpTo item (s.length + 1) true s

/-- The members of an object up to its end. Each key is taken in by what was gathered so far. -/
def membersUpTo {α : Type} (key : Reader String) (member : String → α → Reader α) :
    Nat → Bool → α → Reader α
  | 0, _, _, s => .error (.next .endInObject s)
  | fuel + 1, first, gathered, s => do
    match ← hasMember first s with
    | (false, rest) => return (gathered, rest.drop 1)
    | (true, rest) =>
      let (name, rest) ← key (rest.drop 1)
      let (gathered, rest) ← member name gathered rest
      membersUpTo key member fuel false gathered rest

/-- Reads a whole text. Only blanks may follow. -/
def readAll {α : Type} (reader : Reader α) (text : String) : Except Failure α :=
  match reader text.toList with
  | .error fault => .error (fault.locate text)
  | .ok (value, rest) =>
    match skipBlanks rest with
    | [] => .ok value
    | rest => .error ((Fault.next .trailingText rest).locate text)

end Chip8.Json
