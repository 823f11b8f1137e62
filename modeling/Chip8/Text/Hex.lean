/-! # Hexadecimal numerals

Numbers in base sixteen, in either case, filled up on the left to a least width. A number
that needs more digits than the width takes as many as it needs.
-/

namespace Chip8.Text.Hex

def digits (n : Nat) : List Char := Nat.toDigits 16 n

/-- Lower case, with zeros in front up to the width. -/
def lower (width n : Nat) : String := String.ofList ((digits n).leftpad width '0')

/-- Lower case, with blanks in front up to the width. -/
def lowerBlank (width n : Nat) : String := String.ofList ((digits n).leftpad width ' ')

/-- Upper case, as few digits as the number needs. -/
def upper (n : Nat) : String := String.ofList ((digits n).map Char.toUpper)

end Chip8.Text.Hex
