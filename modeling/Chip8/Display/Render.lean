import Chip8.Display

/-! # Pictures of the display

Two renderings of the pixels as text. The framed one has a character for each pixel. The
braille one has a character for each block of two by four pixels, whose dots are the lit ones.
-/

namespace Chip8.Display

/-- One row between the two sides of the frame. -/
def framedRow (d : Display) (y : Nat) : String :=
  "|" ++ String.ofList ((List.range Layout.screenColumns).map fun x =>
    if d.pixel x y then '#' else ' ') ++ "|\n"

def framedEdge (corner : String) : String :=
  corner ++ String.ofList (List.replicate Layout.screenColumns '-') ++ corner ++ "\n"

/-- The picture with a character for each pixel, inside a frame. -/
def framed (d : Display) : String :=
  framedEdge "." ++ String.join ((List.range Layout.screenRows).map d.framedRow)
    ++ framedEdge "\x27"

/-- The dots of a braille character by their places in the block: column, row, bit. -/
def brailleDots : List (Nat × Nat × Nat) :=
  [(0, 0, 0x01), (0, 1, 0x02), (0, 2, 0x04), (1, 0, 0x08),
   (1, 1, 0x10), (1, 2, 0x20), (0, 3, 0x40), (1, 3, 0x80)]

/-- The bits of the block in column `cx` and row `cy` of blocks. -/
def brailleBits (d : Display) (cx cy : Nat) : Nat :=
  brailleDots.foldl (fun bits (dx, dy, bit) =>
    if d.pixel (2 * cx + dx) (4 * cy + dy) then bits ||| bit else bits) 0

/-- A block with no dot is a blank. -/
def brailleCell (d : Display) (cx cy : Nat) : Char :=
  let bits := d.brailleBits cx cy
  if bits = 0 then ' ' else Char.ofNat (0x2800 + bits)

def brailleRow (d : Display) (cy : Nat) : String :=
  String.ofList ((List.range (Layout.screenColumns / 2 + 1)).map fun cx => d.brailleCell cx cy)
    ++ "\n"

/-- The picture with a character for each block. The canvas has one block more than the screen
fills, to the right and below. -/
def braille (d : Display) : String :=
  String.join ((List.range (Layout.screenRows / 4 + 1)).map d.brailleRow)

end Chip8.Display
