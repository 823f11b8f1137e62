import Chip8.Layout

/-! # The display

A grid of 64 by 32 pixels that are lit or dark, and a flag that tells whether it has changed since
somebody last asked. A row is a word of 64 bits whose most significant bit is its leftmost
pixel, so a sprite row is drawn by one exclusive or with a shifted byte.
-/

namespace Chip8

abbrev Row := BitVec Layout.screenColumns

/-- The pixels alone, top row first. -/
abbrev Screen := Vector Row Layout.screenRows

structure Display where
  screen : Screen
  changed : Bool
deriving DecidableEq

namespace Display

def blankScreen : Screen := Vector.replicate Layout.screenRows 0

def blank : Display := ⟨blankScreen, false⟩

/-- The pixel in column `x` of row `y`. Beyond the edges nothing is lit. -/
def pixel (d : Display) (x y : Nat) : Bool :=
  if h : y < Layout.screenRows then d.screen[y].getMsbD x else false

def anyLit (d : Display) : Bool := d.screen.any (· != 0)

/-- Darkens every pixel. The display then counts as changed if one was lit, whatever it counted
as before. -/
def clear (d : Display) : Display := ⟨blankScreen, d.anyLit⟩

/-- The pixels of a row that one byte of a sprite covers from column `x` on. What would pass the
right edge is cut off. -/
def rowMask (x : Nat) (byte : UInt8) : Row := (byte.toBitVec ++ (0 : BitVec 56)) >>> x

/-- Flips the pixels under one byte of a sprite, and tells whether it put out a lit one.
Beyond the edges nothing happens. -/
def drawByte (d : Display) (x y : UInt64) (byte : UInt8) : Bool × Display :=
  if h : x.toNat < Layout.screenColumns ∧ y.toNat < Layout.screenRows then
    let row := d.screen[y.toNat]
    let mask := rowMask x.toNat byte
    (row &&& mask != 0, ⟨d.screen.set y.toNat (row ^^^ mask), d.changed || mask != 0⟩)
  else (false, d)

/-- Draws a sprite, a byte for each of its rows, with its top left corner at column `x` of row `y`,
and tells whether it put out a lit pixel. The number of a row counts on modulo 2^64. -/
def drawSprite (d : Display) (x y : UInt64) : List UInt8 → Bool × Display
  | [] => (false, d)
  | byte :: rest =>
    let (hit, d) := d.drawByte x y byte
    let (hits, d) := drawSprite d x (y + 1) rest
    (hit || hits, d)

/-- Tells whether the display has changed, and forgets it. -/
def takeChanged (d : Display) : Bool × Display := (d.changed, { d with changed := false })

end Display

end Chip8
