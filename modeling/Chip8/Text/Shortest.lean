/-! # Shortest decimals of floating point numbers

The fewest digits that read back as the same number, and among those the nearest to it. They are
found in exact arithmetic: a number is a fraction, the numbers that round to it form an
interval, and the digits name the point of a decimal grid that lies in the interval.
-/

namespace Chip8.Text.Shortest

structure Ratio where
  num : Nat
  den : Nat

/-- Twice the fraction `m * 2^q`, and the ends of the interval that rounds to it, over one
denominator. -/
structure Interval where
  low : Nat
  mid : Nat
  high : Nat
  den : Nat
  /-- Whether the ends round to the number as well. -/
  closed : Bool

/-- The bit that the significand of a normal number has in front of its written ones. -/
def hiddenBit : Nat := 0x10000000000000

/-- The exponent by the bits of a number, counted from the least one. Zero if the number is too
small to be normal. -/
def exponentField (bits : Nat) : Nat := bits / hiddenBit % 0x800

def fraction (bits : Nat) : Nat := bits % hiddenBit

/-- The interval of a positive finite number by its bits. The gap below a power of two is half as
wide as the one above it. -/
def Interval.ofBits (bits : Nat) : Interval :=
  let m := if exponentField bits = 0 then fraction bits else hiddenBit + fraction bits
  let e := max (exponentField bits) 1
  let narrow := fraction bits = 0 ∧ 1 < exponentField bits
  let scale := 1 <<< (e - 1077)
  let den := 1 <<< (1077 - e)
  ⟨(if narrow then 4 * m - 1 else 4 * m - 2) * scale, 4 * m * scale, (4 * m + 2) * scale, den,
    m % 2 = 0⟩

def Interval.contains (i : Interval) (point : Ratio) : Bool :=
  let place := point.num * i.den
  let (low, high) := (i.low * point.den, i.high * point.den)
  (low < place && place < high) || (i.closed && (low = place || place = high))

def tenTo (k : Nat) : Nat := Nat.pow 10 k

/-- The place of the first digit of a positive fraction: the greatest power of ten, which may be
negative, that is not above it. -/
def leadingPower (num den : Nat) : Int :=
  let guess : Int := (Nat.toDigits 10 num).length - (Nat.toDigits 10 den).length
  let below := if 0 ≤ guess then den * tenTo guess.toNat ≤ num else den ≤ num * tenTo (-guess).toNat
  if below then guess else guess - 1

/-- The point of the grid of `10^k` that is nearest to the number, if one lies in the interval. -/
def nearest? (i : Interval) (k : Int) : Option Nat :=
  let unit : Ratio := if 0 ≤ k then ⟨tenTo k.toNat, 1⟩ else ⟨1, tenTo (-k).toNat⟩
  let num := i.mid * unit.den
  let den := i.den * unit.num
  let down := num / den
  let up := down + 1
  let inside := fun d => i.contains ⟨d * unit.num, unit.den⟩
  let remainder := num % den
  match inside down, inside up with
  | true, true =>
    some (if 2 * remainder < den || (2 * remainder = den && down % 2 = 0) then down else up)
  | true, false => some down
  | false, true => some up
  | false, false => none

/-- Tries one digit more at a time, up to seventeen of them. -/
def search (i : Interval) (lead : Int) : Nat → Nat × Int
  | 0 => (i.mid / i.den, 0)
  | left + 1 =>
    let k := lead - (17 - (left + 1) : Nat)
    match nearest? i k with
    | some d => (d, k)
    | none => search i lead left

/-- Takes zeros off the end of a numeral. -/
def trimZeros (d : Nat) (k : Int) : Nat → Nat × Int
  | 0 => (d, k)
  | fuel + 1 => if d ≠ 0 ∧ d % 10 = 0 then trimZeros (d / 10) (k + 1) fuel else (d, k)

/-- Digits and the power of ten that they are multiples of. -/
def decimal (bits : Nat) : Nat × Int :=
  let i := Interval.ofBits bits
  let (d, k) := search i (leadingPower i.mid i.den) 17
  trimZeros d k 18

/-- Positional from `1e-5` up to sixteen digits in front of the point, and with an exponent beyond,
which has its sign either way. A number without a fraction keeps one zero. -/
def layout (digits : List Char) (k : Int) : List Char :=
  let point : Int := digits.length + k
  if 0 ≤ k ∧ point ≤ 16 then digits ++ List.replicate k.toNat '0' ++ ['.', '0']
  else if 0 < point ∧ point ≤ 16 then
    digits.take point.toNat ++ ['.'] ++ digits.drop point.toNat
  else if -5 < point ∧ point ≤ 0 then
    ['0', '.'] ++ List.replicate (-point).toNat '0' ++ digits
  else
    let exponent := (if 0 < point then ['+'] else []) ++ (toString (point - 1)).toList
    match digits with
    | [d] => d :: 'e' :: exponent
    | d :: ds => d :: '.' :: ds ++ 'e' :: exponent
    | [] => []

def signBit : Nat := 0x8000000000000000

def numeral (x : Float) : String :=
  let bits := x.toBits.toNat
  let sign := if signBit ≤ bits then "-" else ""
  if bits % signBit = 0 then sign ++ "0.0"
  else
    let (d, k) := decimal (bits % signBit)
    sign ++ String.ofList (layout (Nat.toDigits 10 d) k)

end Chip8.Text.Shortest
