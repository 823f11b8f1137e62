import Chip8.Proofs.View

/-! # The table of instructions

What the table of instructions says of each opcode, in plain numbers. A flag is computed from what
the registers held before, and is written last.
-/

namespace Chip8

namespace Table

/-! ## Operands of a word -/

def x (c : Nat) : Nat := c >>> 8 &&& 0xf

def y (c : Nat) : Nat := c >>> 4 &&& 0xf

def n (c : Nat) : Nat := c &&& 0xf

def kk (c : Nat) : Nat := c &&& 0xff

def nnn (c : Nat) : Nat := c &&& 0xfff

/-! ## Effects -/

/-- Whether there is such a place on the screen. -/
def anywhere (place : Nat → Nat → Bool) : Bool :=
  (List.range 32).any fun py => (List.range 64).any fun px => place px py

/-- The places that the sprite of `Dxyn` covers. -/
def covered (c : Nat) (s : View) : Nat → Nat → Bool :=
  Display.covers (s.v (x c)) (s.v (y c)) (n c) fun row => s.memory (s.i + row)

/-- What an opcode puts into the last register, if it puts a flag there. -/
def flag? (c : Nat) (s : View) : Opcode → Option Bool
  | .add => some (s.v (x c) + s.v (y c) > 255)
  | .sub => some (!(s.v (y c) > s.v (x c)))
  | .shiftRight => some (s.v (x c) &&& 1 ≠ 0)
  | .subFrom => some (!(s.v (x c) > s.v (y c)))
  | .shiftLeft => some (s.v (x c) &&& 0x80 ≠ 0)
  | .addIndex => some (s.i + s.v (x c) > 65535)
  | .draw => some (anywhere fun px py => s.lit px py && covered c s px py)
  | _ => none

/-- What an opcode does beside its flag. -/
def body (roll c : Nat) (s : View) : Opcode → View
  | .clearScreen => { s with lit := fun _ _ => false, shown := anywhere s.lit }
  | .ret => { s with pc := s.stack (s.sp - 1), sp := s.sp - 1 }
  | .sys => s
  | .jump => { s with pc := nnn c }
  | .call => { s with stack := View.put s.stack s.sp s.pc, sp := s.sp + 1, pc := nnn c }
  | .skipEqualByte => s.skip (s.v (x c) = kk c)
  | .skipUnequalByte => s.skip (s.v (x c) ≠ kk c)
  | .skipEqual => s.skip (s.v (x c) = s.v (y c))
  | .skipUnequal => s.skip (s.v (x c) ≠ s.v (y c))
  | .loadByte => s.setV (x c) (kk c)
  | .addByte => s.setV (x c) ((s.v (x c) + kk c) % 256)
  | .copy => s.setV (x c) (s.v (y c))
  | .or => s.setV (x c) (s.v (x c) ||| s.v (y c))
  | .and => s.setV (x c) (s.v (x c) &&& s.v (y c))
  | .xor => s.setV (x c) (s.v (x c) ^^^ s.v (y c))
  | .add => s.setV (x c) ((s.v (x c) + s.v (y c)) % 256)
  | .sub => s.setV (x c) ((s.v (x c) + 256 - s.v (y c)) % 256)
  | .shiftRight => s.setV (x c) (s.v (x c) >>> 1)
  | .subFrom => s.setV (y c) ((s.v (y c) + 256 - s.v (x c)) % 256)
  | .shiftLeft => s.setV (x c) ((s.v (x c) <<< 1) % 256)
  | .loadIndex => { s with i := nnn c }
  | .jumpOffset => { s with pc := (s.v 0 + nnn c) % 65536 }
  | .random => s.setV (x c) (roll &&& kk c)
  | .draw =>
    { s with
      lit := fun px py => s.lit px py ^^ covered c s px py
      shown := s.shown || anywhere (covered c s) }
  | .skipKeyDown => s.skip (s.key (s.v (x c)))
  | .skipKeyUp => s.skip (!s.key (s.v (x c)))
  | .readDelay => s.setV (x c) s.delay
  | .waitKey =>
    match (List.range 16).find? s.key with
    | some key => s.setV (x c) key
    | none => { s with pc := (s.pc + 65536 - 2) % 65536 }
  | .setDelay => { s with delay := s.v (x c) }
  | .setSound =>
    { s with
      sound := s.v (x c)
      heard := s.heard || (decide (s.sound ≠ 0) != decide (s.v (x c) ≠ 0)) }
  | .addIndex => { s with i := (s.i + s.v (x c)) % 65536 }
  | .glyph => { s with i := 0x50 + 5 * s.v (x c) }
  | .storeDecimal =>
    let value := s.v (x c)
    { s with
      memory := View.put (View.put (View.put s.memory s.i (value / 100)) (s.i + 1)
        (value / 10 % 10)) (s.i + 2) (value % 10) }
  | .storeRegisters =>
    { s with
      memory := fun k => if s.i ≤ k ∧ k ≤ s.i + x c then s.v (k - s.i) else s.memory k }
  | .loadRegisters => { s with v := fun k => if k ≤ x c then s.memory (s.i + k) else s.v k }

/-- What an opcode does to a machine, given the byte that chance has to offer. -/
def effect (roll c : Nat) (s : View) (op : Opcode) : View :=
  match flag? c s op with
  | some flag => (body roll c s op).setV 15 flag.toNat
  | none => body roll c s op

/-! ## Bytes as numbers -/

theorem byte_beq (a b : UInt8) : (a == b) = decide (a.toNat = b.toNat) := by
  rw [Bool.eq_iff_iff, beq_iff_eq, decide_eq_true_eq, UInt8.toNat_inj]

theorem byte_bne (a b : UInt8) : (a != b) = decide (a.toNat ≠ b.toNat) := by
  rw [Bool.eq_iff_iff, bne_iff_ne, decide_eq_true_eq, Ne, Ne, UInt8.toNat_inj]

theorem byte_sub (a b : UInt8) : (a - b).toNat = (a.toNat + 256 - b.toNat) % 256 := by
  have hb := b.toNat_lt
  rw [UInt8.toNat_sub]
  omega

theorem byte_le (a b : UInt8) : decide (a ≤ b) = !decide (a.toNat > b.toNat) := by
  rw [Bool.eq_iff_iff, decide_eq_true_eq, UInt8.le_iff_toNat_le]
  simp

theorem byte_carry (a b : UInt8) :
    decide (256 ≤ a.toNat + b.toNat) = decide (a.toNat + b.toNat > 255) := rfl

/-! ## Reading operands and registers -/

theorem low_nibble (c : Nat) : c &&& 0xf = c % 16 := by
  simpa using Nat.and_two_pow_sub_one_eq_mod c 4

theorem x_eq (w : UInt16) : x w.toNat = Word.x w := by
  rw [x, low_nibble, Nat.shiftRight_eq_div_pow]
  rfl

theorem y_eq (w : UInt16) : y w.toNat = Word.y w := by
  rw [y, low_nibble, Nat.shiftRight_eq_div_pow]
  rfl

theorem n_eq (w : UInt16) : n w.toNat = Word.n w := by
  rw [n, low_nibble]
  rfl

theorem kk_eq (w : UInt16) : kk w.toNat = (Word.kk w).toNat := by
  have hbyte : w.toNat &&& 0xff = w.toNat % 256 := by
    simpa using Nat.and_two_pow_sub_one_eq_mod w.toNat 8
  rw [kk, hbyte, Word.kk, UInt8.toNat_ofNat']

theorem nnn_eq (w : UInt16) : nnn w.toNat = Word.nnn w := by
  have hpart : w.toNat &&& 0xfff = w.toNat % 4096 := by
    simpa using Nat.and_two_pow_sub_one_eq_mod w.toNat 12
  rw [nnn, hpart]
  rfl

theorem anywhere_iff {place : Nat → Nat → Bool}
    (hscreen : ∀ px py, place px py = true → px < 64 ∧ py < 32) :
    anywhere place = true ↔ ∃ px py, place px py = true := by
  simp only [anywhere, List.any_eq_true, List.mem_range]
  constructor
  · rintro ⟨py, -, px, -, hplace⟩
    exact ⟨px, py, hplace⟩
  · rintro ⟨px, py, hplace⟩
    obtain ⟨hpx, hpy⟩ := hscreen px py hplace
    exact ⟨py, hpy, px, hpx, hplace⟩

theorem effect_memory {roll c : Nat} {s : View} {op : Opcode} (hdecimal : op ≠ .storeDecimal)
    (hregisters : op ≠ .storeRegisters) : (effect roll c s op).memory = s.memory := by
  have hbody : (body roll c s op).memory = s.memory := by
    cases op with
    | storeDecimal => exact absurd rfl hdecimal
    | storeRegisters => exact absurd rfl hregisters
    | waitKey =>
      simp only [body]
      split <;> rfl
    | skipEqualByte | skipUnequalByte | skipEqual | skipUnequal | skipKeyDown | skipKeyUp =>
      simp only [body, View.skip]
      split <;> rfl
    | _ => rfl
  unfold effect
  split
  · exact hbody
  · exact hbody

theorem effect_flag {roll c : Nat} {s : View} {op : Opcode} {flag : Bool}
    (h : flag? c s op = some flag) : (effect roll c s op).v 15 = flag.toNat := by
  simp [effect, h, View.setV, View.put]

theorem effect_reverse (roll : Nat) {c : Nat} (s : View) (hy : y c ≠ 15) :
    (effect roll c s .subFrom).v (y c) = (s.v (y c) + 256 - s.v (x c)) % 256 := by
  simp [effect, flag?, body, View.setV, View.put, hy]

end Table

end Chip8
