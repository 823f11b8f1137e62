import Chip8.Proofs.Pixels

/-! # What drawing a sprite comes to

Whatever the screen was, drawing flips the places that the sprite covers between its corner and the
right and lower edges. The answer and the flag follow from the two screens. This holds as long as
the numbers of the rows stay below 2^64. Rows that pass it come back at the upper edge.
-/

namespace Chip8.Display

theorem coversBytes_iff {x y : Nat} {sprite : List UInt8} {px py : Nat} :
    coversBytes x y sprite px py = true ↔ (x ≤ px ∧ px < min (x + 8) 64) ∧
      (y ≤ py ∧ py < min (y + sprite.length) 32) ∧
      ∃ byte, sprite[py - y]? = some byte ∧ byte.toNat.testBit (7 - (px - x)) = true := by
  simp only [coversBytes, covers, Bool.and_eq_true, decide_eq_true_eq, and_assoc, Nat.lt_min]
  refine and_congr_right fun _ => and_congr_right fun _ => and_congr_right fun _ =>
    and_congr_right fun hy => and_congr_right fun hrow => and_congr_right fun _ => ?_
  have hlt : py - y < sprite.length := by omega
  simp [List.getElem?_eq_getElem hlt, List.getD_eq_getElem?_getD]

variable {d : Display} {x y : UInt64} {sprite : List UInt8}

theorem pixel_drawSprite_ne_iff (hrows : y.toNat + sprite.length < UInt64.size) {px py : Nat} :
    (d.drawSprite x y sprite).2.pixel px py ≠ d.pixel px py ↔
      coversBytes x.toNat y.toNat sprite px py = true := by
  rw [pixel_drawSprite hrows]
  cases coversBytes x.toNat y.toNat sprite px py <;> simp

/-- What becomes of a display, and what is answered, when a sprite is drawn with its corner at
column `x` of row `y`. -/
structure Blits (d : Display) (x y : Nat) (sprite : List UInt8) (hit : Bool) (after : Display) :
    Prop where
  flips : ∀ px py, after.pixel px py ≠ d.pixel px py ↔ (x ≤ px ∧ px < min (x + 8) 64) ∧
    (y ≤ py ∧ py < min (y + sprite.length) 32) ∧
    ∃ byte, sprite[py - y]? = some byte ∧ byte.toNat.testBit (7 - (px - x)) = true
  collides : hit = true ↔ ∃ px py, d.pixel px py = true ∧ after.pixel px py = false
  changes : after.changed = true ↔
    d.changed = true ∨ ∃ px py, after.pixel px py ≠ d.pixel px py

theorem drawSprite_blits (d : Display) (x y : UInt64) (sprite : List UInt8)
    (hrows : y.toNat + sprite.length < UInt64.size) :
    d.Blits x.toNat y.toNat sprite (d.drawSprite x y sprite).1 (d.drawSprite x y sprite).2 := by
  constructor
  · intro px py
    rw [pixel_drawSprite_ne_iff hrows, coversBytes_iff]
  · rw [drawSprite_fst_iff hrows]
    refine exists_congr fun px => exists_congr fun py => and_congr_right fun hlit => ?_
    rw [pixel_drawSprite hrows, hlit]
    simp
  · rw [changed_drawSprite_iff hrows]
    simp only [pixel_drawSprite_ne_iff hrows]

/-- Only the last pixel of the last row is lit. -/
def corner : Display := ⟨blankScreen.set 31 1, false⟩

/-- Six columns and a row of this sprite are cut off, and none of them is drawn elsewhere. -/
theorem corner_blits : (31 : UInt64).toNat + [(0xff : UInt8), 0xff].length < UInt64.size ∧
    (corner.drawSprite 62 31 [0xff, 0xff]).1 = true ∧
    (corner.drawSprite 62 31 [0xff, 0xff]).2.pixel 63 31 = false ∧
    (corner.drawSprite 62 31 [0xff, 0xff]).2.pixel 0 31 = false ∧
    (corner.drawSprite 62 31 [0xff, 0xff]).2.pixel 62 0 = false := by
  have hrows : (31 : UInt64).toNat + [(0xff : UInt8), 0xff].length < UInt64.size := by decide
  have blits := drawSprite_blits corner 62 31 [0xff, 0xff] hrows
  have hout : (corner.drawSprite 62 31 [0xff, 0xff]).2.pixel 63 31 = false := by decide
  exact ⟨hrows, blits.collides.mpr ⟨63, 31, by decide, hout⟩, hout, by decide, by decide⟩

/-! ## Rows below the screen -/

theorem drawSprite_eq_self_iff (hrows : y.toNat + sprite.length < UInt64.size) :
    d.drawSprite x y sprite = (false, d) ↔
      ¬ ∃ px py, coversBytes x.toNat y.toNat sprite px py = true := by
  constructor
  · rintro hsame ⟨px, py, hcover⟩
    have hflipped := (@pixel_drawSprite_ne_iff d x y sprite hrows px py).mpr hcover
    rw [hsame] at hflipped
    exact hflipped rfl
  · intro hnone
    have hdark : ∀ px py, coversBytes x.toNat y.toNat sprite px py = false :=
      fun px py => Bool.eq_false_iff.mpr fun hcover => hnone ⟨px, py, hcover⟩
    have hscreen : (d.drawSprite x y sprite).2.screen = d.screen := by
      apply screen_ext
      intro px py
      rw [pixel_drawSprite hrows, hdark, Bool.xor_false]
    have hflag : (d.drawSprite x y sprite).2.changed = d.changed := by
      rw [Bool.eq_iff_iff, changed_drawSprite_iff hrows]
      exact or_iff_left hnone
    have hhit : (d.drawSprite x y sprite).1 = false := by
      rw [Bool.eq_false_iff, Ne, drawSprite_fst_iff hrows]
      rintro ⟨px, py, -, hcover⟩
      exact hnone ⟨px, py, hcover⟩
    have hparts : d.drawSprite x y sprite = ((d.drawSprite x y sprite).1,
        ⟨(d.drawSprite x y sprite).2.screen, (d.drawSprite x y sprite).2.changed⟩) := rfl
    rw [hparts, hhit, hscreen, hflag]

/-- The rows of a sprite whose numbers have passed 2^64, if the first is row `y`. -/
def wrapped (y : UInt64) (sprite : List UInt8) : List UInt8 := sprite.drop (UInt64.size - y.toNat)

theorem drawByte_below (hy : 32 ≤ y.toNat) (byte : UInt8) :
    d.drawByte x y byte = (false, d) :=
  dif_neg fun h => Nat.not_lt.mpr hy h.2

theorem drawSprite_eq_wrapped (hy : 32 ≤ y.toNat) :
    d.drawSprite x y sprite = d.drawSprite x 0 (wrapped y sprite) := by
  induction sprite generalizing y with
  | nil => simp only [wrapped, List.drop_nil, drawSprite]
  | cons byte rest ih =>
    rw [drawSprite, drawByte_below hy]
    simp only [Bool.false_or]
    -- After the last number comes row zero, and there nothing is dropped any more.
    obtain hlast | hmore := Nat.eq_or_lt_of_le (Nat.succ_le_of_lt y.toNat_lt_size)
    · obtain rfl : y = -1 := UInt64.toNat.inj (Nat.succ.inj hlast)
      rfl
    · have hnext : (y + 1).toNat = y.toNat + 1 := toNat_succ_row hmore
      have hdrop : UInt64.size - y.toNat = UInt64.size - (y + 1).toNat + 1 := by omega
      rw [ih (hnext ▸ Nat.le_succ_of_le hy), wrapped, wrapped, hdrop, List.drop_succ_cons]

/-- Below the screen only the rows whose numbers have passed 2^64 are drawn, from the upper edge on.
So nothing happens exactly if none of them has a lit pixel that finds a place there. -/
theorem drawSprite_below (d : Display) (x : UInt64) {y : UInt64} {sprite : List UInt8}
    (hy : 32 ≤ y.toNat) (hlength : sprite.length < UInt64.size) :
    d.drawSprite x y sprite = d.drawSprite x 0 (wrapped y sprite) ∧
      (d.drawSprite x y sprite = (false, d) ↔ ¬ ∃ line byte px, sprite[line]? = some byte ∧
        (UInt64.size ≤ y.toNat + line ∧ y.toNat + line < UInt64.size + 32) ∧
        (x.toNat ≤ px ∧ px < min (x.toNat + 8) 64) ∧
        byte.toNat.testBit (7 - (px - x.toNat)) = true) := by
  have hrows : (0 : UInt64).toNat + (wrapped y sprite).length < UInt64.size := by
    rw [wrapped, List.length_drop, UInt64.toNat_zero, Nat.zero_add]
    exact Nat.lt_of_le_of_lt (Nat.sub_le _ _) hlength
  refine ⟨drawSprite_eq_wrapped hy, ?_⟩
  rw [drawSprite_eq_wrapped hy, drawSprite_eq_self_iff hrows]
  refine not_congr ?_
  simp only [coversBytes_iff, wrapped, List.length_drop, List.getElem?_drop, UInt64.toNat_zero]
  have hlast := y.toNat_lt_size
  constructor
  · rintro ⟨px, py, hpx, hpy, byte, hbyte, hlit⟩
    refine ⟨UInt64.size - y.toNat + (py - 0), byte, px, hbyte, ?_, hpx, hlit⟩
    omega
  · rintro ⟨line, byte, px, hbyte, hline, hpx, hlit⟩
    obtain ⟨hlt, -⟩ := List.getElem?_eq_some_iff.mp hbyte
    have hback : UInt64.size - y.toNat + (y.toNat + line - UInt64.size - 0) = line := by omega
    refine ⟨px, y.toNat + line - UInt64.size, hpx, by omega, byte, ?_, hlit⟩
    rw [hback]
    exact hbyte

theorem below_unchanged : 32 ≤ (0xffffffffffffffff : UInt64).toNat ∧
    [(0xff : UInt8)].length < UInt64.size ∧
    blank.drawSprite 0 0xffffffffffffffff [0xff] = (false, blank) := by
  have hy : 32 ≤ (0xffffffffffffffff : UInt64).toNat := by decide
  have hlength : [(0xff : UInt8)].length < UInt64.size := by decide
  refine ⟨hy, hlength, (drawSprite_below blank 0 hy hlength).2.mpr ?_⟩
  rintro ⟨line, byte, px, hbyte, ⟨hpassed, -⟩, -⟩
  obtain ⟨hlt, -⟩ := List.getElem?_eq_some_iff.mp hbyte
  obtain rfl := Nat.lt_one_iff.mp hlt
  exact absurd hpassed (by decide)

theorem below_drawn : ¬ ∀ (d : Display) (x y : UInt64) (sprite : List UInt8),
    32 ≤ y.toNat → d.drawSprite x y sprite = (false, d) := by
  intro hclipped
  have hsame := hclipped blank 0 0xffffffffffffffff [0x00, 0xff] (by decide)
  revert hsame
  decide

end Chip8.Display
