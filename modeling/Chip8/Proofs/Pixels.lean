import Chip8.Display

/-! # Sprites pixel by pixel

`Display.covers` says which places of the screen a sprite flips. That is all that drawing does: it
collides where such a place was lit, and it changes the screen if there is such a place.
-/

namespace Chip8.Display

theorem getMsbD_rowMask (x : Nat) (byte : UInt8) {px : Nat} (hpx : px < 64) :
    (rowMask x byte).getMsbD px =
      (decide (x ≤ px ∧ px < x + 8) && byte.toNat.testBit (7 - (px - x))) := by
  unfold rowMask
  rw [BitVec.getMsbD_ushiftRight, BitVec.getMsbD_append]
  obtain hleft | hleft := Nat.lt_or_ge px x
  · simp [hleft, Nat.not_le.mpr hleft]
  obtain hright | hright := Nat.lt_or_ge px (x + 8)
  · have hin : ¬ 8 ≤ px - x := by omega
    have hbit : px - x < 8 := by omega
    simp [hpx, hleft, hright, Nat.not_lt.mpr hleft, hin, hbit, BitVec.getMsbD, BitVec.getLsbD]
  · have hout : 8 ≤ px - x := by omega
    simp [Nat.not_lt.mpr hright, hout]

theorem row_ne_zero_iff {row : Row} :
    (row != 0) = true ↔ ∃ px, px < 64 ∧ row.getMsbD px = true := by
  constructor
  · intro hrow
    apply Classical.byContradiction
    intro hnone
    have hzero : row = 0 := BitVec.eq_of_getMsbD_eq fun px hpx => by
      have hdark : ¬ row.getMsbD px = true := fun hlit => hnone ⟨px, hpx, hlit⟩
      simpa using hdark
    simp [hzero] at hrow
  · rintro ⟨px, -, hlit⟩
    rw [bne_iff_ne]
    rintro rfl
    simp at hlit

/-- Whether a sprite with its corner at column `x` of row `y` has a lit pixel on a place of the
screen. The byte in each of its rows is given by a function. -/
def covers (x y rows : Nat) (sprite : Nat → Nat) (px py : Nat) : Bool :=
  (x ≤ px && px < x + 8 && px < 64) && (y ≤ py && py < y + rows && py < 32) &&
    (sprite (py - y)).testBit (7 - (px - x))

theorem covers_eq_false {x y rows : Nat} {sprite : Nat → Nat} {px py : Nat}
    (h : ¬ (y ≤ py ∧ py < y + rows)) : covers x y rows sprite px py = false := by
  rw [Decidable.not_and_iff_or_not] at h
  obtain h | h := h <;> simp [covers, h]

theorem covers_congr {x y rows : Nat} {sprite other : Nat → Nat} {px py : Nat}
    (h : ∀ row, row < rows → sprite row = other row) :
    covers x y rows sprite px py = covers x y rows other px py := by
  obtain hin | hout := Decidable.em (y ≤ py ∧ py < y + rows)
  · have hrow : py - y < rows := by omega
    rw [covers, covers, h _ hrow]
  · rw [covers_eq_false hout, covers_eq_false hout]

theorem covers_succ (x y rows : Nat) (sprite : Nat → Nat) (px py : Nat) :
    covers x y (rows + 1) sprite px py = (covers x y 1 sprite px py ||
      covers x (y + 1) rows (fun row => sprite (row + 1)) px py) := by
  obtain hbelow | hfirst := Nat.lt_or_ge y py
  · have hother : ¬ (y ≤ py ∧ py < y + 1) := by omega
    have hrow : py - y = py - (y + 1) + 1 := by omega
    have hlast : py < y + (rows + 1) ↔ py < y + 1 + rows := by omega
    have hle : y ≤ py ↔ y + 1 ≤ py := by omega
    rw [covers_eq_false hother, Bool.false_or, covers, covers, hrow]
    simp only [hlast, hle]
  · have hother : ¬ (y + 1 ≤ py ∧ py < y + 1 + rows) := by omega
    have hlast : py < y + (rows + 1) ↔ py < y + 1 := by omega
    rw [covers_eq_false hother, Bool.or_false, covers, covers]
    simp only [hlast]

theorem covers_exclusive {x y rows : Nat} {sprite rest : Nat → Nat} {px py : Nat}
    (hrest : covers x (y + 1) rows rest px py = true) : covers x y 1 sprite px py = false := by
  simp only [covers, Bool.and_eq_true, decide_eq_true_eq] at hrest
  apply covers_eq_false
  omega

def coversBytes (x y : Nat) (sprite : List UInt8) : Nat → Nat → Bool :=
  covers x y sprite.length fun row => (sprite.getD row 0).toNat

theorem coversBytes_singleton (x y : Nat) (byte : UInt8) (px py : Nat) :
    coversBytes x y [byte] px py =
      (decide (py = y ∧ y < 32) && (rowMask x byte).getMsbD px) := by
  obtain rfl | hrow := Decidable.em (py = y)
  · unfold coversBytes covers
    obtain hpx | hpx := Nat.lt_or_ge px 64
    · rw [getMsbD_rowMask x byte hpx]
      simp [hpx, Bool.and_assoc, Bool.and_left_comm]
    · simp [Nat.not_lt.mpr hpx, hpx]
  · have hother : ¬ (y ≤ py ∧ py < y + [byte].length) := by
      rw [List.length_singleton]
      omega
    rw [coversBytes, covers_eq_false hother]
    simp [hrow]

theorem coversBytes_cons (x y : Nat) (byte : UInt8) (rest : List UInt8) (px py : Nat) :
    coversBytes x y (byte :: rest) px py =
      (coversBytes x y [byte] px py || coversBytes x (y + 1) rest px py) := by
  have hfirst : covers x y 1 (fun row => ((byte :: rest).getD row 0).toNat) px py =
      coversBytes x y [byte] px py := by
    apply covers_congr
    intro row hrow
    obtain rfl := Nat.lt_one_iff.mp hrow
    rfl
  rw [coversBytes, List.length_cons, covers_succ, hfirst]
  rfl

theorem coversBytes_exclusive {x y : Nat} {byte : UInt8} {rest : List UInt8} {px py : Nat}
    (hrest : coversBytes x (y + 1) rest px py = true) : coversBytes x y [byte] px py = false :=
  covers_exclusive hrest

theorem pixel_of_lt (d : Display) (px : Nat) {py : Nat} (hpy : py < 32) :
    d.pixel px py = d.screen[py].getMsbD px := dif_pos hpy

/-! ## Rows -/

variable (d : Display) (x y : UInt64) (byte : UInt8)

theorem coversBytes_outside {x y : Nat} (h : ¬ (x < 64 ∧ y < 32)) (byte : UInt8) (px py : Nat) :
    coversBytes x y [byte] px py = false := by
  simp [coversBytes, covers]
  grind

theorem pixel_drawByte (px py : Nat) : (d.drawByte x y byte).2.pixel px py =
    (d.pixel px py ^^ coversBytes x.toNat y.toNat [byte] px py) := by
  unfold drawByte
  by_cases h : x.toNat < Layout.screenColumns ∧ y.toNat < Layout.screenRows
  · rw [dif_pos h, coversBytes_singleton]
    obtain hpy | hpy := Nat.lt_or_ge py 32
    · rw [pixel_of_lt _ px hpy, pixel_of_lt d px hpy, Vector.getElem_set]
      obtain rfl | hrow := Decidable.em (py = y.toNat)
      · simp [h.2]
      · simp [hrow, Ne.symm hrow]
    · have hrow : py ≠ y.toNat := fun heq => Nat.not_lt.mpr hpy (heq ▸ h.2)
      simp [pixel, Nat.not_lt.mpr hpy, hrow]
  · rw [dif_neg h, coversBytes_outside h, Bool.xor_false]

theorem drawByte_fst_iff : (d.drawByte x y byte).1 = true ↔
    ∃ px py, d.pixel px py = true ∧ coversBytes x.toNat y.toNat [byte] px py = true := by
  unfold drawByte
  by_cases h : x.toNat < Layout.screenColumns ∧ y.toNat < Layout.screenRows
  · rw [dif_pos h, row_ne_zero_iff]
    simp only [coversBytes_singleton, BitVec.getMsbD_and, Bool.and_eq_true, decide_eq_true_eq]
    constructor
    · rintro ⟨px, -, hlit, hmask⟩
      exact ⟨px, y.toNat, by rwa [pixel_of_lt d px h.2], ⟨rfl, h.2⟩, hmask⟩
    · rintro ⟨px, py, hlit, ⟨rfl, -⟩, hmask⟩
      rw [pixel_of_lt d px h.2] at hlit
      exact ⟨px, Nat.lt_of_not_le fun hpx => by simp [hpx] at hlit, hlit, hmask⟩
  · simp [dif_neg h, coversBytes_outside h]

theorem changed_drawByte_iff : (d.drawByte x y byte).2.changed = true ↔
    d.changed = true ∨ ∃ px py, coversBytes x.toNat y.toNat [byte] px py = true := by
  unfold drawByte
  by_cases h : x.toNat < Layout.screenColumns ∧ y.toNat < Layout.screenRows
  · rw [dif_pos h, Bool.or_eq_true, row_ne_zero_iff]
    simp only [coversBytes_singleton, Bool.and_eq_true, decide_eq_true_eq]
    refine or_congr_right ⟨?_, ?_⟩
    · rintro ⟨px, -, hmask⟩
      exact ⟨px, y.toNat, ⟨rfl, h.2⟩, hmask⟩
    · rintro ⟨px, py, -, hmask⟩
      exact ⟨px, Nat.lt_of_not_le fun hpx => by simp [hpx] at hmask, hmask⟩
  · simp [dif_neg h, coversBytes_outside h]

/-! ## Sprites -/

variable {d x y}

theorem toNat_succ_row (hlt : y.toNat + 1 < UInt64.size) : (y + 1).toNat = y.toNat + 1 := by
  simpa [UInt64.toNat_add] using Nat.mod_eq_of_lt hlt

theorem succ_row {byte : UInt8} {rest : List UInt8}
    (hrows : y.toNat + (byte :: rest).length < UInt64.size) :
    (y + 1).toNat = y.toNat + 1 ∧ (y + 1).toNat + rest.length < UInt64.size := by
  rw [List.length_cons] at hrows
  have hnext : (y + 1).toNat = y.toNat + 1 := toNat_succ_row (by omega)
  exact ⟨hnext, by omega⟩

theorem pixel_drawSprite {sprite : List UInt8} (hrows : y.toNat + sprite.length < UInt64.size)
    (px py : Nat) : (d.drawSprite x y sprite).2.pixel px py =
      (d.pixel px py ^^ coversBytes x.toNat y.toNat sprite px py) := by
  induction sprite generalizing d y with
  | nil => simp [drawSprite, coversBytes, covers]
  | cons byte rest ih =>
    obtain ⟨hnext, hrest⟩ := succ_row hrows
    rw [drawSprite, coversBytes_cons]
    simp only
    rw [ih hrest, pixel_drawByte, hnext]
    cases hcover : coversBytes x.toNat (y.toNat + 1) rest px py with
    | false => simp
    | true => simp [coversBytes_exclusive hcover]

/-- A sprite collides exactly where it covers a lit pixel. -/
theorem drawSprite_fst_iff {sprite : List UInt8}
    (hrows : y.toNat + sprite.length < UInt64.size) : (d.drawSprite x y sprite).1 = true ↔
      ∃ px py, d.pixel px py = true ∧ coversBytes x.toNat y.toNat sprite px py = true := by
  induction sprite generalizing d y with
  | nil => simp [drawSprite, coversBytes, covers]
  | cons byte rest ih =>
    obtain ⟨hnext, hrest⟩ := succ_row hrows
    rw [drawSprite]
    simp only [Bool.or_eq_true]
    rw [ih hrest, drawByte_fst_iff, hnext]
    simp only [pixel_drawByte, coversBytes_cons x.toNat y.toNat byte rest, Bool.or_eq_true]
    constructor
    · rintro (⟨px, py, hlit, hcover⟩ | ⟨px, py, hlit, hcover⟩)
      · exact ⟨px, py, hlit, .inl hcover⟩
      · rw [coversBytes_exclusive hcover, Bool.xor_false] at hlit
        exact ⟨px, py, hlit, .inr hcover⟩
    · rintro ⟨px, py, hlit, hcover | hcover⟩
      · exact .inl ⟨px, py, hlit, hcover⟩
      · refine .inr ⟨px, py, ?_, hcover⟩
        rw [coversBytes_exclusive hcover, Bool.xor_false]
        exact hlit

theorem changed_drawSprite_iff {sprite : List UInt8}
    (hrows : y.toNat + sprite.length < UInt64.size) :
    (d.drawSprite x y sprite).2.changed = true ↔ d.changed = true ∨
      ∃ px py, coversBytes x.toNat y.toNat sprite px py = true := by
  induction sprite generalizing d y with
  | nil => simp [drawSprite, coversBytes, covers]
  | cons byte rest ih =>
    obtain ⟨hnext, hrest⟩ := succ_row hrows
    rw [drawSprite]
    simp only
    rw [ih hrest, changed_drawByte_iff, hnext, or_assoc]
    simp only [coversBytes_cons x.toNat y.toNat byte rest, Bool.or_eq_true, exists_or]

/-! ## The whole screen -/

theorem anyLit_iff : d.anyLit = true ↔ ∃ px py, d.pixel px py = true := by
  unfold anyLit
  rw [Vector.any_eq_true]
  constructor
  · rintro ⟨py, hpy, hrow⟩
    obtain ⟨px, -, hlit⟩ := row_ne_zero_iff.mp hrow
    exact ⟨px, py, by rwa [pixel_of_lt d px hpy]⟩
  · rintro ⟨px, py, hlit⟩
    obtain hpy | hpy := Nat.lt_or_ge py 32
    · rw [pixel_of_lt d px hpy] at hlit
      refine ⟨py, hpy, row_ne_zero_iff.mpr ⟨px, Nat.lt_of_not_le fun hpx => ?_, hlit⟩⟩
      simp [hpx] at hlit
    · simp [pixel, Nat.not_lt.mpr hpy] at hlit

theorem screen_ext {d e : Display} (h : ∀ px py, d.pixel px py = e.pixel px py) :
    d.screen = e.screen := by
  apply Vector.ext
  intro py hpy
  apply BitVec.eq_of_getMsbD_eq
  intro px _
  rw [← pixel_of_lt d px hpy, ← pixel_of_lt e px hpy, h]

theorem pixel_eq_of_screen {d e : Display} (h : d.screen = e.screen) : d.pixel = e.pixel := by
  funext px py
  rw [pixel, pixel, h]

theorem anyLit_eq : d.anyLit = (d.screen != blankScreen) := by
  rw [Bool.eq_iff_iff, anyLit_iff, bne_iff_ne]
  constructor
  · rintro ⟨px, py, hlit⟩ hblank
    simp [pixel, hblank, blankScreen] at hlit
  · intro hother
    apply Classical.byContradiction
    intro hnone
    refine hother (@screen_ext d blank fun px py => ?_)
    have hdark : d.pixel px py = false :=
      Bool.eq_false_iff.mpr fun hlit => hnone ⟨px, py, hlit⟩
    rw [hdark]
    simp [blank, pixel, blankScreen]

@[simp]
theorem pixel_clear (px py : Nat) : d.clear.pixel px py = false := by
  simp [clear, pixel, blankScreen]

end Chip8.Display
