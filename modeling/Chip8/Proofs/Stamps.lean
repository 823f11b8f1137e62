import Chip8.Proofs.Pixels

/-! # Sprites one after the other

Drawing several sprites flips a place of the screen exactly if an odd number of them covers it, and
counts as a change if one of them covers any place. Neither depends on the order, and what is
drawn twice is gone. A sprite can also be drawn in two pieces, the lower one where the upper one
ends.
-/

namespace Chip8

/-- A sprite and where its upper left corner is put. Its rows are numbered without wrapping. -/
structure Stamp where
  x : UInt64
  y : UInt64
  sprite : List UInt8
  hrows : y.toNat + sprite.length < UInt64.size

def Stamp.covers (px py : Nat) (stamp : Stamp) : Bool :=
  Display.coversBytes stamp.x.toNat stamp.y.toNat stamp.sprite px py

namespace Display

theorem ext_pixel {d e : Display} (hpixel : ∀ px py, d.pixel px py = e.pixel px py)
    (hchanged : d.changed = e.changed) : d = e := by
  have hscreen : d.screen = e.screen := screen_ext hpixel
  cases d
  cases e
  cases hscreen
  cases hchanged
  rfl

def stamp (d : Display) (stamp : Stamp) : Display :=
  (d.drawSprite stamp.x stamp.y stamp.sprite).2

def stampAll : List Stamp → Display → Display
  | [], d => d
  | stamp :: stamps, d => stampAll stamps (d.stamp stamp)

theorem stampAll_append (first rest : List Stamp) (d : Display) :
    stampAll (first ++ rest) d = stampAll rest (stampAll first d) := by
  induction first generalizing d with
  | nil => rfl
  | cons stamp first ih => exact ih (d.stamp stamp)

/-- How many sprites cover a place. -/
def layers (stamps : List Stamp) (px py : Nat) : Nat := stamps.countP (Stamp.covers px py)

theorem pixel_stampAll (stamps : List Stamp) (d : Display) (px py : Nat) :
    (stampAll stamps d).pixel px py = (d.pixel px py ^^ decide (layers stamps px py % 2 = 1)) := by
  induction stamps generalizing d with
  | nil => simp [stampAll, layers]
  | cons stamp stamps ih =>
    have hstamp : (d.stamp stamp).pixel px py = (d.pixel px py ^^ stamp.covers px py) :=
      pixel_drawSprite stamp.hrows px py
    have hlayers : layers (stamp :: stamps) px py =
        layers stamps px py + if stamp.covers px py then 1 else 0 := List.countP_cons
    rw [stampAll, ih, hstamp, hlayers, Bool.xor_assoc]
    cases stamp.covers px py with
    | false => simp
    | true =>
      have hnext : decide ((layers stamps px py + 1) % 2 = 1) =
          !decide (layers stamps px py % 2 = 1) := by
        rw [← decide_not, decide_eq_decide]
        omega
      rw [if_pos rfl, hnext, Bool.true_xor]

theorem changed_stampAll_iff {stamps : List Stamp} {d : Display} :
    (stampAll stamps d).changed = true ↔
      d.changed = true ∨ ∃ stamp ∈ stamps, ∃ px py, stamp.covers px py = true := by
  induction stamps generalizing d with
  | nil => simp [stampAll]
  | cons stamp stamps ih =>
    have hstamp : (d.stamp stamp).changed = true ↔
        d.changed = true ∨ ∃ px py, stamp.covers px py = true :=
      changed_drawSprite_iff stamp.hrows
    rw [stampAll, ih, hstamp, or_assoc]
    simp only [List.mem_cons, exists_eq_or_imp]

variable {stamps order : List Stamp}

theorem stampAll_perm (h : stamps.Perm order) (d : Display) :
    stampAll stamps d = stampAll order d := by
  apply ext_pixel
  · intro px py
    rw [pixel_stampAll, pixel_stampAll, layers, layers, h.countP_eq]
  · rw [Bool.eq_iff_iff, changed_stampAll_iff, changed_stampAll_iff]
    simp only [h.mem_iff]

/-- Every place is covered an even number of times by sprites that are drawn twice. -/
theorem screen_stampAll_twice (h : stamps.Perm order) (d : Display) :
    (stampAll order (stampAll stamps d)).screen = d.screen := by
  apply screen_ext
  intro px py
  have heven : ¬ layers (stamps ++ order) px py % 2 = 1 := by
    rw [layers, List.countP_append, ← h.countP_eq]
    omega
  rw [← stampAll_append, pixel_stampAll, decide_eq_false heven, Bool.xor_false]

theorem drawSprite_append (d : Display) (x y : UInt64) (upper lower : List UInt8) :
    d.drawSprite x y (upper ++ lower) =
      (let first := d.drawSprite x y upper
       let second := first.2.drawSprite x (y + UInt64.ofNat upper.length) lower
       (first.1 || second.1, second.2)) := by
  induction upper generalizing d y with
  | nil => simp [drawSprite]
  | cons byte upper ih =>
    have hrow : y + 1 + UInt64.ofNat upper.length = y + UInt64.ofNat (upper.length + 1) := by
      rw [UInt64.ofNat_add, UInt64.add_assoc, UInt64.add_comm 1]
      rfl
    rw [List.cons_append, drawSprite, drawSprite]
    simp only
    rw [ih, List.length_cons, ← hrow, Bool.or_assoc]

/-- Sprites may be drawn in any order, and drawn once more in any order they restore the screen. A
sprite is the same as its two pieces, and collides if one of them does. -/
theorem stamps_commute (d : Display) (h : stamps.Perm order) :
    stampAll stamps d = stampAll order d ∧
    (stampAll order (stampAll stamps d)).screen = d.screen ∧
    ∀ (x y : UInt64) (upper lower : List UInt8),
      let first := d.drawSprite x y upper
      let second := first.2.drawSprite x (y + UInt64.ofNat upper.length) lower
      d.drawSprite x y (upper ++ lower) = (first.1 || second.1, second.2) := by
  refine ⟨stampAll_perm h d, screen_stampAll_twice h d, ?_⟩
  intro x y upper lower
  exact d.drawSprite_append x y upper lower

/-- Three sprites at the right and the lower edge, of which the first covers the others in part. -/
def pile : List Stamp :=
  [⟨60, 30, [0xff, 0xf0, 0xff], by decide⟩, ⟨62, 31, [0xc0], by decide⟩,
    ⟨59, 29, [0x80, 0xc0], by decide⟩]

theorem pile_turned : pile.Perm pile.reverse ∧
    stampAll pile blank = stampAll pile.reverse blank ∧
    (stampAll pile.reverse (stampAll pile blank)).screen = blank.screen ∧
    (stampAll pile blank).pixel 61 30 = true ∧ (stampAll pile blank).pixel 62 31 = false := by
  have hturned : pile.Perm pile.reverse := pile.reverse_perm.symm
  obtain ⟨hsame, hrestored, -⟩ := stamps_commute blank hturned
  exact ⟨hturned, hsame, hrestored, by decide, by decide⟩

end Display

end Chip8
