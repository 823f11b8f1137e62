import Chip8.Proofs.Output

/-! # What the question for changes answers

The flag of the buzzer remembers every time that it went on or off. The flag of the screen remembers
every sprite that flipped a pixel, but a clear sets it to whether a pixel was lit, and forgets
what was before. So after any series of operations on the output the answer depends on the buzzer
all the way, on the last clear, and on the sprites that no clear follows.
-/

namespace Chip8

def OutputOp.draws : OutputOp → Bool
  | .draw .. => true
  | _ => false

namespace Machine

/-- What the machine itself does for an operation on its output. -/
def alter (m : Machine) : OutputOp → Machine
  | .draw x y sprite _ => { m with display := (m.display.drawSprite x y sprite).2 }
  | .clear => { m with display := m.display.clear }
  | .setSound value => m.setSound value
  | .tick => m.tickTimers

def alterAll (ops : List OutputOp) (m : Machine) : Machine := ops.foldl alter m

theorem output_alter (m : Machine) (op : OutputOp) : (m.alter op).output = m.output.apply op := by
  cases op <;> rfl

/-- At some operation of a series `P` holds of the machine that it finds, of the operation, and of
those that follow. -/
def Occurs (P : Machine → OutputOp → List OutputOp → Prop) (ops : List OutputOp)
    (m : Machine) : Prop :=
  ∃ before op after, ops = before ++ op :: after ∧ P (alterAll before m) op after

theorem not_occurs_nil (P : Machine → OutputOp → List OutputOp → Prop) (m : Machine) :
    ¬ Occurs P [] m := by
  rintro ⟨before, op, after, h, -⟩
  simp at h

theorem occurs_cons_iff {P : Machine → OutputOp → List OutputOp → Prop} {op : OutputOp}
    {ops : List OutputOp} {m : Machine} :
    Occurs P (op :: ops) m ↔ P m op ops ∨ Occurs P ops (m.alter op) := by
  constructor
  · rintro ⟨before, other, after, h, hP⟩
    cases before with
    | nil =>
      obtain ⟨rfl, rfl⟩ := List.cons.inj h
      exact .inl hP
    | cons first before =>
      obtain ⟨rfl, hops⟩ := List.cons.inj h
      exact .inr ⟨before, other, after, hops, hP⟩
  · rintro (hP | ⟨before, other, after, rfl, hP⟩)
    · exact ⟨[], op, ops, rfl, hP⟩
    · exact ⟨op :: before, other, after, rfl, hP⟩

/-- The operation turns the buzzer on or off. -/
def Toggles (m : Machine) (op : OutputOp) (_later : List OutputOp) : Prop :=
  (m.alter op).buzzer ≠ m.buzzer

/-- A sprite is drawn that flips a pixel, and the screen is not cleared any more. -/
def Flips (m : Machine) (op : OutputOp) (later : List OutputOp) : Prop :=
  .clear ∉ later ∧ op.draws = true ∧
    ∃ px py, (m.alter op).display.pixel px py ≠ m.display.pixel px py

/-- The screen is cleared for the last time, and a pixel is lit before. -/
def Darkens (m : Machine) (op : OutputOp) (later : List OutputOp) : Prop :=
  .clear ∉ later ∧ op = .clear ∧ ∃ px py, m.display.pixel px py = true

theorem soundChanged_alter_iff (m : Machine) (op : OutputOp) (later : List OutputOp) :
    (m.alter op).soundChanged = true ↔ m.soundChanged = true ∨ Toggles m op later := by
  have hchanged := Output.soundChanged_apply m.output op
  rw [← output_alter] at hchanged
  rw [Toggles, ← bne_iff_ne, ← Bool.or_eq_true]
  exact iff_of_eq (congrArg (· = true) hchanged)

theorem changed_alter_iff (m : Machine) (op : OutputOp) :
    (m.alter op).display.changed = true ↔
      (m.display.changed = true ∧ op ≠ .clear) ∨ Flips m op [] ∨ Darkens m op [] := by
  unfold Flips Darkens
  cases op with
  | draw x y sprite hlength =>
    simp [alter, OutputOp.draws, Display.changed_drawSprite_iff_flips hlength]
  | clear => simp [alter, OutputOp.draws, Display.clear, Display.anyLit_iff]
  | setSound | tick => simp [alter, OutputOp.draws, tickTimers, setSound]

theorem soundChanged_alterAll_iff {ops : List OutputOp} {m : Machine} :
    (alterAll ops m).soundChanged = true ↔ m.soundChanged = true ∨ Occurs Toggles ops m := by
  induction ops generalizing m with
  | nil => simp [alterAll, not_occurs_nil]
  | cons op ops ih =>
    rw [alterAll, List.foldl_cons, ← alterAll, ih, soundChanged_alter_iff m op ops, occurs_cons_iff,
      or_assoc]

theorem changed_alterAll_iff {ops : List OutputOp} {m : Machine} :
    (alterAll ops m).display.changed = true ↔ (m.display.changed = true ∧ .clear ∉ ops) ∨
      Occurs Flips ops m ∨ Occurs Darkens ops m := by
  induction ops generalizing m with
  | nil => simp [alterAll, not_occurs_nil]
  | cons op ops ih =>
    have hkept : .clear ∉ op :: ops ↔ op ≠ .clear ∧ .clear ∉ ops := by
      rw [List.mem_cons, not_or, ne_comm]
    rw [alterAll, List.foldl_cons, ← alterAll, ih, changed_alter_iff, occurs_cons_iff,
      occurs_cons_iff, hkept]
    by_cases hlater : .clear ∈ ops
    · simp [Flips, Darkens, hlater]
    · simp [Flips, Darkens, hlater]
      grind

/-- After it was asked for changes, a machine answers the next time whether the buzzer went on or
off at some operation between, or a sprite has flipped a pixel since the last clear, or that clear
found a pixel lit. Then there is nothing left to answer. -/
theorem takeOutputChanged_alterAll (m : Machine) (ops : List OutputOp) :
    let start := m.takeOutputChanged.2
    let asked := (alterAll ops start).takeOutputChanged
    (asked.1 = true ↔
      Occurs Toggles ops start ∨ Occurs Flips ops start ∨ Occurs Darkens ops start) ∧
    asked.2.soundChanged = false ∧ asked.2.display.changed = false ∧
    asked.2.takeOutputChanged.1 = false := by
  refine ⟨?_, rfl, rfl, rfl⟩
  have hheard : m.takeOutputChanged.2.soundChanged = false := rfl
  have hshown : m.takeOutputChanged.2.display.changed = false := rfl
  have hasked : ∀ n : Machine, n.takeOutputChanged.1 = true ↔
      n.soundChanged = true ∨ n.display.changed = true := fun n => iff_of_eq (Bool.or_eq_true _ _)
  rw [hasked, soundChanged_alterAll_iff, changed_alterAll_iff, hheard, hshown]
  simp only [Bool.false_eq_true, false_and, false_or]

end Machine

end Chip8
