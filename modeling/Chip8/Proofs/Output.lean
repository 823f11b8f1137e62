import Chip8.Proofs.Blit
import Chip8.Proofs.Stamps
import Chip8.Proofs.Step

/-! # What can be seen and heard

The output of a machine is its screen and its buzzer, with the two flags that report their changes.
Only drawing, clearing and setting or counting down the sound timer touch it. The flag of the buzzer
accumulates, but clearing assigns the flag of the screen: a clear of a blank screen forgets what was
to be reported.
-/

namespace Chip8

namespace Display

variable {d : Display} {x y : UInt64} {sprite : List UInt8}

theorem drawSprite_over_last {upper lower : List UInt8}
    (hlast : y + UInt64.ofNat upper.length = -1) :
    (d.drawSprite x y (upper ++ lower)).2 =
      ((d.drawSprite x y upper).2.drawSprite x 0 (wrapped (-1) lower)).2 := by
  have hbelow : 32 ≤ (-1 : UInt64).toNat := by decide
  rw [drawSprite_append, hlast, ← drawSprite_eq_wrapped hbelow]

/-- A sprite is drawn in two pieces whose rows are numbered without wrapping: down to the last row
number but one, and again from row zero on, where it ends above its first row. -/
theorem drawSprite_pieces (hlength : sprite.length < UInt64.size) : ∃ upper lower,
    y.toNat + upper.length < UInt64.size ∧ lower.length ≤ y.toNat ∧
    (d.drawSprite x y sprite).2 = ((d.drawSprite x y upper).2.drawSprite x 0 lower).2 := by
  have hy := y.toNat_lt_size
  obtain hshort | hlong := Nat.lt_or_ge (y.toNat + sprite.length) UInt64.size
  · exact ⟨sprite, [], hshort, Nat.zero_le _, rfl⟩
  · obtain ⟨upper, lower, rfl, hupper⟩ : ∃ upper lower, sprite = upper ++ lower ∧
        upper.length = UInt64.size - 1 - y.toNat := by
      refine ⟨_, _, (List.take_append_drop (UInt64.size - 1 - y.toNat) sprite).symm, ?_⟩
      rw [List.length_take]
      omega
    have hlast : y + UInt64.ofNat upper.length = -1 := by
      have hlt : upper.length < UInt64.size := by omega
      have hsum : y.toNat + upper.length = UInt64.size - 1 := by omega
      apply UInt64.toNat.inj
      rw [UInt64.toNat_add, UInt64.toNat_ofNat_of_lt' hlt, hsum]
      rfl
    have hlower : (wrapped (-1) lower).length = lower.length - 1 := List.length_drop
    rw [List.length_append] at hlength
    exact ⟨upper, wrapped (-1) lower, by omega, by omega, drawSprite_over_last hlast⟩

/-- A sprite raises the flag exactly if it flips a pixel, at whatever row it begins. -/
theorem changed_drawSprite_iff_flips (hlength : sprite.length < UInt64.size) :
    (d.drawSprite x y sprite).2.changed = true ↔ d.changed = true ∨
      ∃ px py, (d.drawSprite x y sprite).2.pixel px py ≠ d.pixel px py := by
  obtain ⟨upper, lower, hupper, hlower, hdrawn⟩ := @drawSprite_pieces d x y sprite hlength
  have hrows : (0 : UInt64).toNat + lower.length < UInt64.size := by
    have hy := y.toNat_lt_size
    rw [UInt64.toNat_zero]
    omega
  have hflips : ∀ px py, (d.drawSprite x y sprite).2.pixel px py ≠ d.pixel px py ↔
      coversBytes x.toNat y.toNat upper px py = true ∨
      coversBytes x.toNat (0 : UInt64).toNat lower px py = true := by
    intro px py
    -- The lower piece ends above the row where the upper one begins.
    have hapart : ¬ (coversBytes x.toNat y.toNat upper px py = true ∧
        coversBytes x.toNat (0 : UInt64).toNat lower px py = true) := by
      rw [coversBytes_iff, coversBytes_iff, UInt64.toNat_zero]
      omega
    rw [hdrawn, pixel_drawSprite hrows, pixel_drawSprite hupper]
    cases hcover : coversBytes x.toNat y.toNat upper px py <;>
      cases hcover' : coversBytes x.toNat (0 : UInt64).toNat lower px py <;>
      simp_all
  simp only [hflips, exists_or]
  rw [hdrawn, changed_drawSprite_iff hrows, changed_drawSprite_iff hupper, or_assoc]

/-- A sprite counts as a change exactly if the screen is another one after it. -/
theorem changed_drawSprite (hlength : sprite.length < UInt64.size) :
    (d.drawSprite x y sprite).2.changed =
      (d.changed || ((d.drawSprite x y sprite).2.screen != d.screen)) := by
  rw [Bool.eq_iff_iff, changed_drawSprite_iff_flips hlength, Bool.or_eq_true, bne_iff_ne]
  refine or_congr_right ⟨?_, ?_⟩
  · rintro ⟨px, py, hflip⟩ hsame
    exact hflip (congrFun (congrFun (pixel_eq_of_screen hsame) px) py)
  · intro hother
    apply Classical.byContradiction
    intro hnone
    refine hother (screen_ext fun px py => ?_)
    exact Classical.byContradiction fun hflip => hnone ⟨px, py, hflip⟩

end Display

structure Output where
  display : Display
  sound : UInt8
  soundChanged : Bool

/-- An operation on the output. A sprite has less than 2^64 rows. -/
inductive OutputOp
  | draw (x y : UInt64) (sprite : List UInt8) (hlength : sprite.length < UInt64.size)
  | clear
  | setSound (value : UInt8)
  | tick

namespace Output

def buzzer (o : Output) : Bool := o.sound != 0

def setSound (o : Output) (value : UInt8) : Output :=
  { o with sound := value, soundChanged := o.soundChanged || (o.buzzer != (value != 0)) }

def apply (o : Output) : OutputOp → Output
  | .draw x y sprite _ => { o with display := (o.display.drawSprite x y sprite).2 }
  | .clear => { o with display := o.display.clear }
  | .setSound value => o.setSound value
  | .tick => o.setSound (Machine.countDown o.sound)

def applyAll : List OutputOp → Output → Output
  | [], o => o
  | op :: ops, o => applyAll ops (o.apply op)

theorem applyAll_append (first rest : List OutputOp) (o : Output) :
    applyAll (first ++ rest) o = applyAll rest (applyAll first o) := by
  induction first generalizing o with
  | nil => rfl
  | cons op first ih => exact ih (o.apply op)

/-- What looking at the output shows stays the same through all of a series of operations. -/
def Constant {α : Type} (look : Output → α) (ops : List OutputOp) (o : Output) : Prop :=
  ∀ first rest, ops = first ++ rest → look (applyAll first o) = look o

theorem constant_nil {α : Type} (look : Output → α) (o : Output) : Constant look [] o := by
  intro first rest h
  obtain ⟨rfl, -⟩ := List.append_eq_nil_iff.mp h.symm
  rfl

theorem constant_cons_iff {α : Type} {look : Output → α} {op : OutputOp} {ops : List OutputOp}
    {o : Output} : Constant look (op :: ops) o ↔
      look (o.apply op) = look o ∧ Constant look ops (o.apply op) := by
  constructor
  · intro h
    have hop : look (o.apply op) = look o := h [op] ops rfl
    refine ⟨hop, ?_⟩
    rintro first rest rfl
    exact (h (op :: first) rest rfl).trans hop.symm
  · rintro ⟨hop, hrest⟩ first rest h
    cases first with
    | nil => rfl
    | cons head first =>
      obtain ⟨rfl, hops⟩ := List.cons.inj h
      exact (hrest first rest hops).trans hop

theorem Constant.last {α : Type} {look : Output → α} {ops : List OutputOp} {o : Output}
    (h : Constant look ops o) : look (applyAll ops o) = look o :=
  h ops [] (List.append_nil ops).symm

def screen (o : Output) : Screen := o.display.screen

/-- At some point a blank screen is cleared, and stays blank from there on. -/
def Forgets (ops : List OutputOp) (o : Output) : Prop :=
  ∃ before after, ops = before ++ .clear :: after ∧
    (applyAll before o).screen = Display.blankScreen ∧
    Constant screen (.clear :: after) (applyAll before o)

theorem soundChanged_apply (o : Output) (op : OutputOp) :
    (o.apply op).soundChanged = (o.soundChanged || ((o.apply op).buzzer != o.buzzer)) := by
  cases op with
  | draw | clear => simp [apply, buzzer]
  | setSound | tick =>
    simp only [apply, setSound, buzzer]
    rw [bne_comm]

theorem soundChanged_eq_false_iff {ops : List OutputOp} {o : Output} :
    (applyAll ops o).soundChanged = false ↔ o.soundChanged = false ∧ Constant buzzer ops o := by
  induction ops generalizing o with
  | nil => exact ⟨fun h => ⟨h, constant_nil _ _⟩, And.left⟩
  | cons op ops ih =>
    rw [applyAll, ih, constant_cons_iff, soundChanged_apply, Bool.or_eq_false_iff,
      bne_eq_false_iff_eq, and_assoc]

theorem changed_apply {op : OutputOp} (hop : op ≠ .clear) (o : Output) :
    (o.apply op).display.changed =
      (o.display.changed || ((o.apply op).screen != o.screen)) := by
  cases op with
  | draw x y sprite hlength => exact Display.changed_drawSprite hlength
  | clear => exact absurd rfl hop
  | setSound | tick => simp [apply, setSound, screen]

theorem changed_clear (o : Output) :
    (o.apply .clear).display.changed = (o.screen != Display.blankScreen) := Display.anyLit_eq

theorem forgets_cons {op : OutputOp} {ops : List OutputOp} {o : Output}
    (h : Forgets ops (o.apply op)) : Forgets (op :: ops) o := by
  obtain ⟨before, after, rfl, hblank, hconstant⟩ := h
  exact ⟨op :: before, after, rfl, hblank, hconstant⟩

theorem changed_of_constant {ops : List OutputOp} {o : Output} (hdown : o.display.changed = false)
    (h : Constant screen ops o) : (applyAll ops o).display.changed = false := by
  induction ops generalizing o with
  | nil => exact hdown
  | cons op ops ih =>
    obtain ⟨hsame, hrest⟩ := constant_cons_iff.mp h
    refine ih ?_ hrest
    by_cases hop : op = .clear
    · subst hop
      rw [changed_clear, bne_eq_false_iff_eq]
      exact hsame.symm
    · rw [changed_apply hop, hdown, hsame]
      simp

theorem changed_of_forgets {ops : List OutputOp} {o : Output} (h : Forgets ops o) :
    (applyAll ops o).display.changed = false := by
  obtain ⟨before, after, rfl, hblank, hconstant⟩ := h
  rw [applyAll_append, applyAll]
  refine changed_of_constant ?_ (constant_cons_iff.mp hconstant).2
  rw [changed_clear, hblank]
  simp

/-- The screen's flag is down after a series of operations exactly if there was nothing to report,
or it was forgotten. -/
theorem changed_eq_false_iff {ops : List OutputOp} {o : Output} :
    (applyAll ops o).display.changed = false ↔
      Forgets ops o ∨ (o.display.changed = false ∧ Constant screen ops o) := by
  constructor
  · intro h
    induction ops generalizing o with
    | nil => exact .inr ⟨h, constant_nil _ _⟩
    | cons op ops ih =>
      obtain hforgets | ⟨hdown, hconstant⟩ := ih h
      · exact .inl (forgets_cons hforgets)
      · by_cases hop : op = .clear
        · subst hop
          rw [changed_clear, bne_eq_false_iff_eq] at hdown
          exact .inl ⟨[], ops, rfl, hdown, constant_cons_iff.mpr ⟨hdown.symm, hconstant⟩⟩
        · rw [changed_apply hop, Bool.or_eq_false_iff, bne_eq_false_iff_eq] at hdown
          exact .inr ⟨hdown.1, constant_cons_iff.mpr ⟨hdown.2, hconstant⟩⟩
  · rintro (hforgets | ⟨hdown, hconstant⟩)
    · exact changed_of_forgets hforgets
    · exact changed_of_constant hdown hconstant

/-- A visible or audible change is reported at the end unless the buzzer was steady, the screen was
not blank at the start, and its change was forgotten. -/
theorem reports_iff {ops : List OutputOp} {o : Output} (hheard : o.soundChanged = false) :
    ((applyAll ops o).screen ≠ o.screen ∨ (applyAll ops o).buzzer ≠ o.buzzer →
      ((applyAll ops o).soundChanged || (applyAll ops o).display.changed) = true) ↔
    ¬ (o.screen ≠ Display.blankScreen ∧ Constant buzzer ops o ∧ Forgets ops o) := by
  have hblank : Forgets ops o → (applyAll ops o).screen = Display.blankScreen := by
    rintro ⟨before, after, rfl, hblank, hconstant⟩
    rw [applyAll_append, hconstant.last, hblank]
  constructor
  · rintro h ⟨hlit, hsteady, hforgets⟩
    have hother : (applyAll ops o).screen ≠ o.screen := by
      rw [hblank hforgets]
      exact hlit.symm
    have hquiet := soundChanged_eq_false_iff.mpr ⟨hheard, hsteady⟩
    have hdark := changed_of_forgets hforgets
    simpa [hquiet, hdark] using h (.inl hother)
  · intro h hother
    apply Classical.byContradiction
    intro hunreported
    rw [Bool.not_eq_true, Bool.or_eq_false_iff] at hunreported
    obtain ⟨-, hsteady⟩ := soundChanged_eq_false_iff.mp hunreported.1
    have hscreen : (applyAll ops o).screen ≠ o.screen :=
      hother.resolve_right fun hbuzzer => hbuzzer hsteady.last
    obtain hforgets | ⟨-, hstill⟩ := changed_eq_false_iff.mp hunreported.2
    · refine h ⟨fun hdark => hscreen ?_, hsteady, hforgets⟩
      rw [hblank hforgets, hdark]
    · exact hscreen hstill.last

end Output

namespace Instr

def outputOps (m : Machine) : Instr → List OutputOp
  | .clearScreen => [.clear]
  | .draw x y rows =>
    match hread : m.memory.read m.i.toNat rows with
    | .ok sprite => [.draw (m.v.get x).toUInt64 (m.v.get y).toUInt64 sprite
        (Memory.length_lt_of_read hread)]
    | .error _ => []
  | .setSound x => [.setSound (m.v.get x)]
  | _ => []

end Instr

namespace Machine

def output (m : Machine) : Output := ⟨m.display, m.sound, m.soundChanged⟩

theorem output_tickTimers (m : Machine) : m.tickTimers.output = m.output.apply .tick := rfl

def outputOps (m : Machine) : List OutputOp :=
  match m.fetch with
  | .error _ => []
  | .ok (word, fetched) =>
    match Instr.decode? word with
    | none => []
    | some instr => instr.outputOps fetched

theorem output_exec {m next : Machine} {roll : UInt8} {instr : Instr}
    (h : m.exec roll instr = .ok next) :
    next.output = Output.applyAll (instr.outputOps m) m.output := by
  have hleaves := exec_leaves h
  cases instr with
  | clearScreen | setSound =>
    cases h
    rfl
  | draw x y rows =>
    obtain ⟨sprite, hsprite, rfl⟩ := exec_draw_eq_ok_iff.mp h
    simp only [Instr.outputOps]
    split
    case h_1 other hother =>
      rw [hsprite] at hother
      cases hother
      rfl
    case h_2 e hother =>
      rw [hsprite] at hother
      cases hother
  | _ =>
    have hdisplay : next.display = m.display := hleaves.display
    have hsound : next.sound = m.sound := hleaves.sound
    have hheard := hleaves.soundChanged
    rw [buzzer, buzzer, hsound, bne_self_eq_false, Bool.or_false] at hheard
    simp only [output, hdisplay, hsound, hheard, Instr.outputOps, Output.applyAll]

theorem outputOps_of_error {m : Machine} {roll : UInt8} {instr : Instr} {e : Error}
    (h : m.exec roll instr = .error e) : instr.outputOps m = [] := by
  cases instr with
  | clearScreen | setSound => cases h
  | draw x y rows =>
    simp only [Instr.outputOps]
    split
    case h_1 sprite hsprite =>
      simp [exec, hsprite, bind, Except.bind, pure, Except.pure] at h
    case h_2 => rfl
  | _ => rfl

theorem output_step (m : Machine) (roll : UInt8) :
    (m.step roll).2.output = Output.applyAll m.outputOps m.output := by
  unfold step outputOps
  cases hfetch : m.fetch with
  | error e => rfl
  | ok result =>
    obtain ⟨word, next⟩ := result
    obtain ⟨-, rfl⟩ := fetch_eq_ok_iff.mp hfetch
    cases hinstr : Instr.decode? word with
    | none => simp only [hinstr]; rfl
    | some instr =>
      cases hnext : m.fetched.exec roll instr with
      | error e =>
        simp only [hinstr, hnext, outputOps_of_error hnext]
        rfl
      | ok next =>
        simp only [hinstr, hnext]
        exact output_exec hnext

end Machine

namespace Rig

variable {σ : Type}

theorem output_steps (count : Nat) {rig : Rig σ} (hhooks : rig.hooks = .empty) :
    (steps count rig).2.machine.output =
      Output.applyAll ((visited count rig).flatMap Machine.outputOps) rig.machine.output := by
  induction count generalizing rig with
  | zero => rfl
  | succ count ih =>
    obtain ⟨result, journal, hstep⟩ := step_eq_stepped hhooks
    have hfirst : (rig.stepped journal).machine.output =
        Output.applyAll rig.machine.outputOps rig.machine.output := Machine.output_step _ _
    rw [steps, visited_succ, hstep, List.flatMap_cons, Output.applyAll_append, ← hfirst]
    cases result with
    | error e => rfl
    | ok _ => exact @ih (rig.stepped journal) hhooks

end Rig

end Chip8
