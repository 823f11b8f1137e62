import Chip8.Proofs.Hooks

/-! # Breakpoints only report

The breakpoints are the addresses that were set last and not unset, each once. A run without hooks
that meets them goes through the machines of the run without them. Its steps fail as they do there;
where one does not, it reports the address at which it has arrived if that is among them, with the
word there.
-/

namespace Chip8

inductive BreakOp
  | set (addr : UInt16)
  | unset (addr : UInt16)
  | step
deriving DecidableEq

/-- Whether an operation leaves an address as a breakpoint, if it touches it at all. -/
def BreakOp.mark? (addr : UInt16) : BreakOp → Option Bool
  | .set other => if other = addr then some true else none
  | .unset other => if other = addr then some false else none
  | .step => none

def lastMark (addr : UInt16) (ops : List BreakOp) : Option Bool :=
  ops.reverse.findSome? (BreakOp.mark? addr)

/-- The number that the bytes at an address write, or zero where they are not both in memory. -/
def Memory.bigEndian (m : Memory) (addr : Nat) : Nat :=
  if h : addr + 1 < Layout.memorySize then
    have : addr < Layout.memorySize := Nat.lt_of_succ_lt h
    256 * m.cells[addr].toNat + m.cells[addr + 1].toNat
  else 0

namespace Rig

variable {σ : Type} {r s : Rig σ}

theorem toNat_wordAt (rig : Rig σ) (addr : UInt16) :
    (rig.wordAt addr).toNat = rig.machine.memory.bigEndian addr.toNat := by
  unfold wordAt Memory.readWord Memory.bigEndian
  by_cases h : addr.toNat + 1 < Layout.memorySize
  · simp only [h, dif_pos, Word.toNat_ofBytes]
  · simp only [h, dif_neg, not_false_eq_true]
    rfl

def breakOp (rig : Rig σ) : BreakOp → Rig σ
  | .set addr => rig.setBreak addr
  | .unset addr => rig.unsetBreak addr
  | .step => rig.step.2

def breakOps (rig : Rig σ) (ops : List BreakOp) : Rig σ := ops.foldl breakOp rig

theorem breakpoints_setBreak (rig : Rig σ) (addr : UInt16) : (rig.setBreak addr).breakpoints =
    if addr ∈ rig.breakpoints then rig.breakpoints else rig.breakpoints ++ [addr] := by
  unfold setBreak
  split <;> rfl

theorem breakpoints_step (rig : Rig σ) : rig.step.2.breakpoints = rig.breakpoints := by
  obtain ⟨machine, dice, memo, journal, hstep⟩ := rig.step_leaves
  rw [hstep]

/-! ## The list -/

theorem nodup_breakOp {rig : Rig σ} (h : rig.breakpoints.Nodup) (op : BreakOp) :
    (rig.breakOp op).breakpoints.Nodup := by
  cases op with
  | set addr =>
    rw [breakOp, breakpoints_setBreak]
    split
    case isTrue => exact h
    case isFalse haddr =>
      have hfresh : ∀ other ∈ rig.breakpoints, other ≠ addr := fun _ hmem heq => haddr (heq ▸ hmem)
      exact List.nodup_append.mpr ⟨h, by simp, by simpa using hfresh⟩
  | unset addr => exact h.filter _
  | step => rwa [breakOp, breakpoints_step]

theorem nodup_breakOps {rig : Rig σ} (h : rig.breakpoints.Nodup) (ops : List BreakOp) :
    (rig.breakOps ops).breakpoints.Nodup := by
  induction ops generalizing rig with
  | nil => exact h
  | cons op ops ih => exact ih (nodup_breakOp h op)

theorem mem_breakOp (rig : Rig σ) (op : BreakOp) (addr : UInt16) :
    decide (addr ∈ (rig.breakOp op).breakpoints) =
      (op.mark? addr).getD (decide (addr ∈ rig.breakpoints)) := by
  cases op with
  | set other =>
    rw [breakOp, breakpoints_setBreak, BreakOp.mark?]
    by_cases hother : other = addr
    · subst hother
      by_cases haddr : other ∈ rig.breakpoints <;> simp [haddr]
    · by_cases haddr : other ∈ rig.breakpoints <;> simp [haddr, hother, Ne.symm hother]
  | unset other =>
    rw [breakOp, unsetBreak, BreakOp.mark?]
    by_cases hother : other = addr
    · simp [hother]
    · simp [hother, Ne.symm hother]
  | step => rw [breakOp, breakpoints_step, BreakOp.mark?, Option.getD_none]

theorem mem_breakOps (rig : Rig σ) (ops : List BreakOp) (addr : UInt16) :
    addr ∈ (rig.breakOps ops).breakpoints ↔
      lastMark addr ops = some true ∨ lastMark addr ops = none ∧ addr ∈ rig.breakpoints := by
  have hlast : decide (addr ∈ (rig.breakOps ops).breakpoints) =
      (lastMark addr ops).getD (decide (addr ∈ rig.breakpoints)) :=
    view_foldl (fun rig : Rig σ => decide (addr ∈ rig.breakpoints)) (mem_breakOp · · addr) ops rig
  refine decide_eq_true_iff.symm.trans ?_
  rw [hlast]
  cases lastMark addr ops <;> simp

/-! ## The run -/

def unmarked (rig : Rig σ) : Rig σ := { rig with breakpoints := [] }

/-- Two rigs without hooks that are at the same point of a run, the second without breakpoints. -/
structure Abreast (r s : Rig σ) : Prop where
  machine : r.machine = s.machine
  dice : r.dice = s.dice
  bare : r.hooks = .empty
  plain : s.hooks = .empty
  unmarked : s.breakpoints = []

theorem Abreast.step (h : Abreast r s) : Abreast r.step.2 s.step.2 := by
  obtain ⟨result, journal, hr⟩ := step_eq_stepped h.bare
  obtain ⟨result', journal', hs⟩ := step_eq_stepped h.plain
  rw [hr, hs]
  refine ⟨?_, ?_, h.bare, h.plain, h.unmarked⟩
  · simp only [stepped, h.machine, h.dice]
  · simp only [stepped, h.machine, h.dice]

theorem walk_step (rig : Rig σ) (count : Nat) : rig.step.2.walk count = rig.walk (count + 1) := by
  induction count with
  | zero => rfl
  | succ count ih =>
    rw [walk, ih]
    rfl

theorem Abreast.breakOps (h : Abreast r s) (ops : List BreakOp) :
    Abreast (r.breakOps ops) (s.walk (ops.count .step)) := by
  induction ops generalizing r s with
  | nil => exact h
  | cons op ops ih =>
    cases op with
    | set addr =>
      have hset : Abreast (r.setBreak addr) s := by
        unfold setBreak
        split
        case isTrue => exact h
        case isFalse => exact ⟨h.machine, h.dice, h.bare, h.plain, h.unmarked⟩
      exact ih hset
    | unset addr =>
      have hunset : Abreast (r.unsetBreak addr) s :=
        ⟨h.machine, h.dice, h.bare, h.plain, h.unmarked⟩
      exact ih hunset
    | step =>
      rw [List.count_cons_self, ← walk_step]
      exact ih h.step

theorem step_of_unmarked {rig : Rig σ} (hhooks : rig.hooks = .empty)
    (hnone : rig.breakpoints = []) : rig.step.1 = (rig.machine.step rig.dice.top).1 := by
  cases hresult : (rig.machine.step rig.dice.top).1 with
  | error e => exact step_of_error hhooks hresult
  | ok _ =>
    cases hstep : rig.step.1 with
    | ok _ => rfl
    | error e =>
      obtain ⟨hmem, -⟩ := (step_of_ok hhooks hresult).mp hstep
      rw [hnone] at hmem
      cases hmem

/-- What a step answers, beside a step from the same machine without breakpoints. -/
structure Reports (r s : Rig σ) : Prop where
  fails : ∀ e, s.step.1 = .error e → r.step.1 = .error e
  hits : s.step.1 = .ok () → ∀ e, r.step.1 = .error e ↔
    r.step.2.machine.pc ∈ r.breakpoints ∧ ∃ word, e = .breakpointHit r.step.2.machine.pc word ∧
      word.toNat = r.step.2.machine.memory.bigEndian r.step.2.machine.pc.toNat
  /-- A word that is skipped is no failure, and a breakpoint behind it is reported. -/
  skips : ∀ word, r.machine.memory.readWord r.machine.pc.toNat = .ok word →
    Opcode.decode word = .error (.unknownOpcode word) → s.step.1 = .ok ()

theorem Abreast.reports (h : Abreast r s) : Reports r s := by
  have hplain : s.step.1 = (r.machine.step r.dice.top).1 := by
    rw [step_of_unmarked h.plain h.unmarked, h.machine, h.dice]
  constructor
  · intro e he
    exact step_of_error h.bare (hplain.symm.trans he)
  · intro hok e
    rw [step_of_ok h.bare (hplain.symm.trans hok)]
    refine and_congr_right fun _ => ?_
    constructor
    · rintro rfl
      exact ⟨_, rfl, toNat_wordAt _ _⟩
    · rintro ⟨word, rfl, hword⟩
      rw [← toNat_wordAt, UInt16.toNat_inj] at hword
      rw [hword]
  · intro word hword hop
    rw [hplain, Machine.step_of_unknown hword (Opcode.decode_eq_error_iff.mp hop)]

/-- What setting and unsetting breakpoints between steps comes to, beside the same steps without
any. -/
structure OnlyReports (rig : Rig σ) (ops : List BreakOp) : Prop where
  nodup : (rig.breakOps ops).breakpoints.Nodup
  listed : ∀ addr, addr ∈ (rig.breakOps ops).breakpoints ↔
    lastMark addr ops = some true ∨ lastMark addr ops = none ∧ addr ∈ rig.breakpoints
  machine : (rig.breakOps ops).machine = (rig.unmarked.walk (ops.count .step)).machine
  next : Reports (rig.breakOps ops) (rig.unmarked.walk (ops.count .step))

theorem breakpoints_only_report {rig : Rig σ} (hhooks : rig.hooks = .empty)
    (hnodup : rig.breakpoints.Nodup) (ops : List BreakOp) : rig.OnlyReports ops := by
  have hstart : Abreast rig rig.unmarked := ⟨rfl, rfl, hhooks, hhooks, rfl⟩
  have hafter := hstart.breakOps ops
  exact ⟨nodup_breakOps hnodup ops, rig.mem_breakOps ops, hafter.machine, hafter.reports⟩

/-- Is about to skip a word that is no instruction. -/
def skipping : Rig Unit :=
  { powerOn ⟨fun _ => 0, 0⟩ () (.empty .off) with
    machine := { Machine.powerOn with
      memory := Memory.powerOn.overlay Layout.programStart [0xff, 0xff, 0x60, 0x05] }
    breakpoints := [0x300] }

def marks : List BreakOp := [.set 0x202, .set 0x204, .set 0x202, .unset 0x300, .unset 0x204]

theorem skipping_reports : skipping.hooks = .empty ∧ skipping.breakpoints.Nodup ∧
    (skipping.breakOps marks).breakpoints.Nodup ∧
    (∀ addr, addr ∈ (skipping.breakOps marks).breakpoints ↔ addr = 0x202) ∧
    (skipping.breakOps marks).step.1 = .error (.breakpointHit 0x202 0x6005) := by
  have hnodup : skipping.breakpoints.Nodup := by decide
  have hreports : skipping.OnlyReports marks := breakpoints_only_report rfl hnodup marks
  have hlist : (skipping.breakOps marks).breakpoints = [0x202] := by decide +kernel
  obtain ⟨hpc, hthere⟩ : (skipping.breakOps marks).step.2.machine.pc = 0x202 ∧
      (skipping.breakOps marks).step.2.machine.memory.bigEndian 0x202 = 0x6005 := by
    decide +kernel
  have hword : (skipping.breakOps marks).machine.memory.readWord
      (skipping.breakOps marks).machine.pc.toNat = .ok 0xffff :=
    Memory.readWord_overlay Memory.powerOn Layout.programStart 0xff 0xff [0x60, 0x05] (by decide)
  have hok := hreports.next.skips 0xffff hword rfl
  have hhit := (hreports.next.hits hok (.breakpointHit 0x202 0x6005)).mpr
  rw [hpc, hlist] at hhit
  refine ⟨rfl, hnodup, hreports.nodup, ?_, hhit ⟨by decide, 0x6005, rfl, hthere.symm⟩⟩
  intro addr
  rw [hlist, List.mem_singleton]

end Rig

end Chip8
