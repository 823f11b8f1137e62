import Chip8.Proofs.Breakpoints

/-! # Switching off and on

A virtual machine that was switched off and on is a new one but for its flags, its profile and its
breakpoints. Every later call answers as it does on a new virtual machine on which these three are
set up, whatever was run, queued or loaded before.
-/

namespace Chip8

namespace Rig

variable {σ τ : Type} {r : Rig σ} {s : Rig τ}

theorem nodup_change {rig : Rig σ} (h : rig.breakpoints.Nodup) (c : Change) :
    (rig.change c).breakpoints.Nodup := by
  cases c with
  | setBreak addr => exact nodup_breakOp h (.set addr)
  | unsetBreak addr => exact nodup_breakOp h (.unset addr)
  | powerOn =>
    simp only [change]
    exact h
  | _ => exact h

theorem nodup_step {rig : Rig σ} (h : rig.breakpoints.Nodup) : rig.step.2.breakpoints.Nodup := by
  rw [breakpoints_step]
  exact h

theorem Tied.change (h : Tied Eq r s) (c : Change) : Tied Eq (r.change c) (s.change c) := by
  have hmachine : ∀ update : Machine → Machine, update r.machine = update s.machine :=
    fun update => congrArg update h.machine
  cases c with
  | powerOn =>
    simp only [Rig.change]
    exact { h with machine := rfl }
  | load memory => exact { h with machine := hmachine fun m => { m with memory } }
  | hold key? down => exact { h with machine := hmachine (·.hold key? down) }
  | tick => exact { h with machine := hmachine Machine.timed }
  | ask => exact { h with machine := hmachine (·.takeOutputChanged.2) }
  | setBreak addr =>
    simp only [Rig.change, setBreak, h.breakpoints]
    split
    case isTrue => exact h
    case isFalse => exact { h with breakpoints := rfl }
  | unsetBreak addr =>
    exact { h with breakpoints := congrArg (List.filter (· ≠ addr)) h.breakpoints }
  | record event => exact { h with }

theorem tied_likeness : Likeness (Tied Eq : Rig σ → Rig τ → Prop) id where
  change h c := h.change c
  memory h := congrArg Machine.memory h.machine
  registers h := congrArg Machine.v h.machine
  screen h := congrArg (·.display.screen) h.machine
  sound h := congrArg Machine.sound h.machine
  asked h := congrArg (fun m : Machine => Reply.changed m.takeOutputChanged.1) h.machine
  framed h cycle screen buzzer values :=
    congrArg (fun m : Machine => Reply.frame ⟨cycle, screen, buzzer, m.takeOutputChanged.1, values⟩)
      h.machine

theorem Tied.same_step (h : Tied Eq r s) : Outcome.Both (Tied Eq) r.step s.step := by
  refine h.step ?_ (congrArg Machine.rolls h.machine) ?_
  · rintro m _ rfl
    exact ⟨rfl, rfl⟩
  · rw [h.machine]
    exact ⟨rfl, rfl⟩

end Rig

namespace Vm

variable {σ τ : Type}

/-- Whatever can have become of a virtual machine since it was built, also by handlers that were
hooked for a while or by somebody who has put another machine in. -/
inductive Reachable : Vm σ → Prop
  | built (flags : Flags) (dice : Dice) (memo : σ) (journal : Journal) :
    Reachable (ofRig flags (.powerOn dice memo journal))
  | hookOp {vm : Vm σ} (h : Reachable vm) (op : HookOp σ) : Reachable (vm.hookOp op)
  | setMachine {vm : Vm σ} (h : Reachable vm) (machine : Machine) : Reachable (vm.setMachine machine)

theorem Reachable.nodup {vm : Vm σ} (h : vm.Reachable) : vm.rig.breakpoints.Nodup := by
  induction h with
  | built => exact List.nodup_nil
  | hookOp _ op ih =>
    cases op with
    | set other hook =>
      simp only [Vm.hookOp, Rig.setHook]
      split <;> exact ih
    | unset | unsetAll => exact ih
    | call call =>
      have hchange : ∀ (rig : Rig σ) c, rig.breakpoints.Nodup → (rig.change c).breakpoints.Nodup :=
        fun _ c h => Rig.nodup_change h c
      have hstep : ∀ rig : Rig σ, rig.breakpoints.Nodup → rig.step.2.breakpoints.Nodup :=
        fun _ h => Rig.nodup_step h
      exact kept_call hchange hstep ih call
  | setMachine _ _ ih => exact ih

theorem Reachable.hookOps {vm : Vm σ} (h : vm.Reachable) (ops : List (HookOp σ)) :
    (vm.hookOps ops).Reachable := by
  induction ops generalizing vm with
  | nil => exact h
  | cons op ops ih => exact ih (h.hookOp op)

def setup (vm : Vm σ) : List Call :=
  vm.profile.toList.map .setProfile ++ vm.rig.breakpoints.map .setBreak

/-- A new virtual machine with the flags of another, the profile and the breakpoints of the other
and the same rolls to come. -/
def renewed (vm : Vm σ) (memo : τ) (journal : Journal) : Vm τ :=
  ((ofRig vm.flags (.powerOn vm.rig.dice memo journal)).session vm.setup).2

theorem session_setBreak (addrs : List UInt16) {vm : Vm τ}
    (hnodup : (vm.rig.breakpoints ++ addrs).Nodup) :
    (vm.session (addrs.map .setBreak)).2 =
      { vm with rig := { vm.rig with breakpoints := vm.rig.breakpoints ++ addrs } } := by
  induction addrs generalizing vm with
  | nil => simp only [List.map_nil, session, List.append_nil]
  | cons addr addrs ih =>
    -- Setting a breakpoint again would not list it again.
    have hfresh : addr ∉ vm.rig.breakpoints := by
      intro hmem
      exact (List.nodup_append.mp hnodup).2.2 addr hmem addr List.mem_cons_self rfl
    have hset : (vm.call (.setBreak addr)).2 =
        { vm with rig := { vm.rig with breakpoints := vm.rig.breakpoints ++ [addr] } } := by
      simp only [Vm.call, Rig.setBreak, hfresh, if_false]
    change (session (addrs.map .setBreak) (vm.call (.setBreak addr)).2).2 = _
    rw [hset, ih (by simpa using hnodup)]
    simp only [List.append_assoc, List.singleton_append]

theorem renewed_eq {vm : Vm σ} (hnodup : vm.rig.breakpoints.Nodup) (memo : τ) (journal : Journal) :
    vm.renewed memo journal =
      ⟨{ Rig.powerOn vm.rig.dice memo journal with breakpoints := vm.rig.breakpoints }, vm.flags,
        vm.profile, [], 0⟩ := by
  unfold renewed setup
  cases vm.profile with
  | none => exact session_setBreak _ hnodup
  | some profile => exact session_setBreak _ hnodup

theorem reset_alike_renewed {vm : Vm σ} (hhooks : vm.rig.hooks = .empty)
    (hnodup : vm.rig.breakpoints.Nodup) (memo : τ) (journal : Journal) :
    Alike (Rig.Tied Eq) vm.reset (vm.renewed memo journal) := by
  rw [renewed_eq hnodup]
  simp only [reset, record, setMachine, Rig.record]
  exact ⟨⟨rfl, hhooks, rfl, rfl, rfl⟩, rfl, rfl, rfl, rfl⟩

/-- What was before it was switched off and on cannot be told from any answer of a virtual machine,
and is nowhere in its later states. -/
theorem reset_session {vm : Vm σ} (hreach : vm.Reachable) (hhooks : vm.rig.hooks = .empty)
    (memo : τ) (journal : Journal) (calls : List Call) :
    (vm.reset.session calls).1 = ((vm.renewed memo journal).session calls).1 ∧
      Alike (Rig.Tied Eq) (vm.reset.session calls).2 ((vm.renewed memo journal).session calls).2 := by
  have hstart := reset_alike_renewed hhooks hreach.nodup memo journal
  obtain ⟨hreplies, hafter⟩ := hstart.session Rig.tied_likeness Rig.Tied.same_step calls
  rw [List.map_id, List.map_id] at hreplies
  exact ⟨hreplies, hafter⟩

def fresh : Vm Unit := ofRig .standard (.powerOn ⟨fun _ => 7, 0⟩ () (.empty .off))

/-- Ends at a breakpoint in a subroutine while a key is held. -/
def doings : List (HookOp Unit) :=
  [.set .call ⟨.before, fun _ state => (.ok (), state)⟩, .call (.loadRom [0x22, 0x04]),
    .call (.setBreak 0x204), .call (.setKey 3 true), .call .cycle, .unsetAll]

theorem fresh_reset : (fresh.hookOps doings).Reachable ∧
    (fresh.hookOps doings).rig.hooks = .empty ∧
    (fresh.hookOps doings).machine.stack.depth = 1 ∧
    ((fresh.hookOps doings).reset.session [.cycle, .loadRom [0x12, 0x04], .cycle, .frame]).1 =
      (((fresh.hookOps doings).renewed () (.empty .off)).session
        [.cycle, .loadRom [0x12, 0x04], .cycle, .frame]).1 := by
  have hreach : (fresh.hookOps doings).Reachable :=
    (Reachable.built .standard ⟨fun _ => 7, 0⟩ () (.empty .off)).hookOps doings
  exact ⟨hreach, rfl, by decide +kernel, (reset_session hreach rfl () (.empty .off) _).1⟩

end Vm

end Chip8
