import Chip8.Proofs.Fault

/-! # Calls and returns

The live return addresses are a list of at most sixteen on which calls push and from which returns
pop, and nothing else touches it. So what a call has saved stays in its place as long as the stack
is deeper than it was at the call, and the return that ends this goes back to just behind the
call.
-/

namespace Chip8

/-- What an instruction asks of the list of live addresses, oldest first. -/
inductive StackOp
  | push (addr : UInt16)
  | pop
  | keep
deriving DecidableEq

namespace StackOp

def result? : StackOp → List UInt16 → Option (List UInt16)
  | .push addr, live => if live.length < 16 then some (live ++ [addr]) else none
  | .pop, live => if live = [] then none else some live.dropLast
  | .keep, live => some live

def applyAll (ops : List StackOp) (live : List UInt16) : List UInt16 :=
  ops.foldl (fun live op => (op.result? live).getD live) live

end StackOp

namespace Machine

def opcode? (m : Machine) : Option Opcode :=
  match m.memory.readWord m.pc.toNat with
  | .ok w => Opcode.decode? w
  | .error _ => none

def stackOp (m : Machine) : StackOp :=
  match m.opcode? with
  | some .call => .push (m.pc + 2)
  | some .ret => .pop
  | _ => .keep

/-- What a step makes of the stack. -/
inductive StackStep (m : Machine) (result : Except Error Unit) (next : Machine) : Prop
  | called (hop : m.opcode? = some .call) (hroom : m.stack.depth < 16)
    (hresult : ∀ e, result = .error e → e.isBreak = true)
    (hlive : next.stack.toList = m.stack.toList ++ [m.pc + 2])
    (haddr : (m.pc + 2).toNat = m.pc.toNat + 2)
  | overflowed (hop : m.opcode? = some .call) (hfull : m.stack.depth = 16)
    (hresult : result = .error (.stackOverflow (m.pc + 2))) (hstack : next.stack = m.stack)
  | returned (hop : m.opcode? = some .ret)
    (hresult : ∀ e, result = .error e → e.isBreak = true)
    (hlive : m.stack.toList = next.stack.toList ++ [next.pc])
  | underflowed (hop : m.opcode? = some .ret) (hempty : m.stack.depth = 0)
    (hresult : result = .error (.stackUnderflow (m.pc + 2))) (hstack : next.stack = m.stack)
  | other (hcall : m.opcode? ≠ some .call) (hret : m.opcode? ≠ some .ret)
    (hstack : next.stack = m.stack)

variable {m next : Machine} {result : Except Error Unit}

theorem Upcoming.opcode?_eq {w : UInt16} {op : Opcode} (h : m.Upcoming w op) :
    m.opcode? = some op := by
  rw [opcode?, h.word]
  exact Opcode.decode_eq_ok_iff.mp h.opcode

theorem opcode?_of_outside (hpc : 0xffe < m.pc.toNat) : m.opcode? = none := by
  rw [opcode?, Memory.readWord_eq_error_iff.mpr ⟨hpc, rfl⟩]

theorem opcode?_of_unknown {w : UInt16} (hword : m.memory.readWord m.pc.toNat = .ok w)
    (hop : Opcode.decode? w = none) : m.opcode? = none := by
  rw [opcode?, hword]
  exact hop

theorem Upcoming.stackStep_of_ok {w : UInt16} {op : Opcode} {roll : UInt8} (h : m.Upcoming w op)
    (hexec : m.fetched.exec roll (.ofOpcode w op) = .ok next)
    (hresult : ∀ e, result = .error e → e.isBreak = true) : StackStep m result next := by
  have hleaves := exec_leaves hexec
  have hop := h.opcode?_eq
  cases op with
  | call =>
    simp only [Instr.ofOpcode, exec] at hexec
    cases hpush : m.fetched.stack.push? m.fetched.pc with
    | none => simp [hpush] at hexec
    | some stack =>
      have hlive : next.stack.toList = m.stack.toList ++ [m.pc + 2] := by
        rw [hleaves.stack]
        simp only [Instr.ofOpcode, Instr.nextStack, hpush, Option.getD_some]
        exact CallStack.toList_push? hpush
      have hlength := congrArg List.length hlive
      have hdepth : next.stack.depth ≤ 16 := next.stack.depth_le
      simp only [CallStack.length_toList, List.length_append, List.length_singleton] at hlength
      exact .called hop (by omega) hresult hlive (toNat_pc_fetched h.pc_le)
  | ret =>
    simp only [Instr.ofOpcode, exec] at hexec
    cases hpop : m.fetched.stack.pop? with
    | none => simp [hpop] at hexec
    | some top =>
      simp only [hpop, Except.ok.injEq] at hexec
      subst hexec
      exact .returned hop hresult (CallStack.toList_pop? hpop)
  | _ => exact .other (by simp [hop]) (by simp [hop]) hleaves.stack

theorem Upcoming.stackStep_of_error {w : UInt16} {op : Opcode} {roll : UInt8} {e : Error}
    (h : m.Upcoming w op) (hexec : m.fetched.exec roll (.ofOpcode w op) = .error e)
    (hresult : result = .error e) : StackStep m result m.fetched := by
  have hfault := exec_eq_error_iff.mp hexec
  have hop := h.opcode?_eq
  cases op with
  | call =>
    obtain ⟨hfull, ⟨⟩⟩ := Option.ite_none_right_eq_some.mp hfault
    exact .overflowed hop hfull hresult rfl
  | ret =>
    obtain ⟨hempty, ⟨⟩⟩ := Option.ite_none_right_eq_some.mp hfault
    exact .underflowed hop hempty hresult rfl
  | _ => exact .other (by simp [hop]) (by simp [hop]) rfl

theorem StackStep.toList_eq (h : StackStep m result next) :
    next.stack.toList = (m.stackOp.result? m.stack.toList).getD m.stack.toList := by
  cases h with
  | called hop hroom _ hlive =>
    simp [stackOp, hop, StackOp.result?, hroom, hlive]
  | overflowed hop hfull _ hstack =>
    simp [stackOp, hop, StackOp.result?, hfull, hstack]
  | returned hop _ hlive =>
    simp [stackOp, hop, StackOp.result?, hlive]
  | underflowed hop hempty _ hstack =>
    have hnil : m.stack.toList = [] := List.eq_nil_of_length_eq_zero (by simpa using hempty)
    simp [stackOp, hop, StackOp.result?, hstack, hnil]
  | other hcall hret hstack =>
    have hkeep : m.stackOp = .keep := by
      unfold stackOp
      split
      case h_1 hop => exact absurd hop hcall
      case h_2 hop => exact absurd hop hret
      case h_3 => rfl
    simp [hkeep, StackOp.result?, hstack]

theorem StackStep.isPrefix {live : List UInt16} (h : StackStep m result next)
    (hlive : live <+: m.stack.toList) (hdepth : next.stack.depth + 1 ≠ live.length) :
    live <+: next.stack.toList := by
  cases h with
  | called _ _ _ hnext =>
    rw [hnext]
    exact hlive.trans (List.prefix_append _ _)
  | returned _ _ hm =>
    rw [hm, List.prefix_concat_iff] at hlive
    obtain heq | hlive := hlive
    · exact absurd (by simp [heq]) hdepth
    · exact hlive
  | overflowed _ _ _ hstack | underflowed _ _ _ hstack | other _ _ hstack =>
    rw [hstack]
    exact hlive

theorem StackStep.called_of_lt (h : StackStep m result next) (hop : m.opcode? = some .call)
    (hroom : m.stack.depth < 16) : next.stack.toList = m.stack.toList ++ [m.pc + 2] ∧
      (m.pc + 2).toNat = m.pc.toNat + 2 := by
  cases h with
  | called _ _ _ hlive haddr => exact ⟨hlive, haddr⟩
  | overflowed _ hfull => omega
  | returned hop' | underflowed hop' => cases hop.symm.trans hop'
  | other hcall => exact absurd hop hcall

theorem StackStep.returned_of_lt (h : StackStep m result next)
    (hdepth : next.stack.depth < m.stack.depth) : m.opcode? = some .ret ∧
      m.stack.toList = next.stack.toList ++ [next.pc] := by
  cases h with
  | called _ _ _ hlive =>
    have hlength := congrArg List.length hlive
    simp at hlength
    omega
  | returned hop _ hlive => exact ⟨hop, hlive⟩
  | overflowed _ _ _ hstack | underflowed _ _ _ hstack | other _ _ hstack =>
    rw [hstack] at hdepth
    exact absurd hdepth (Nat.lt_irrefl _)

end Machine

namespace Rig

variable {σ : Type}

theorem stack_step {rig : Rig σ} (hhooks : rig.hooks = .empty) :
    Machine.StackStep rig.machine rig.step.1 rig.step.2.machine := by
  have hend := rig.machine.step_end rig.dice.top
  rw [machine_step hhooks]
  generalize houtcome : rig.machine.step rig.dice.top = outcome at hend
  cases hend with
  | outside hpc =>
    have hop := Machine.opcode?_of_outside hpc
    exact .other (by simp [hop]) (by simp [hop]) rfl
  | unknown hword hop =>
    have hop := Machine.opcode?_of_unknown hword hop
    exact .other (by simp [hop]) (by simp [hop]) rfl
  | done hnext hexec =>
    have hresult : ∀ e, rig.step.1 = .error e → e.isBreak = true := by
      intro e he
      obtain ⟨-, rfl⟩ := (step_of_ok hhooks (by rw [houtcome])).mp he
      rfl
    exact hnext.stackStep_of_ok hexec hresult
  | failed hnext hexec =>
    exact hnext.stackStep_of_error hexec (step_of_error hhooks (by rw [houtcome]))

def stackOps (rig : Rig σ) : Nat → List StackOp
  | 0 => []
  | count + 1 => stackOps rig count ++ [(rig.walk count).machine.stackOp]

theorem stack_walk {rig : Rig σ} (hhooks : rig.hooks = .empty) (count : Nat) :
    Machine.StackStep (rig.walk count).machine (rig.walk count).step.1
      (rig.walk (count + 1)).machine := stack_step (hooks_walk hhooks count)

theorem toList_walk {rig : Rig σ} (hhooks : rig.hooks = .empty) (count : Nat) :
    (rig.walk count).machine.stack.toList =
      StackOp.applyAll (rig.stackOps count) rig.machine.stack.toList := by
  induction count with
  | zero => rfl
  | succ count ih =>
    rw [(stack_walk hhooks count).toList_eq, ih, stackOps, StackOp.applyAll, StackOp.applyAll,
      List.foldl_append]
    rfl

/-- As long as the stack stays deeper than it was, what a call has pushed stays in its place. -/
theorem isPrefix_walk {rig : Rig σ} (hhooks : rig.hooks = .empty) {first : Nat}
    {live : List UInt16} (hcall : (rig.walk (first + 1)).machine.stack.toList = live)
    (count : Nat) (hdeep : ∀ k, first < k → k ≤ first + 1 + count →
      (rig.walk k).machine.stack.depth + 1 ≠ live.length) :
    live <+: (rig.walk (first + 1 + count)).machine.stack.toList := by
  induction count with
  | zero => exact ⟨[], (List.append_nil live).trans hcall.symm⟩
  | succ count ih =>
    have hbefore := ih fun k hk hle => hdeep k hk (by omega)
    have hstep := stack_walk hhooks (first + 1 + count)
    exact hstep.isPrefix hbefore (hdeep _ (by omega) (Nat.le_refl _))

/-- The stack in a run that goes on whether or not its steps fail. -/
structure Nested (rig : Rig σ) : Prop where
  step : ∀ count, Machine.StackStep (rig.walk count).machine (rig.walk count).step.1
    (rig.walk (count + 1)).machine
  refines : ∀ count, (rig.walk count).machine.stack.toList =
    StackOp.applyAll (rig.stackOps count) rig.machine.stack.toList
  /-- The first step that makes the stack as shallow as it was before a call returns behind it. -/
  matched : ∀ first last, first < last → (rig.walk first).machine.opcode? = some .call →
    (rig.walk first).machine.stack.depth < 16 →
    (∀ k, first < k → k ≤ last →
      (rig.walk k).machine.stack.depth ≠ (rig.walk first).machine.stack.depth) →
    (rig.walk (last + 1)).machine.stack.depth = (rig.walk first).machine.stack.depth →
    (rig.walk last).machine.opcode? = some .ret ∧
      (rig.walk (last + 1)).machine.pc.toNat = (rig.walk first).machine.pc.toNat + 2 ∧
      (rig.walk (last + 1)).machine.stack.toList = (rig.walk first).machine.stack.toList

theorem walk_nested {rig : Rig σ} (hhooks : rig.hooks = .empty) : rig.Nested := by
  refine ⟨stack_walk hhooks, toList_walk hhooks, ?_⟩
  intro first last hlt hop hroom hdeep hback
  obtain ⟨hlive, haddr⟩ := (stack_walk hhooks first).called_of_lt hop hroom
  obtain ⟨count, rfl⟩ : ∃ count, last = first + 1 + count := ⟨last - (first + 1), by omega⟩
  have hkept := isPrefix_walk hhooks hlive count fun k hk hle => by
    have hne := hdeep k hk hle
    simpa using hne
  have hshallow : (rig.walk (first + 1 + count + 1)).machine.stack.depth <
      (rig.walk (first + 1 + count)).machine.stack.depth := by
    have hlength := hkept.length_le
    simp only [CallStack.length_toList, List.length_append, List.length_singleton] at hlength
    omega
  obtain ⟨hret, hlast⟩ := (stack_walk hhooks (first + 1 + count)).returned_of_lt hshallow
  -- The address of the call is the only one that the return can have taken.
  rw [hlast] at hkept
  have heq := hkept.eq_of_length (by simp [hback])
  obtain ⟨hrest, htop⟩ := List.append_inj' heq rfl
  rw [← haddr, List.singleton_inj.mp htop]
  exact ⟨hret, rfl, hrest.symm⟩

/-- Calls a subroutine that calls another one. -/
def nestedCalls : List UInt8 := [0x22, 0x04, 0x12, 0x02, 0x22, 0x08, 0x00, 0xee, 0x00, 0xee]

def callsTwice : Rig Unit :=
  { powerOn ⟨fun _ => 0, 0⟩ () (.empty .off) with
    machine := { Machine.powerOn with
      memory := Memory.zero.overlay Layout.programStart nestedCalls } }

theorem callsTwice_returns : callsTwice.hooks = .empty ∧
    (callsTwice.walk 3).machine.opcode? = some .ret ∧
    (callsTwice.walk 4).machine.pc.toNat = 0x202 := by
  have hop : callsTwice.machine.opcode? = some .call := by
    have hword := Memory.readWord_overlay Memory.zero Layout.programStart 0x22 0x04
      (nestedCalls.drop 2) (by decide)
    exact Machine.Upcoming.opcode?_eq ⟨hword, rfl⟩
  have hdepths : ∀ k < 5,
      (callsTwice.walk k).machine.stack.depth = [0, 1, 2, 1, 0].getD k 0 := by decide +kernel
  have hdeep : ∀ k, 0 < k → k ≤ 3 → (callsTwice.walk k).machine.stack.depth ≠
      (callsTwice.walk 0).machine.stack.depth := by
    intro k hk hle
    rw [hdepths k (by omega), hdepths 0 (by omega)]
    obtain rfl | rfl | rfl : k = 1 ∨ k = 2 ∨ k = 3 := by omega
    all_goals decide
  have hback : (callsTwice.walk (3 + 1)).machine.stack.depth =
      (callsTwice.walk 0).machine.stack.depth := by
    rw [hdepths 0 (by omega), hdepths (3 + 1) (by omega)]
    rfl
  have hnested : callsTwice.Nested := walk_nested rfl
  obtain ⟨hret, hpc, -⟩ := hnested.matched 0 3 (by decide) hop (by decide) hdeep hback
  have hstart : (callsTwice.walk 0).machine.pc.toNat = 0x200 := rfl
  exact ⟨rfl, hret, by simpa [hstart] using hpc⟩

end Rig

end Chip8
